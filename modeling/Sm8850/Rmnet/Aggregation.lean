/-
  Uplink aggregation of the rmnet driver (`rmnet_map_data.c`).

  * `Agg` is a `struct rmnet_aggregation_state`: the buffer being filled
    (`aggSkb`), `agg_state`, the flush timer and the flush work.  Pages are not
    modelled: `rmnet_map_build_skb` succeeds or fails as the environment says.
  * One function for each section under `agg_lock`, and `step` for what the
    callers, the timer and the worker do between two sections.  `hrtimer_cancel`
    is a step of its own: it comes after the lock was dropped.
  * `sent` is a ghost: the buffers handed to `send_agg_skb`, in order.
-/
import Mathlib.Algebra.GroupWithZero.Nat
import Mathlib.Data.Int.Notation
import Mathlib.Data.Nat.Log
import Mathlib.Logic.Relation
import Mathlib.Tactic.Common

namespace Sm8850.Rmnet

/-! ## Time and buffers -/

def NSEC_PER_SEC : ℤ := 1000000000

structure Timespec where
  tvSec : ℤ
  tvNsec : ℤ

/-- The difference of two times, its nanoseconds normalised. -/
def timespec64Sub (a b : Timespec) : Timespec :=
  ⟨a.tvSec - b.tvSec + (a.tvNsec - b.tvNsec) / NSEC_PER_SEC,
    (a.tvNsec - b.tvNsec) % NSEC_PER_SEC⟩

/-- A packet, or the buffer packets are copied to: its bytes and the room they lie in. -/
structure SkBuff where
  data : List UInt8
  size : ℕ
  priority : ℕ

def SkBuff.len (skb : SkBuff) : ℕ := skb.data.length

def skbTailroom (skb : SkBuff) : ℕ := skb.size - skb.len

/-- `rmnet_map_linearize_copy`: the bytes of `src` after those of `dst`.  Without
    room for them `skb_put` panics. -/
def rmnetMapLinearizeCopy (dst src : SkBuff) : Option SkBuff :=
  if src.len ≤ skbTailroom dst then some { dst with data := dst.data ++ src.data } else none

/-- `RMNET_LLM`. -/
def rmnetLlm (prio : ℕ) : Bool := prio == 0xDA001A

/-- `RMNET_APS_LLB`. -/
def rmnetApsLlb (prio : ℕ) : Bool := prio >>> 16 == 0x9B6D && prio.testBit 9

/-! ## The state -/

def EINPROGRESS : ℤ := 115
def PAGE_SIZE : ℕ := 4096
def rmnetAggTimeLimit : ℤ := 1000000
def rmnetAggBypassTime : ℤ := 10000000

/-- `SKB_DATA_ALIGN(sizeof(struct skb_shared_info))`. -/
def sharedInfoSize : ℕ := 320

structure EgressAggParams where
  aggSize : ℕ
  aggCount : ℕ
  aggFeatures : ℕ
  aggTime : ℕ

/-- A high resolution timer: is it armed, and does its callback run. -/
structure Hrtimer where
  armed : Bool
  running : Bool

/-- A work item: does it wait for the worker, and does its function run. -/
structure Work where
  pending : Bool
  running : Bool

/-- `struct rmnet_aggregation_state`. -/
structure Agg where
  params : EgressAggParams
  aggTime : Timespec
  aggLast : Timespec
  hrtimer : Hrtimer
  aggWq : Work
  aggSkb : Option SkBuff
  aggState : ℤ
  aggCount : ℕ
  aggSizeOrder : ℕ
  sent : List SkBuff

/-- The bits of `port->data_format` that aggregation reads. -/
structure Port where
  egressFormatPriority : Bool
  egressFormatAggregation : Bool

/-- What a section reads from the clock and the allocator: the time at its start, the
    time at which a new buffer is stamped, and whether there is a page for the buffer. -/
structure Env where
  now : Timespec
  stamp : Timespec
  page : Bool

variable (st : Agg) (skb : SkBuff)

/-- `send_agg_skb`. -/
def Agg.send : Agg := { st with sent := st.sent ++ [skb] }

/-- The buffer is let go of. -/
def Agg.reset : Agg := { st with aggSkb := none, aggCount := 0, aggTime := ⟨0, 0⟩ }

def hrtimerStart : Agg := { st with hrtimer.armed := true }

def scheduleWork : Agg := { st with aggWq.pending := true }

/-! ## Calls -/

/-- What a call does once its `hrtimer_cancel` has returned. -/
inductive After
  | done
  | newPacket (skb : SkBuff)
  | send (skb : SkBuff)

/-- Where a caller stands: outside; before the section of `rmnet_map_tx_aggregate`
    (`new_packet`), of `rmnet_map_send_agg_skb` or of `rmnet_map_tx_qmap_cmd`; before a
    `hrtimer_cancel`; before sending a packet of its own. -/
inductive Call
  | idle
  | txAggregate (skb : SkBuff)
  | sendAggSkb
  | txQmapCmd (skb : SkBuff) (flush : Bool)
  | cancel (k : After)
  | send (skb : SkBuff)

/-- What follows the `hrtimer_cancel`, or its omission. -/
def After.call : After → Call
  | done => .idle
  | newPacket skb => .txAggregate skb
  | send skb => .send skb

/-! ## Sections under `agg_lock` -/

/-- `rmnet_map_send_agg_skb`, the lock held at its start. -/
def rmnetMapSendAggSkb (k : After) : Agg × Call :=
  match st.aggSkb with
  | none => (st, k.call)
  | some aggSkb => ({ st.reset with aggState := 0 }.send aggSkb, .cancel k)

/-- The end of `rmnet_map_tx_aggregate`: arm the timer unless a flush is on its way. -/
def Agg.schedule : Agg :=
  if st.aggState ≠ -EINPROGRESS then hrtimerStart { st with aggState := -EINPROGRESS } else st

/-- `rmnet_map_build_skb`. -/
def rmnetMapBuildSkb (page : Bool) : Option SkBuff :=
  if page then some ⟨[], PAGE_SIZE <<< st.aggSizeOrder - sharedInfoSize, 0⟩ else none

/-- The traffic is too sparse, or the packet too large, to start a buffer for it. -/
def Agg.bypass (last : Timespec) : Bool :=
  let diff := timespec64Sub st.aggLast last
  decide (0 < diff.tvSec) || decide (rmnetAggBypassTime < diff.tvNsec) ||
    decide ((st.params.aggSize : ℤ) - skb.len ≤ 0)

/-- The buffer has no room for the packet, or is complete, or too old. -/
def Agg.full (aggSkb : SkBuff) : Bool :=
  let diff := timespec64Sub st.aggLast st.aggTime
  decide (skbTailroom aggSkb < skb.len) || decide (st.params.aggCount ≤ st.aggCount) ||
    decide (0 < diff.tvSec) || decide (rmnetAggTimeLimit < diff.tvNsec)

/-- The section of `rmnet_map_tx_aggregate` from `new_packet` on. -/
def rmnetMapTxAggregate (port : Port) (e : Env) : Option (Agg × Call) :=
  let last := st.aggLast
  let st := { st with aggLast := e.now }
  if port.egressFormatPriority && (rmnetLlm skb.priority || rmnetApsLlb skb.priority) then
    some (rmnetMapSendAggSkb st (.send skb))
  else
    match st.aggSkb with
    | none =>
      if st.bypass skb last then some (st.send skb, .idle)
      else
        match rmnetMapBuildSkb st e.page with
        | none => some (st.reset.send skb, .idle)
        | some buf => do
          let aggSkb ← rmnetMapLinearizeCopy buf skb
          return (Agg.schedule
            { st with aggSkb := some aggSkb, aggCount := 1, aggTime := e.stamp }, .idle)
    | some aggSkb =>
      if st.full skb aggSkb then some (rmnetMapSendAggSkb st (.newPacket skb))
      else do
        let aggSkb ← rmnetMapLinearizeCopy aggSkb skb
        return (Agg.schedule { st with aggSkb := some aggSkb, aggCount := st.aggCount + 1 }, .idle)

/-- The section of `rmnet_map_tx_qmap_cmd`, which sends its own packet in any case. -/
def rmnetMapTxQmapCmd (port : Port) (flush : Bool) : Agg × Call :=
  if flush && port.egressFormatAggregation then
    match st.aggSkb with
    | none => (st, .send skb)
    | some aggSkb => ({ st.reset with aggState := 0 }.send aggSkb, .cancel (.send skb))
  else (st, .send skb)

/-- `rmnet_map_flush_tx_packet_work`. -/
def rmnetMapFlushTxPacketWork : Agg :=
  if st.aggState = -EINPROGRESS then
    match st.aggSkb with
    | none => { st with aggState := 0 }
    | some aggSkb => { st.reset with aggState := 0 }.send aggSkb
  else st

/-- `get_order`: the least order of pages that holds `size` bytes. -/
def getOrder (size : ℕ) : ℕ := Nat.clog 2 ((size + PAGE_SIZE - 1) / PAGE_SIZE)

/-- `rmnet_map_update_ul_agg_config`. -/
def rmnetMapUpdateUlAggConfig (size count features time : ℕ) : Agg :=
  if size < PAGE_SIZE then { st with params := ⟨size, count, features, time⟩ }
  else
    let order := getOrder size
    { st with
      params := ⟨(PAGE_SIZE <<< order - sharedInfoSize) % 2 ^ 16, count, features, time⟩
      aggSizeOrder := order }

/-! ## Steps -/

variable {τ : Type}

/-- An aggregation state and the calls in progress on it. -/
structure Sys (τ : Type) where
  agg : Agg
  call : τ → Call

/-- What can happen next. -/
inductive Act (τ : Type)
  | enter (t : τ) (c : Call)
  | locked (t : τ) (e : Env)
  | hrtimerCancel (t : τ)
  | xmit (t : τ)
  | timerFires
  | timerCallback
  | workStarts
  | workRuns
  | config (size count features time : ℕ)

/-- The calls a caller may make. -/
def Call.entry : Call → Bool
  | txAggregate _ | sendAggSkb | txQmapCmd _ _ => true
  | idle | cancel _ | send _ => false

variable [DecidableEq τ]

/-- The caller has moved on. -/
def Sys.goto (t : τ) (r : Agg × Call) (s : Sys τ) : Sys τ :=
  ⟨r.1, Function.update s.call t r.2⟩

/-- One step; `none` where it cannot be taken.  A timer whose callback runs does not
    expire, and `hrtimer_cancel` waits for the callback; a work item runs on one worker
    at a time. -/
def step (port : Port) (s : Sys τ) : Act τ → Option (Sys τ)
  | .enter t c =>
    match s.call t with
    | .idle => if c.entry then some (s.goto t (s.agg, c)) else none
    | _ => none
  | .locked t e =>
    match s.call t with
    | .txAggregate skb => (rmnetMapTxAggregate s.agg skb port e).map fun r => s.goto t r
    | .sendAggSkb => some (s.goto t (rmnetMapSendAggSkb s.agg .done))
    | .txQmapCmd skb flush => some (s.goto t (rmnetMapTxQmapCmd s.agg skb port flush))
    | _ => none
  | .hrtimerCancel t =>
    match s.call t with
    | .cancel k =>
      if s.agg.hrtimer.running then none
      else some (s.goto t ({ s.agg with hrtimer.armed := false }, k.call))
    | _ => none
  | .xmit t =>
    match s.call t with
    | .send skb => some (s.goto t (s.agg.send skb, .idle))
    | _ => none
  | .timerFires =>
    if s.agg.hrtimer.armed && !s.agg.hrtimer.running then
      some { s with agg.hrtimer := ⟨false, true⟩ }
    else none
  | .timerCallback =>
    -- `rmnet_map_flush_tx_packet_queue`, which does not restart the timer
    if s.agg.hrtimer.running then
      some { s with agg := { scheduleWork s.agg with hrtimer.running := false } }
    else none
  | .workStarts =>
    if s.agg.aggWq.pending && !s.agg.aggWq.running then some { s with agg.aggWq := ⟨false, true⟩ }
    else none
  | .workRuns =>
    if s.agg.aggWq.running then
      some { s with agg := { rmnetMapFlushTxPacketWork s.agg with aggWq.running := false } }
    else none
  | .config size count features time =>
    some { s with agg := rmnetMapUpdateUlAggConfig s.agg size count features time }

/-- The state `rmnet_map_tx_aggregate_init` leaves: recycling is off, and the size is too
    small for pages of its own. -/
def Agg.init : Agg where
  params := ⟨PAGE_SIZE - 1, 20, 0, 3000000⟩
  aggTime := ⟨0, 0⟩
  aggLast := ⟨0, 0⟩
  hrtimer := ⟨false, false⟩
  aggWq := ⟨false, false⟩
  aggSkb := none
  aggState := 0
  aggCount := 0
  aggSizeOrder := 0
  sent := []

/-- Nobody has called yet. -/
def Sys.init : Sys τ := ⟨Agg.init, fun _ => .idle⟩

end Sm8850.Rmnet
