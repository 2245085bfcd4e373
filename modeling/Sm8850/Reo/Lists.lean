/-
  The reorder lists of management frames, after `wlan_mgmt_txrx_rx_reo.c`.

  A frame updates the host snapshot of its link, gets a wait count for each link from the
  snapshots, changes the counts of the frames that are queued and is queued itself.  Frames
  that wait for nothing are moved to the egress list in order.

  * `calculateWaitCount`: the loop over the links.
  * `updateWaitCount`, `Entry.countDown`: the two rules on the counts of queued frames.
  * `updateIngressList`, `updateEgressList`: what a frame does to the lists.
  * `algoEntry`: the critical section of `wlan_mgmt_rx_reo_algo_entry`.
  * `moveEntries`, `ageoutEntries`: how frames leave the ingress list.
  * `Op`, `Run`: the runs of these in any order.
-/
import Sm8850.Reo.HostSnapshot
import Mathlib.Algebra.GroupWithZero.Nat
import Mathlib.Logic.Function.Basic
import Mathlib.Data.List.FinRange

namespace Sm8850.Reo

/-! ## Wait counts -/

/-- The links of a group, `MAX_MLO_LINKS` of them. -/
abbrev Link := Fin 6

def links : List Link := List.finRange 6

/-- The number of frames to wait for on each link, and their sum as a 64-bit number. -/
structure WaitCount where
  perLinkCount : Link → ℕ
  totalCount : ℕ

namespace WaitCount

def zero : WaitCount := ⟨fun _ => 0, 0⟩

/-- The count of a link is calculated. -/
def add (wc : WaitCount) (link : Link) (n : ℕ) : WaitCount where
  perLinkCount := Function.update wc.perLinkCount link n
  totalCount := (wc.totalCount + n) % 2 ^ 64

/-- The count of a link goes down to `n`. -/
def lower (wc : WaitCount) (link : Link) (n : ℕ) : WaitCount where
  perLinkCount := Function.update wc.perLinkCount link n
  totalCount := (wc.totalCount + (2 ^ 64 - (wc.perLinkCount link - n))) % 2 ^ 64

end WaitCount

/-- One turn of the loop of `mgmt_rx_reo_update_wait_count`. -/
def updateLinkCount (new old : WaitCount) (link : Link) : WaitCount :=
  if old.perLinkCount link ≠ 0 then
    old.lower link (min (old.perLinkCount link) (new.perLinkCount link))
  else old

/-- `mgmt_rx_reo_update_wait_count`: an older frame does not wait for more than a newer one. -/
def updateWaitCount (old new : WaitCount) : WaitCount := links.foldl (updateLinkCount new) old

/-! ## Entries and descriptors -/

/-- The status bits of a list entry. -/
structure Flags where
  waitForFrameOnOtherLinks : Bool
  agedOut : Bool
  olderThanLatestAgedOutFrame : Bool
  ingressListOverflow : Bool
  egressListOverflow : Bool
  olderThanReadyToDeliverFrames : Bool

structure Entry where
  link : Link
  globalTimestamp : UInt32
  waitCount : WaitCount
  initialWaitCount : WaitCount
  snapshots : Link → Snapshots
  flags : Flags
  insertionTs : UInt64
  isParallelRx : Bool

inductive DescType
  | hostConsumedFrame | fwConsumedFrame | errorFrame
deriving DecidableEq

inductive ListType
  | ingress | egress
deriving DecidableEq

/-- The descriptor of the frame that comes in. -/
structure Desc where
  type : DescType
  link : Link
  params : ReoParams
  startTs : UInt32
  endTs : UInt32
  reoRequired : Bool
  waitCount : WaitCount
  snapshots : Link → Snapshots
  drop : Option DropReason
  pktCtrDelta : ℤ
  isStale : Bool
  isParallelRx : Bool
  queuedList : Option ListType

namespace Entry

/-- The flag goes once there is nothing to wait for. -/
def clearWhenZero (e : Entry) : Entry :=
  if e.waitCount.totalCount = 0 then
    { e with flags := { e.flags with waitForFrameOnOtherLinks := false } }
  else e

/-- An older entry takes over the counts of a newer frame where they are lower. -/
def lowerTo (e : Entry) (wc : WaitCount) : Entry :=
  { e with waitCount := updateWaitCount e.waitCount wc }.clearWhenZero

/-- A newer entry no longer waits for the frames of `link` up to the one that came in. -/
def countDown (e : Entry) (link : Link) (pktCtrDelta : ℕ) : Entry :=
  let old := e.waitCount.perLinkCount link
  if old ≠ 0 then
    let new := if pktCtrDelta ≤ old then old - pktCtrDelta else 0
    { e with waitCount := e.waitCount.lower link new }.clearWhenZero
  else e

/-- `mgmt_rx_reo_is_entry_ready_to_send_up`. -/
def isReady (e : Entry) : Bool :=
  e.flags.ingressListOverflow || e.flags.egressListOverflow ||
    !e.flags.waitForFrameOnOtherLinks || e.flags.agedOut ||
    e.flags.olderThanLatestAgedOutFrame || e.flags.olderThanReadyToDeliverFrames

end Entry

/-- `mgmt_rx_reo_prepare_list_entry`. -/
def prepareListEntry (desc : Desc) : Entry where
  link := desc.link
  globalTimestamp := desc.params.globalTimestamp
  waitCount := desc.waitCount
  initialWaitCount := desc.waitCount
  snapshots := desc.snapshots
  flags := ⟨desc.waitCount.totalCount ≠ 0, false, false, false, false, false⟩
  insertionTs := 0
  isParallelRx := false

/-! ## The wait count of a frame -/

/-- What the loop over the links finds for one of them. -/
inductive LinkRead
  | invalidLink
  | absent
  | noContext
  | readFails (status : { s : Status // s ≠ .success })
  | shared (macHw fwForwarded fwConsumed : Snapshot)

/-- One turn of the loop; an error ends it. -/
def calculateLink (reads : Link → LinkRead) (host : Link → Snapshot) (desc : Desc) (link : Link) :
    Option (Status × (Link → Snapshot) × Desc) :=
  match reads link with
  | .invalidLink | .absent =>
    some (.success, host, { desc with waitCount := desc.waitCount.add link 0 })
  | .noContext => some (.eFailure, host, desc)
  | .readFails status => some (status, host, desc)
  | .shared macHw fwForwarded fwConsumed =>
    let s := invalidateStaleSnapshots { macHw, fwForwarded, fwConsumed, host := host link }
    let host := Function.update host link s.host
    let desc := { desc with snapshots := Function.update desc.snapshots link s }
    if checkSanity s ≠ .success then
      some (checkSanity s, host, { desc with drop := some .snapshotSanityFailure })
    else do
      let n ← perLinkCount (link = desc.link) s desc.params.globalTimestamp
      return (.success, host, { desc with waitCount := desc.waitCount.add link n })

/-- The loop of `wlan_mgmt_rx_reo_algo_calculate_wait_count`. -/
def calculateLoop (reads : Link → LinkRead) (host : Link → Snapshot) (desc : Desc) :
    List Link → Option (Status × (Link → Snapshot) × Desc)
  | [] => some (.success, host, desc)
  | link :: rest => do
    let (status, host, desc) ← calculateLink reads host desc link
    if status ≠ .success then return (status, host, desc)
    else calculateLoop reads host desc rest

/-- `wlan_mgmt_rx_reo_algo_calculate_wait_count`. -/
def calculateWaitCount (reads : Link → LinkRead) (host : Link → Snapshot) (desc : Desc) :
    Option (Status × (Link → Snapshot) × Desc) :=
  match reads desc.link with
  | .invalidLink => some (.eInval, host, desc)
  | .noContext => some (.eFailure, host, desc)
  | _ => calculateLoop reads host desc links

/-! ## The lists -/

/-- The limits of a context. -/
structure Config where
  pktCtrDeltaThresh : UInt16
  ingressMaxListSize : ℕ
  egressMaxListSize : ℕ
  listEntryTimeoutUs : UInt64

/-- The host snapshots of the links of a group, the two lists, and the start and end of the
    frame that was released last. -/
structure State where
  host : Link → Snapshot
  ingress : List Entry
  egress : List Entry
  lastReleased : Option (UInt32 × UInt32)

/-- The entries up to the timestamp of a frame. -/
def olderThan (ts : UInt32) (list : List Entry) : List Entry :=
  list.takeWhile fun cur => compareGlobalTimestampsGte ts cur.globalTimestamp

/-- The entries from the first one on that is newer than a frame. -/
def newerThan (ts : UInt32) (list : List Entry) : List Entry :=
  list.dropWhile fun cur => compareGlobalTimestampsGte ts cur.globalTimestamp

/-- `mgmt_rx_reo_is_stale_frame`: is the frame older than the last one released, and if so,
    was it received in parallel with that? -/
def isStaleFrame (lastReleased : Option (UInt32 × UInt32)) (desc : Desc) : Desc :=
  let desc := { desc with isStale := false, isParallelRx := false }
  match lastReleased with
  | some (startTs, endTs) =>
    if !desc.reoRequired then desc
    else if compareGlobalTimestampsGte startTs desc.startTs &&
        compareGlobalTimestampsGte desc.endTs endTs then { desc with isParallelRx := true }
    else { desc with isStale := !compareGlobalTimestampsGte desc.startTs startTs }
  | none => desc

/-- `mgmt_rx_reo_handle_egress_overflow`: the frames in excess are marked from the front. -/
def handleEgressOverflow (cfg : Config) (egress : List Entry) : List Entry :=
  let n := egress.length - cfg.egressMaxListSize
  (egress.take n).map (fun e => { e with flags := { e.flags with egressListOverflow := true } }) ++
    egress.drop n

/-- `mgmt_rx_reo_update_egress_list`: a frame that is older than one ready to be delivered is
    queued with these. -/
def updateEgressList (cfg : Config) (lastReleased : Option (UInt32 × UInt32))
    (egress : List Entry) (desc : Desc) (new : Option Entry) :
    Option (Status × List Entry × Desc × Option Entry) := do
  let desc := isStaleFrame lastReleased desc
  let ts := desc.params.globalTimestamp
  if desc.isStale then
    qdfAssertAlways (∀ cur ∈ olderThan ts egress, cur.isParallelRx = true)
    return (.success, egress, desc, new)
  else
    match new, egress.getLast? with
    | some entry, some last =>
      if compareGlobalTimestampsGte ts last.globalTimestamp then
        return (.success, egress, desc, new)
      else
        match newerThan ts egress with
        | [] => return (.eFailure, egress, desc, new)
        | leastGreater :: rest =>
          let entry := entry.lowerTo leastGreater.waitCount
          let entry := { entry with
            isParallelRx := desc.isParallelRx
            flags := { entry.flags with olderThanReadyToDeliverFrames := true } }
          let egress := olderThan ts egress ++ entry :: leastGreater :: rest
          let desc := { desc with waitCount := entry.waitCount, queuedList := some .egress }
          return (.success, handleEgressOverflow cfg egress, desc, some entry)
    | _, _ => return (.success, egress, desc, new)

/-- The entry of a frame as it is queued in the ingress list, if it is. -/
def queuedEntry (now : UInt64) (desc : Desc) (newer : List Entry) (new : Option Entry) :
    Option Entry := do
  let entry ← new
  if desc.type = .hostConsumedFrame ∧ !desc.isStale ∧ desc.reoRequired ∧
      desc.queuedList ≠ some .egress then
    let entry := match newer with
      | [] => entry
      | leastGreater :: _ => entry.lowerTo leastGreater.waitCount
    some { entry with insertionTs := now, isParallelRx := desc.isParallelRx }
  else none

/-- `mgmt_rx_reo_update_ingress_list`. -/
def updateIngressList (now : UInt64) (ingress : List Entry) (desc : Desc) (new : Option Entry) :
    Option (List Entry) := do
  let older := olderThan desc.params.globalTimestamp ingress
  let newer := newerThan desc.params.globalTimestamp ingress
  qdfAssertAlways (∀ cur ∈ older, desc.isStale = false ∨ cur.isParallelRx = true)
  -- the difference of the counters is cut down to 16 bits
  let pktCtrDelta := (desc.pktCtrDelta % 0x10000).toNat
  return older.map (·.lowerTo desc.waitCount) ++ (queuedEntry now desc newer new).toList ++
    newer.map (·.countDown desc.link pktCtrDelta)

/-- `mgmt_rx_reo_check_sanity_list`: no entry is older than the one before it. -/
def checkSanityList (list : List Entry) : Status :=
  if ∀ p ∈ list.zip list.tail,
      compareGlobalTimestampsGte p.2.globalTimestamp p.1.globalTimestamp = true
    then .success else .eInval

/-- The new entry of a frame that the host is to consume in order. -/
def newEntry (desc : Desc) : Option Entry :=
  if desc.type = .hostConsumedFrame ∧ desc.reoRequired then some (prepareListEntry desc) else none

/-- `mgmt_rx_reo_update_lists`; `prepared` says that there is a pdev and memory for the new
    entry. -/
def updateLists (cfg : Config) (prepared : Bool) (now : UInt64) (s : State) (desc : Desc) :
    Option (Status × State) := do
  if (newEntry desc).isSome ∧ !prepared then return (.eFailure, s)
  else
    let (status, egress, desc, new) ←
      updateEgressList cfg s.lastReleased s.egress desc (newEntry desc)
    if status ≠ .success then return (status, s)
    else
      let s := { s with egress := egress }
      if checkSanityList egress ≠ .success then return (checkSanityList egress, s)
      else
        let ingress ← updateIngressList now s.ingress desc new
        return (checkSanityList ingress, { s with ingress := ingress })

/-! ## A frame -/

/-- A frame, or the notification of one that the firmware consumed. -/
structure Frame where
  type : DescType
  isMgmt : Bool
  link : Link
  params : ReoParams
  startTs : UInt32
  endTs : UInt32
  reoRequired : Bool

def Frame.desc (f : Frame) : Desc where
  type := f.type
  link := f.link
  params := f.params
  startTs := f.startTs
  endTs := f.endTs
  reoRequired := f.reoRequired
  waitCount := .zero
  snapshots := fun _ => ⟨⟨false, 0, 0⟩, ⟨false, 0, 0⟩, ⟨false, 0, 0⟩, ⟨false, 0, 0⟩⟩
  drop := none
  pktCtrDelta := 0
  isStale := false
  isParallelRx := false
  queuedList := none

/-- What a call for a frame meets: the snapshots it reads, and whether an entry can be
    prepared. -/
structure Env where
  reads : Link → LinkRead
  prepared : Bool
  now : UInt64

/-- **The critical section of `wlan_mgmt_rx_reo_algo_entry`.** -/
def algoEntry (cfg : Config) (env : Env) (s : State) (f : Frame) : Option (Status × State) :=
  if !f.isMgmt then some (.eInval, s)
  -- `check_frame_sanity`
  else if !f.params.valid then some (.eFailure, s)
  else
    let u := updateHostSnapshot cfg.pktCtrDeltaThresh (s.host f.link) f.params
    let s := { s with host := Function.update s.host f.link u.host }
    if u.status ≠ .success then some (u.status, s)
    -- a frame to be dropped goes no further, without an error
    else if u.drop.isSome then some (.success, s)
    else do
      let desc := { f.desc with pktCtrDelta := u.pktCtrDelta }
      let (status, host, desc) ← calculateWaitCount env.reads s.host desc
      let s := { s with host := host }
      if status ≠ .success then return (status, s)
      else updateLists cfg env.prepared env.now s desc

/-! ## Leaving the ingress list -/

/-- The loop over the entries to be moved: the first `n` are marked as in excess, and it ends
    at the first entry that is not ready. -/
def readyEntries (n : ℕ) : List Entry → List Entry × List Entry
  | [] => ([], [])
  | e :: rest =>
    let e := if 0 < n then { e with flags := { e.flags with ingressListOverflow := true } } else e
    if e.isReady then
      let (ready, waiting) := readyEntries (n - 1) rest
      (e :: ready, waiting)
    else ([], e :: rest)

/-- `mgmt_rx_reo_move_entries_ingress_to_egress_list`. -/
def moveEntries (cfg : Config) (s : State) : State :=
  let (ready, waiting) := readyEntries (s.ingress.length - cfg.ingressMaxListSize) s.ingress
  { s with
    ingress := waiting
    egress := if ready = [] then s.egress else handleEgressOverflow cfg (s.egress ++ ready) }

/-- An entry has been in the list for too long. -/
def Entry.isTimedOut (cfg : Config) (now : UInt64) (e : Entry) : Bool :=
  cfg.listEntryTimeoutUs ≤ now - e.insertionTs

/-- `mgmt_rx_reo_ageout_entries_ingress_list`: the entries that timed out are marked, and
    those before the last one of them as older than it. -/
def ageoutEntries (cfg : Config) (now : UInt64) : List Entry → List Entry
  | [] => []
  | e :: rest =>
    let e := if e.isTimedOut cfg now then { e with flags := { e.flags with agedOut := true } }
      else e
    let e := if rest.any (·.isTimedOut cfg now) then
      { e with flags := { e.flags with olderThanLatestAgedOutFrame := true } } else e
    e :: ageoutEntries cfg now rest

/-! ## Runs -/

/-- The steps, in any order: a frame comes in, ready entries are moved, the timer marks
    entries, entries of the egress list are released, the ingress list is flushed, and the
    pdev of a link is created. -/
inductive Op
  | entry (env : Env) (f : Frame)
  | move
  | ageout (now : UInt64)
  | release (egress : List Entry) (lastReleased : Option (UInt32 × UInt32))
  | flush
  | pdevCreate (link : Link)

/-- One step; `none` where an assertion fails. -/
def exec (cfg : Config) (s : State) : Op → Option State
  | .entry env f => (algoEntry cfg env s f).map (·.2)
  | .move => some (moveEntries cfg s)
  | .ageout now => some { s with ingress := ageoutEntries cfg now s.ingress }
  | .release egress lastReleased => some { s with egress := egress, lastReleased := lastReleased }
  | .flush => some { s with ingress := [] }
  | .pdevCreate link => some { s with host := Function.update s.host link ⟨false, 0, 0⟩ }

/-- Nothing has come in yet. -/
def State.init : State := ⟨fun _ => ⟨false, 0, 0⟩, [], [], none⟩

/-- A run from the start, with the states it passed through and the steps taken in them. -/
inductive Run (cfg : Config) : List (State × Op) → State → Prop
  | init : Run cfg [] .init
  | step {past : List (State × Op)} {s s' : State} {op : Op} : Run cfg past s →
      exec cfg s op = some s' → Run cfg (past ++ [(s, op)]) s'

/-- The states of all runs. -/
def Reachable (cfg : Config) (s : State) : Prop := ∃ past, Run cfg past s

theorem Run.foldlM {cfg : Config} {past : List (State × Op)} {s s' : State} {ops : List Op}
    (h : Run cfg past s) (hrun : ops.foldlM (exec cfg) s = some s') :
    ∃ steps, Run cfg (past ++ steps) s' ∧ steps.map (·.2) = ops := by
  induction ops generalizing past s with
  | nil =>
    cases hrun
    exact ⟨[], by rwa [List.append_nil], rfl⟩
  | cons op rest ih =>
    rw [List.foldlM_cons] at hrun
    obtain ⟨s₁, hexec, hrest⟩ := Option.bind_eq_some_iff.1 hrun
    obtain ⟨steps, hsteps, hops⟩ := ih (h.step hexec) hrest
    refine ⟨(s, op) :: steps, ?_, by rw [List.map_cons, hops]⟩
    rwa [List.append_assoc] at hsteps

end Sm8850.Reo
