/-
  Sending on an HTC endpoint: `htc_send.c`.

  * `Packet`, `Endpoint`, `State`: an endpoint with its queues, its credits and the calls of
    `htc_try_send` that are under way.
  * `getHtcSendPacketsCreditBased`, `getHtcSendPackets`: one pass over the TxQueue, with the
    packets that go first taken out of it.
  * `drainLoop`: the part of `htc_try_send` from one taking of the lock to its release.
  * `step`: every section under the HTC TX lock, and what happens between them, one after the
    other in any order of the threads.

  Bundling is off.  The netbuf of a packet is its `id`.
-/
import Mathlib.Algebra.BigOperators.Group.List.Basic
import Mathlib.Data.List.Count
import Mathlib.Tactic.Common

namespace Sm8850.Htc

/-! ## Packets and endpoints -/

/-- The tags `HTC_TX_PACKET_TAG_*` and `HTC_TX_PACKET_SYSTEM_*` that are told apart. -/
inductive Tag where
  | userDefined | autoPm | runtimePut | rtpmPutRc | systemSuspend | systemResume
  deriving DecidableEq

/-- `HTC_PACKET`.  Its netbuf takes `numFrags` of the resources of an endpoint without credits;
    `nodrop` is set when it gets into the TxQueue while the target's flag is set. -/
structure Packet where
  id : ℕ
  actualLength : ℕ
  numFrags : ℕ
  tag : Tag
  nodrop : Bool
  creditsUsed : ℕ
  needCreditUpdate : Bool
  deriving DecidableEq

inductive Service where
  | wmiControl | httDataMsg | other
  deriving DecidableEq

/-- What does not change of `HTC_ENDPOINT`, and how the driver is built. -/
structure Endpoint where
  service : Service
  endpoint0 : Bool
  txCreditFlowEnabled : Bool
  txCreditSize : ℕ
  txCreditsPerMaxMsg : ℕ
  maxTxQueueDepth : ℕ
  epSendFull : Bool
  epPaddingCredit : Bool
  asyncUpdate : Bool
  featureRuntimePm : Bool
  systemPmCheck : Bool

/-! ## Runtime PM -/

/-- `HIF_RTPM_ID_WMI` and `HIF_RTPM_ID_HTT`. -/
inductive RtpmId where
  | wmi | htt
  deriving DecidableEq

/-- The votes that are held for a client. -/
abbrev Votes : Type := RtpmId → ℕ

/-- `hif_rtpm_get`, when the bus is not suspended; else it does not vote. -/
def Votes.get (v : Votes) (id : RtpmId) : Votes := Function.update v id (v id + 1)

/-- `hif_rtpm_put`, which is refused without a vote. -/
def Votes.put (v : Votes) (id : RtpmId) : Votes := Function.update v id (v id - 1)

/-- `htc_send_pkts_get_rtpm_id`. -/
def Endpoint.rtpmId (ep : Endpoint) : RtpmId :=
  if ep.service = .httDataMsg then .htt else .wmi

/-- The tags with which `htc_tx_completion_handler` does not release a vote. -/
def Tag.Releases (t : Tag) : Prop := t ≠ .autoPm ∧ t ≠ .runtimePut ∧ t ≠ .rtpmPutRc

instance (t : Tag) : Decidable t.Releases := inferInstanceAs (Decidable (_ ∧ _))

/-! ## One pass over the TxQueue -/

/-- What the calls return during a pass: the one before the `i`-th packet. -/
structure Env where
  rtpmGet : ℕ → Bool
  systemPmState : ℕ → Bool
  txResources : ℕ

/-- What a loop takes out of a queue, and what it leaves. -/
structure Grab where
  queue : List Packet
  rest : List Packet
  txCredits : ℕ
  votes : Votes

/-- How many credits a packet takes, with its header of eight octets. -/
def creditsRequired (ep : Endpoint) (p : Packet) : ℕ :=
  let transferLength := p.actualLength + 8
  if ep.endpoint0 then 0
  else if transferLength ≤ ep.txCreditSize then 1
  else if transferLength % ep.txCreditSize = 0 then transferLength / ep.txCreditSize
  else transferLength / ep.txCreditSize + 1

/-- The loop of `get_htc_send_packets_credit_based`.  A vote that it does not need in the end is
    released again. -/
def grabCredits (ep : Endpoint) (env : Env) (doPmGet sysPmCheck : Bool) :
    ℕ → ℕ → Votes → List Packet → Grab
  | _, txCredits, votes, [] => { queue := [], rest := [], txCredits, votes }
  | i, txCredits, votes, p :: q =>
    if doPmGet = true ∧ env.rtpmGet i = false then
      { queue := [], rest := p :: q, txCredits, votes }
    else if sysPmCheck = true ∧ env.systemPmState i = false then
      { queue := [], rest := p :: q, txCredits, votes }
    else if txCredits < creditsRequired ep p then
      { queue := [], rest := p :: q, txCredits, votes }
    else
      let left := txCredits - creditsRequired ep p
      let g := grabCredits ep env doPmGet sysPmCheck (i + 1) left
        (if doPmGet then votes.get ep.rtpmId else votes) q
      { g with queue :=
          { p with
            creditsUsed := creditsRequired ep p
            needCreditUpdate := !ep.endpoint0 && decide (left ≤ ep.txCreditsPerMaxMsg) } ::
          g.queue }

/-- The loop of `get_htc_send_packets`. -/
def grabResources (ep : Endpoint) (env : Env) (doPmGet : Bool) :
    ℕ → ℤ → ℕ → Votes → List Packet → Grab
  | _, _, txCredits, votes, [] => { queue := [], rest := [], txCredits, votes }
  | i, resources, txCredits, votes, p :: q =>
    if resources ≤ 0 then { queue := [], rest := p :: q, txCredits, votes }
    else if doPmGet = true ∧ env.rtpmGet i = false then
      { queue := [], rest := p :: q, txCredits, votes }
    else if env.systemPmState i = false then { queue := [], rest := p :: q, txCredits, votes }
    else
      let g := grabResources ep env doPmGet (i + 1) (resources - p.numFrags) txCredits
        (if doPmGet then votes.get ep.rtpmId else votes) q
      { g with queue := { p with creditsUsed := 0, needCreditUpdate := false } :: g.queue }

/-- The packets with a tag are taken out of the TxQueue, on the endpoint of the WMI. -/
def extractPackets (built : Bool) (tag : Tag) (ep : Endpoint) (txQueue : List Packet) :
    List Packet × List Packet :=
  if ep.service = .wmiControl ∧ built = true then
    (txQueue.filter (·.tag = tag), txQueue.filter (·.tag ≠ tag))
  else ([], txQueue)

/-- `extract_htc_pm_packets`: the packets, and the TxQueue without them. -/
def extractHtcPmPackets (ep : Endpoint) : List Packet → List Packet × List Packet :=
  extractPackets ep.featureRuntimePm .autoPm ep

/-- `extract_htc_system_resume_pkts`. -/
def extractHtcSystemResumePkts (ep : Endpoint) : List Packet → List Packet × List Packet :=
  extractPackets ep.systemPmCheck .systemResume ep

/-- A pass: the send queue, the TxQueue behind it, and whether it voted. -/
structure Pass where
  queue : List Packet
  txQueue : List Packet
  txCredits : ℕ
  votes : Votes
  doPmGet : Bool

/-- `get_htc_send_packets_credit_based`.  The power management packets it leaves go back to the
    head of the TxQueue, the system resume packets do not. -/
def getHtcSendPacketsCreditBased (ep : Endpoint) (env : Env) (txCredits : ℕ) (votes : Votes)
    (txQueue : List Packet) : Pass :=
  match extractHtcPmPackets ep txQueue with
  | (p :: q, others) =>
    let g := grabCredits ep env false false 0 txCredits votes (p :: q)
    { g with txQueue := g.rest ++ others, doPmGet := false }
  | ([], txQueue) =>
    match extractHtcSystemResumePkts ep txQueue with
    | (p :: q, others) =>
      let g := grabCredits ep env true false 0 txCredits votes (p :: q)
      { g with txQueue := others, doPmGet := true }
    | ([], txQueue) =>
      let g := grabCredits ep env true true 0 txCredits votes txQueue
      { g with txQueue := g.rest, doPmGet := true }

/-- `get_htc_send_packets`. -/
def getHtcSendPackets (ep : Endpoint) (env : Env) (txCredits : ℕ) (votes : Votes)
    (txQueue : List Packet) : Pass :=
  match extractHtcPmPackets ep txQueue with
  | (p :: q, others) =>
    let g := grabResources ep env false 0 env.txResources txCredits votes (p :: q)
    { g with txQueue := g.rest ++ others, doPmGet := false }
  | ([], txQueue) =>
    let g := grabResources ep env true 0 env.txResources txCredits votes txQueue
    { g with txQueue := g.rest, doPmGet := true }

def pass (ep : Endpoint) (env : Env) (txCredits : ℕ) (votes : Votes) (txQueue : List Packet) :
    Pass :=
  if ep.txCreditFlowEnabled then getHtcSendPacketsCreditBased ep env txCredits votes txQueue
  else getHtcSendPackets ep env txCredits votes txQueue

/-! ## The endpoint -/

/-- Where the draining thread is in `htc_issue_packets`: before the next packet, in
    `hif_send_head`, or giving back the credits of the packets that it could not send. -/
inductive Phase where
  | issue
  | posted (p : Packet)
  | reclaim (todo : List Packet)

/-- The thread that drains the endpoint: its send queue, whether it voted for the packets in it,
    and whether credits were reported since it began. -/
structure Drain where
  sendQueue : List Packet
  phase : Phase
  doPmGet : Bool
  reported : Bool

/-- How the last drain ended: all was sent that could be, or a send failed, with packets put back
    for which credits were reported in the meantime. -/
inductive Ended where
  | drained
  | failed (reported : Bool)
  deriving DecidableEq

/-- What happened so far: the packets handed over, those that got into the TxQueue behind the
    others, those that `hif_send_head` accepted, those completed to their owner, those left in a
    caller's queue, and the credits reported. -/
structure History where
  handed : List ℕ
  entered : List ℕ
  accepted : List Packet
  completed : List Packet
  left : List Packet
  reported : ℕ
  ended : Ended

/-- The endpoint.  Each of the `callers` is an `htc_try_send` before it takes the lock, with the
    packets it has moved from its caller's queue. -/
structure State where
  txQueue : List Packet
  txLookupQueue : List Packet
  txCredits : ℕ
  txProcessCount : ℕ
  isNodropPkt : Bool
  votes : Votes
  callers : List (List Packet)
  drain : Option Drain
  hist : History

/-- A packet without a power management tag, and without the nodrop flag. -/
def Packet.Ordinary (p : Packet) : Prop :=
  p.tag ≠ .autoPm ∧ p.tag ≠ .systemResume ∧ p.nodrop = false

instance (p : Packet) : Decidable p.Ordinary := inferInstanceAs (Decidable (_ ∧ _))

namespace State

/-- The drain is over: the processing count is cleared. -/
def finish (s : State) (ended : Ended) : State :=
  { s with txProcessCount := 0, drain := none, hist := { s.hist with ended } }

/-- No `htc_try_send` is running. -/
def Idle (s : State) : Prop := s.callers = [] ∧ s.drain = none

/-- With `async_update` the draining thread keeps the lock. -/
def LockFree (ep : Endpoint) (s : State) : Prop := ep.asyncUpdate = true → s.drain.isNone = true

instance (ep : Endpoint) (s : State) : Decidable (s.LockFree ep) :=
  inferInstanceAs (Decidable (_ → _))

/-- The packet that is in `hif_send_head`. -/
def posted (s : State) : Option ℕ :=
  match s.drain with
  | some { phase := .posted p, .. } => some p.id
  | _ => none

end State

/-! ## `htc_try_send` -/

/-- How many of `n` packets the TxQueue does not have room for; its depth is read twice. -/
def overflow (ep : Endpoint) (depth depth' n : ℕ) : ℤ :=
  if ep.maxTxQueueDepth ≤ depth then n else (depth' : ℤ) + n - ep.maxTxQueueDepth

/-- The packets that go on, and those that `EpSendFull` wants dropped. -/
def splitCallers (ep : Endpoint) (depth depth' : ℕ) (keep : Packet → Bool) (q : List Packet) :
    List Packet × List Packet :=
  let excess := overflow ep depth depth' q.length
  if excess ≤ 0 ∨ ep.epSendFull = false then (q, [])
  else
    let goodPkts := ((q.length : ℤ) - excess).toNat
    (q.take goodPkts ++ (q.drop goodPkts).filter keep, (q.drop goodPkts).filter (!keep ·))

/-- The part before the lock is taken. -/
def handOver (ep : Endpoint) (depth depth' : ℕ) (keep : Packet → Bool) (q : List Packet)
    (s : State) : State :=
  let (sendQueue, left) := splitCallers ep depth depth' keep q
  { s with
    callers := if sendQueue = [] then s.callers else s.callers ++ [sendQueue]
    hist := { s.hist with
      handed := s.hist.handed ++ q.map Packet.id, left := s.hist.left ++ left } }

/-- The packets get into the TxQueue, at its head if they are nodrop packets. -/
def enqueue (sendQueue : List Packet) (s : State) : State :=
  if sendQueue = [] then s
  else if s.isNodropPkt then
    { s with
      txQueue := sendQueue.map (fun p => { p with nodrop := true }) ++ s.txQueue
      isNodropPkt := false }
  else
    let sendQueue := sendQueue.map fun p => { p with nodrop := false }
    { s with
      txQueue := s.txQueue ++ sendQueue
      hist := { s.hist with
        entered := s.hist.entered ++ (sendQueue.filter (·.Ordinary)).map Packet.id } }

/-- The turn of the loop that begins with the lock held: it ends the loop, or it gets packets to
    be issued without the lock. -/
def drainLoop (ep : Endpoint) (env : Env) (reported : Bool) (s : State) : State :=
  if s.txQueue = [] then s.finish .drained
  else if ep.asyncUpdate = true ∧ ep.txCreditFlowEnabled = false ∧ env.txResources = 0 then
    s.finish .drained
  else
    let g := pass ep env s.txCredits s.votes s.txQueue
    let s := { s with txQueue := g.txQueue, txCredits := g.txCredits, votes := g.votes }
    if g.queue = [] then s.finish .drained
    else
      let d : Drain := { sendQueue := g.queue, phase := .issue, doPmGet := g.doPmGet, reported }
      { s with drain := some d }

/-- The section that begins with the lock: a second thread on the endpoint returns at once. -/
def enter (ep : Endpoint) (env : Env) (sendQueue : List Packet) (s : State) : State :=
  let s := enqueue sendQueue s
  if 1 < s.txProcessCount + 1 then s
  else drainLoop ep env false { s with txProcessCount := s.txProcessCount + 1 }

/-! ## `htc_issue_packets` -/

/-- The next packet is taken from the send queue.  On an endpoint with credits its header is
    looked up and its netbuf is mapped; a packet without a header is not put back. -/
def take (ep : Endpoint) (header mapped : Bool) (d : Drain) (s : State) : Option State :=
  match d.phase, d.sendQueue with
  | .issue, p :: q =>
    if ep.txCreditFlowEnabled = true ∧ header = false then
      some { s with
        txCredits := s.txCredits + p.creditsUsed
        drain := some { d with sendQueue := q, phase := .reclaim q } }
    else if ep.txCreditFlowEnabled = true ∧ mapped = false then
      some { s with drain := some { d with phase := .reclaim (p :: q) } }
    else
      some { s with
        txLookupQueue := s.txLookupQueue ++ [p]
        drain := some { d with sendQueue := q, phase := .posted p } }
  | _, _ => none

/-- `hif_send_head` returns.  A packet that it did not accept goes back to the head of the send
    queue. -/
def sent (ok : Bool) (d : Drain) (s : State) : Option State :=
  match d.phase with
  | .posted p =>
    if ok then
      some { s with
        votes := if p.tag = .runtimePut then s.votes.put .htt else s.votes
        drain := some { d with phase := .issue }
        hist := { s.hist with accepted := s.hist.accepted ++ [p] } }
    else
      some { s with
        txLookupQueue := s.txLookupQueue.erase p
        drain := some
          { d with sendQueue := p :: d.sendQueue, phase := .reclaim (p :: d.sendQueue) } }
  | _ => none

/-- The endpoint has no padding credit for the next packet. -/
def noPadCredit (ep : Endpoint) (d : Drain) (s : State) : Option State :=
  match d.phase with
  | .issue =>
    if ep.epPaddingCredit then
      some { s with drain := some { d with phase := .reclaim d.sendQueue } }
    else none
  | _ => none

/-- The send queue is drained, and the loop of `htc_try_send` goes on. -/
def more (ep : Endpoint) (env : Env) (d : Drain) (s : State) : Option State :=
  match d.phase, d.sendQueue with
  | .issue, [] => some (drainLoop ep env d.reported s)
  | _, _ => none

/-- The credits of one packet are given back. -/
def giveBack (d : Drain) (s : State) : Option State :=
  match d.phase with
  | .reclaim (p :: todo) =>
    some { s with
      txCredits := s.txCredits + p.creditsUsed
      drain := some { d with phase := .reclaim todo } }
  | _ => none

/-- One vote is released for each packet of the send queue, and they go back to the head of the
    TxQueue. -/
def putBack (ep : Endpoint) (d : Drain) (s : State) : Option State :=
  match d.phase with
  | .reclaim [] =>
    some (State.finish
      { s with
        votes := d.sendQueue.foldl (fun v _ => v.put ep.rtpmId) s.votes
        txQueue := d.sendQueue ++ s.txQueue }
      (.failed (d.reported && decide (d.sendQueue ≠ []))))
  | _ => none

/-! ## Completions and credit reports -/

/-- `htc_lookup_tx_packet`: completions are in order most of the time. -/
def htcLookupTxPacket (netbuf : ℕ) : List Packet → Option Packet × List Packet
  | [] => (none, [])
  | p :: q =>
    if netbuf = p.id then (some p, q)
    else
      match (p :: q).find? (·.id = netbuf) with
      | none => (none, p :: q)
      | some found => (some found, (p :: q).erase found)

/-- `htc_tx_completion_handler`.  An endpoint without credits tries to send more. -/
def htcTxCompletionHandler (ep : Endpoint) (netbuf : ℕ) (s : State) : State :=
  let (found, txLookupQueue) := htcLookupTxPacket netbuf s.txLookupQueue
  let callers :=
    if ep.txCreditFlowEnabled = false ∧ (s.txProcessCount = 0 ∨ ep.asyncUpdate = false) then
      s.callers ++ [[]]
    else s.callers
  match found with
  | none => { s with txLookupQueue, callers }
  | some p =>
    { s with
      txLookupQueue
      callers
      votes := if p.tag.Releases then s.votes.put .wmi else s.votes
      hist := { s.hist with completed := s.hist.completed ++ [p] } }

/-- An entry of `htc_process_credit_rpt`. -/
def htcProcessCreditRpt (rptCredits : ℕ) (s : State) : State :=
  let txCredits := s.txCredits + rptCredits
  { s with
    txCredits
    callers := if txCredits ≠ 0 ∧ s.txQueue ≠ [] then s.callers ++ [[]] else s.callers
    drain := s.drain.map fun d => { d with reported := d.reported || rptCredits ≠ 0 }
    hist := { s.hist with reported := s.hist.reported + rptCredits } }

/-! ## Runs -/

/-- What a thread does next. -/
inductive Action where
  | handOver (q : List Packet) (depth depth' : ℕ) (keep : Packet → Bool)
  | trySend
  | setNodropPkt (isNodropPkt : Bool)
  | enter (i : ℕ) (env : Env)
  | take (header mapped : Bool)
  | sent (ok : Bool)
  | noPadCredit
  | more (env : Env)
  | giveBack
  | putBack
  | completed (netbuf : ℕ)
  | creditRpt (rptCredits : ℕ)

/-- Each packet is handed over once.  HIF completes packets that it has accepted. -/
def step (ep : Endpoint) (s : State) : Action → Option State
  | .handOver q depth depth' keep =>
    if (s.hist.handed ++ q.map Packet.id).Nodup then some (handOver ep depth depth' keep q s)
    else none
  | .trySend => some { s with callers := s.callers ++ [[]] }
  | .setNodropPkt isNodropPkt => some { s with isNodropPkt }
  | .enter i env =>
    if s.LockFree ep then
      s.callers[i]?.map fun sendQueue =>
        enter ep env sendQueue { s with callers := s.callers.eraseIdx i }
    else none
  | .take header mapped => s.drain.bind fun d => take ep header mapped d s
  | .sent ok => s.drain.bind fun d => sent ok d s
  | .noPadCredit => s.drain.bind fun d => noPadCredit ep d s
  | .more env => s.drain.bind fun d => more ep env d s
  | .giveBack => s.drain.bind fun d => giveBack d s
  | .putBack => s.drain.bind fun d => putBack ep d s
  | .completed netbuf =>
    if s.LockFree ep ∧ s.posted ≠ some netbuf then some (htcTxCompletionHandler ep netbuf s)
    else none
  | .creditRpt rptCredits =>
    if s.LockFree ep then some (htcProcessCreditRpt rptCredits s) else none

/-- The endpoint before the first packet. -/
def State.init (txCredits : ℕ) (votes : Votes) : State where
  txQueue := []
  txLookupQueue := []
  txCredits := txCredits
  txProcessCount := 0
  isNodropPkt := false
  votes := votes
  callers := []
  drain := none
  hist :=
    { handed := [], entered := [], accepted := [], completed := [], left := [], reported := 0,
      ended := .drained }

/-- The states of the runs from a state whose steps all meet a condition. -/
inductive Run (ep : Endpoint) (cond : State → Action → Prop) (s₀ : State) : State → Prop
  | refl : Run ep cond s₀ s₀
  | tail {s s' : State} {a : Action} (run : Run ep cond s₀ s) (hcond : cond s a)
      (hstep : step ep s a = some s') : Run ep cond s₀ s'

/-- What the steps preserve, the runs preserve. -/
theorem Run.invariant {ep : Endpoint} {cond : State → Action → Prop} {s₀ s : State}
    {I : State → Prop} (run : Run ep cond s₀ s) (hinit : I s₀)
    (hstep : ∀ s s' a, I s → cond s a → step ep s a = some s' → I s') : I s := by
  induction run with
  | refl => exact hinit
  | tail run hcond h ih => exact hstep _ _ _ ih hcond h

/-- The actions of a list, one after the other. -/
def exec (ep : Endpoint) : List Action → State → Option State
  | [], s => some s
  | a :: as, s => (step ep s a).bind (exec ep as)

theorem run_of_exec {ep : Endpoint} {s₀ s : State} (as : List Action)
    (h : exec ep as s₀ = some s) : Run ep (fun _ _ => True) s₀ s := by
  suffices hgen : ∀ s₁, Run ep (fun _ _ => True) s₀ s₁ → exec ep as s₁ = some s →
      Run ep (fun _ _ => True) s₀ s from hgen s₀ .refl h
  clear h
  induction as with
  | nil =>
    intro s₁ run h
    cases h
    exact run
  | cons a as ih =>
    intro s₁ run h
    obtain ⟨s₂, hstep, h⟩ := Option.bind_eq_some_iff.1 h
    exact ih s₂ (run.tail trivial hstep) h

/-- The endpoint of the WMI. -/
def wmiEndpoint : Endpoint where
  service := .wmiControl
  endpoint0 := false
  txCreditFlowEnabled := true
  txCreditSize := 1792
  txCreditsPerMaxMsg := 1
  maxTxQueueDepth := 64
  epSendFull := true
  epPaddingCredit := false
  asyncUpdate := false
  featureRuntimePm := true
  systemPmCheck := true

/-- Every call of a pass succeeds. -/
def Env.good : Env where
  rtpmGet := fun _ => true
  systemPmState := fun _ => true
  txResources := 0

/-- A packet of 100 octets before it is handed over. -/
def newPacket (id : ℕ) (tag : Tag) : Packet where
  id := id
  actualLength := 100
  numFrags := 2
  tag := tag
  nodrop := false
  creditsUsed := 0
  needCreditUpdate := false

end Sm8850.Htc
