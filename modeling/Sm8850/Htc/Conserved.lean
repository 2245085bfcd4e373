/-
  Packets are not lost, and keep their order.

  * `Conserved`, `InOrder`: each packet handed over is in one place; what is accepted comes in
    the order of the TxQueue.
  * `Keeps`: the condition on the steps, `Places`: the invariant.
  * `packets_conserved`: in runs of such steps both hold at every idle point.
-/
import Sm8850.Htc.Steps

namespace Sm8850.Htc

variable {ep : Endpoint} {env : Env} {s s' : State} {a : Action} {i : ℕ} {q : List Packet}

/-! ## The results -/

/-- Each packet handed over is in one place: the TxQueue, the TxLookupQueue, completed to its
    owner, or left in its caller's queue. -/
def Conserved (s : State) : Prop :=
  ∀ i, cnt i s.txQueue + cnt i s.txLookupQueue + cnt i s.hist.completed + cnt i s.hist.left =
    if i ∈ s.hist.handed then 1 else 0

/-- Packets without a power management tag and without the nodrop flag are accepted in the order
    in which they got into the TxQueue. -/
def InOrder (s : State) : Prop := (ordinary s.hist.accepted).Sublist s.hist.entered

/-- The condition: headers are found, and when resume packets are taken out of the TxQueue, there
    are votes and credits for all of them. -/
def Keeps (ep : Endpoint) (s : State) : Action → Prop
  | .enter i env => s.txProcessCount = 0 → ∀ q ∈ s.callers[i]?,
      Pass.Keeps ep env s.txCredits (enqueue q s).txQueue
  | .more env => Pass.Keeps ep env s.txCredits s.txQueue
  | .take header _ => ep.txCreditFlowEnabled = true → header = true
  | _ => True

/-! ## The invariant -/

namespace State

/-- How often a packet is in any place. -/
def total (i : ℕ) (s : State) : ℕ :=
  cnt i s.txQueue + cnt i s.txLookupQueue + cnt i s.hist.completed + cnt i s.hist.left +
    cnt i s.callers.flatten + cnt i s.sendQueue

end State

structure Places (s : State) : Prop where
  total : ∀ i, s.total i = s.hist.handed.count i
  nodup : s.hist.handed.Nodup
  order : (ordinary s.hist.accepted ++ (ordinary s.inflight ++ ordinary s.txQueue)).Sublist
    s.hist.entered

/-! ## Entering -/

theorem cnt_splitCallers (ep : Endpoint) (depth depth' : ℕ) (keep : Packet → Bool) :
    cnt i (splitCallers ep depth depth' keep q).1 + cnt i (splitCallers ep depth depth' keep q).2 =
      cnt i q := by
  unfold splitCallers
  dsimp only
  split
  · rw [cnt_nil, Nat.add_zero]
  · rw [cnt_append, Nat.add_assoc, cnt_filter_add, ← cnt_append, List.take_append_drop]

theorem total_handOver {depth depth' : ℕ} {keep : Packet → Bool} :
    (handOver ep depth depth' keep q s).total i = s.total i + cnt i q := by
  have hsplit := cnt_splitCallers (i := i) (q := q) ep depth depth' keep
  unfold handOver State.total State.sendQueue
  dsimp only
  split
  · rename_i hnil
    rw [hnil, cnt_nil] at hsplit
    rw [cnt_append]
    omega
  · rw [cnt_append, List.flatten_append, cnt_append, List.flatten_singleton]
    omega

/-! ## A turn of the loop -/

theorem Turn.total {reported : Bool} (h : Turn ep env reported s s') (hq : s.sendQueue = [])
    (hkeeps : Pass.Keeps ep env s.txCredits s.txQueue) : s'.total i = s.total i := by
  unfold State.total
  rw [hq]
  cases h with
  | stop => rfl
  | empty hfrom hnil =>
    have hcnt := hfrom.cnt_eq (i := i) hkeeps
    rw [hnil, cnt_nil, Nat.zero_add] at hcnt
    rw [← hcnt]
    rfl
  | got hfrom =>
    have hcnt := hfrom.cnt_eq (i := i) hkeeps
    rw [cnt_nil, ← hcnt]
    dsimp only [State.sendQueue]
    omega

theorem Turn.order {reported : Bool} (h : Turn ep env reported s s') :
    ordinary s'.inflight ++ ordinary s'.txQueue = ordinary s.txQueue := by
  cases h with
  | stop => rfl
  | empty hfrom hnil =>
    have hord := hfrom.ordinary_eq
    rw [hnil] at hord
    exact hord
  | got hfrom => exact hfrom.ordinary_eq

/-- The invariant after a turn that began with an empty send queue. -/
theorem Turn.places {reported : Bool} (h : Turn ep env reported s s') (hq : s.sendQueue = [])
    (hkeeps : Pass.Keeps ep env s.txCredits s.txQueue)
    (htotal : ∀ i, s.total i = s.hist.handed.count i) (hnodup : s.hist.handed.Nodup)
    (horder : (ordinary s.hist.accepted ++ ordinary s.txQueue).Sublist s.hist.entered) :
    Places s' := by
  obtain ⟨hhanded, haccepted, hentered⟩ := h.hist
  refine ⟨fun i => ?_, ?_, ?_⟩
  · rw [h.total hq hkeeps, htotal, hhanded]
  · rwa [hhanded]
  · rwa [h.order, haccepted, hentered]

/-! ## Steps -/

/-- A call with nothing to send. -/
theorem flatten_trySend (l : List (List Packet)) : (l ++ [[]]).flatten = l.flatten := by
  rw [List.flatten_append, List.flatten_singleton, List.append_nil]

theorem cnt_eraseIdx {l : List (List Packet)} {n : ℕ} (h : l[n]? = some q) :
    cnt i l.flatten = cnt i (l.eraseIdx n).flatten + cnt i q := by
  obtain ⟨hn, rfl⟩ := List.getElem?_eq_some_iff.1 h
  have hsplit : l = l.take n ++ l[n] :: l.drop (n + 1) := by
    rw [List.getElem_cons_drop, List.take_append_drop]
  conv_lhs => rw [hsplit]
  rw [List.eraseIdx_eq_take_drop_succ, List.flatten_append, List.flatten_append,
    List.flatten_cons, cnt_append, cnt_append, cnt_append]
  omega

theorem Places.enter {n : ℕ} (h : Places s) (hthreads : Threads s)
    (hcaller : s.callers[n]? = some q)
    (hkeeps : s.txProcessCount = 0 → Pass.Keeps ep env s.txCredits (enqueue q s).txQueue) :
    Places (enter ep env q { s with callers := s.callers.eraseIdx n }) := by
  obtain ⟨txQueue, isNodropPkt, new, henq, hcnt, hord⟩ :=
    enqueue_spec q { s with callers := s.callers.eraseIdx n }
  have hsame : (enqueue q s).txQueue = txQueue := by
    rw [← txQueue_enqueue_callers q s (s.callers.eraseIdx n), henq]
  have htotal : ∀ i, cnt i txQueue + cnt i s.txLookupQueue + cnt i s.hist.completed +
      cnt i s.hist.left + cnt i (s.callers.eraseIdx n).flatten + cnt i s.sendQueue =
        s.hist.handed.count i := by
    intro i
    have hplaces := h.total i
    have hcallers := cnt_eraseIdx (i := i) hcaller
    have htx := hcnt i
    dsimp only at htx
    unfold State.total at hplaces
    omega
  have horder : (ordinary s.hist.accepted ++ (ordinary s.inflight ++ ordinary txQueue)).Sublist
      (s.hist.entered ++ new) := by
    rw [hord, ← List.append_assoc, ← List.append_assoc, List.append_assoc (ordinary _)]
    exact h.order.append_right new
  unfold Htc.enter
  rw [henq]
  dsimp only
  split
  · exact ⟨htotal, h.nodup, horder⟩
  · rename_i hfree
    have hzero : s.txProcessCount = 0 := by omega
    have hdrain : s.drain = none := hthreads.count.1 hzero
    have hq : s.sendQueue = [] := by rw [State.sendQueue, hdrain]
    have hin : s.inflight = [] := by rw [State.inflight, hdrain]
    have hpass := hkeeps hzero
    rw [hsame] at hpass
    rw [hin] at horder
    exact drainLoop_turn.places (by exact hq) hpass htotal h.nodup horder

theorem Places.completed {netbuf : ℕ} (h : Places s) :
    Places (htcTxCompletionHandler ep netbuf s) := by
  have hcallers : (if ep.txCreditFlowEnabled = false ∧
      (s.txProcessCount = 0 ∨ ep.asyncUpdate = false) then s.callers ++ [[]]
      else s.callers).flatten = s.callers.flatten := by
    split
    · exact flatten_trySend _
    · rfl
  have hfound := found_htcLookupTxPacket netbuf s.txLookupQueue
  unfold htcTxCompletionHandler
  generalize htcLookupTxPacket netbuf s.txLookupQueue = result at hfound ⊢
  rcases result with ⟨found, rest⟩
  dsimp only at hfound ⊢
  cases hfound with
  | none hnone =>
    refine ⟨fun i => ?_, h.nodup, h.order⟩
    rw [← h.total i]
    unfold State.total
    dsimp only [State.sendQueue]
    rw [hcallers]
  | @some x rest hid hperm =>
    refine ⟨fun i => ?_, h.nodup, h.order⟩
    have hcnt := cnt_perm (i := i) hperm
    rw [← h.total i]
    unfold State.total
    dsimp only [State.sendQueue]
    rw [hcallers, hcnt, cnt_append, cnt_cons, cnt_cons, cnt_nil]
    omega

theorem Places.creditRpt {rptCredits : ℕ} (h : Places s) :
    Places (htcProcessCreditRpt rptCredits s) := by
  have hcallers : (if s.txCredits + rptCredits ≠ 0 ∧ s.txQueue ≠ [] then s.callers ++ [[]]
      else s.callers).flatten = s.callers.flatten := by
    split
    · exact flatten_trySend _
    · rfl
  unfold htcProcessCreditRpt
  cases hd : s.drain with
  | none =>
    refine ⟨fun i => ?_, h.nodup, ?_⟩
    · rw [← h.total i]
      simp only [State.total, State.sendQueue, hd, Option.map_none, hcallers]
    · have horder := h.order
      simp only [State.inflight, hd] at horder
      exact horder
  | some d =>
    rcases d with ⟨q, phase, v, r⟩
    refine ⟨fun i => ?_, h.nodup, ?_⟩
    · rw [← h.total i]
      simp only [State.total, State.sendQueue, hd, Option.map_some, hcallers]
    · have horder := h.order
      cases phase with
      | issue | posted | reclaim =>
        simp only [State.inflight, hd] at horder
        exact horder

/-- **A step** keeps the invariant. -/
theorem Places.moves (h : Places s) (hthreads : Threads s) (hkeeps : Keeps ep s a)
    (hmoves : Moves ep s a s') : Places s' := by
  cases hmoves with
  | @handOver q depth depth' keep hfresh =>
    refine ⟨fun i => ?_, hfresh, h.order⟩
    rw [total_handOver, h.total, cnt]
    exact (List.count_append ..).symm
  | trySend =>
    refine ⟨fun i => ?_, h.nodup, h.order⟩
    rw [← h.total i]
    unfold State.total
    dsimp only [State.sendQueue]
    rw [flatten_trySend]
  | setNodropPkt => exact ⟨h.total, h.nodup, h.order⟩
  | enter hcaller => exact h.enter hthreads hcaller fun hzero => hkeeps hzero _ hcaller
  | noHeader hd hflow => cases hkeeps hflow
  | notMapped hd hflow =>
    refine ⟨fun i => ?_, h.nodup, ?_⟩
    · rw [← h.total i]
      simp only [State.total, State.sendQueue, hd]
    · have horder := h.order
      simp only [State.inflight, hd] at horder ⊢
      exact horder
  | @posted p q v r header mapped hd =>
    refine ⟨fun i => ?_, h.nodup, ?_⟩
    · rw [← h.total i]
      simp only [State.total, State.sendQueue, hd, cnt_append, cnt_cons, cnt_nil]
      omega
    · have horder := h.order
      simp only [State.inflight, hd] at horder ⊢
      exact horder
  | @accepted p q v r hd =>
    refine ⟨fun i => ?_, h.nodup, ?_⟩
    · rw [← h.total i]
      simp only [State.total, State.sendQueue, hd]
    · have horder := h.order
      simp only [State.inflight, hd] at horder ⊢
      rw [← List.singleton_append, ordinary_append] at horder
      rwa [ordinary_append, List.append_assoc, ← List.append_assoc (ordinary [p])]
  | @refused p q v r hd =>
    refine ⟨fun i => ?_, h.nodup, ?_⟩
    · have hcnt := cnt_perm (i := i) (List.perm_cons_erase (hthreads.posted p q v r hd))
      rw [← h.total i]
      simp only [State.total, State.sendQueue, hd, hcnt, cnt_cons]
      omega
    · have horder := h.order
      simp only [State.inflight, hd] at horder ⊢
      exact horder
  | noPadCredit hd =>
    refine ⟨fun i => ?_, h.nodup, ?_⟩
    · rw [← h.total i]
      simp only [State.total, State.sendQueue, hd]
    · have horder := h.order
      simp only [State.inflight, hd] at horder ⊢
      exact horder
  | more hd =>
    have hq : s.sendQueue = [] := by rw [State.sendQueue, hd]
    have hin : s.inflight = [] := by rw [State.inflight, hd]
    have horder := h.order
    rw [hin] at horder
    exact drainLoop_turn.places hq hkeeps h.total h.nodup horder
  | giveBack hd =>
    refine ⟨fun i => ?_, h.nodup, ?_⟩
    · rw [← h.total i]
      simp only [State.total, State.sendQueue, hd]
    · have horder := h.order
      simp only [State.inflight, hd] at horder ⊢
      exact horder
  | @putBack q v r hd =>
    refine ⟨fun i => ?_, h.nodup, ?_⟩
    · refine Eq.trans ?_ (h.total i)
      simp only [State.total, State.sendQueue, State.finish, hd, cnt_append, cnt_nil]
      omega
    · have horder := h.order
      simp only [State.inflight, State.finish, hd, ordinary_append] at horder ⊢
      exact horder
  | completed => exact h.completed
  | creditRpt => exact h.creditRpt

/-! ## Main result -/

theorem places_init (txCredits : ℕ) (votes : Votes) : Places (State.init txCredits votes) :=
  ⟨fun _ => rfl, List.nodup_nil, List.Sublist.refl _⟩

theorem Places.conserved (h : Places s) (hidle : s.Idle) : Conserved s := by
  intro i
  have htotal := h.total i
  have hq : s.sendQueue = [] := by rw [State.sendQueue, hidle.2]
  rw [State.total, hidle.1, hq] at htotal
  rw [← h.nodup.count, ← htotal]
  rfl

theorem Places.inOrder (h : Places s) : InOrder s :=
  (List.sublist_append_left ..).trans h.order

/-- **Packets are conserved and keep their order** in every run in which headers are found and
    no resume packet is taken out of the TxQueue without a vote and credits for it. -/
theorem packets_conserved {txCredits : ℕ} {votes : Votes}
    (run : Run ep (Keeps ep) (State.init txCredits votes) s) :
    InOrder s ∧ (s.Idle → Conserved s) := by
  have h : Threads s ∧ Places s := by
    refine run.invariant (I := fun s => Threads s ∧ Places s)
      ⟨threads_init, places_init txCredits votes⟩ ?_
    intro s s' a h hkeeps hstep
    have hmoves := moves_of_step hstep
    exact ⟨h.1.moves hmoves, h.2.moves h.1 hkeeps hmoves⟩
  exact ⟨h.2.inOrder, h.2.conserved⟩

theorem packets_conserved_resume :
    ∃ s, Run wmiEndpoint (Keeps wmiEndpoint) (State.init 1 fun _ => 0) s ∧
      s.hist.accepted.map Packet.id = [0] ∧ InOrder s ∧ Conserved s := by
  have entered : Run wmiEndpoint (Keeps wmiEndpoint) (State.init 1 fun _ => 0) _ :=
    (Run.refl.tail (a := .handOver [newPacket 0 .systemResume] 0 0 fun _ => true)
      trivial rfl).tail
      (a := .enter 0 .good)
      (fun _ q hq => by
        cases hq
        exact fun _ _ => ⟨fun _ _ => rfl, by decide⟩) rfl
  have accepted := (entered.tail (a := .take true true) (fun _ => rfl) rfl).tail
    (a := .sent true) trivial rfl
  have idle := accepted.tail (a := .more .good)
    (fun _ _ => ⟨fun _ _ => rfl, by decide⟩) rfl
  exact ⟨_, idle, rfl, (packets_conserved idle).1, (packets_conserved idle).2 ⟨rfl, rfl⟩⟩

/-- A system resume packet that gets no vote is in no queue any more. -/
theorem resume_packet_lost :
    ∃ s, Run wmiEndpoint (fun _ _ => True) (State.init 1 fun _ => 0) s ∧ s.Idle ∧
      ¬ Conserved s := by
  refine ⟨_, run_of_exec [
    .handOver [newPacket 0 .systemResume] 0 0 fun _ => true,
    .enter 0 { Env.good with rtpmGet := fun _ => false }] rfl,
    ⟨rfl, rfl⟩, fun h => ?_⟩
  exact absurd (h 0) (by decide)

end Sm8850.Htc
