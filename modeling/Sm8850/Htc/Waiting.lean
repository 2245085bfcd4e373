/-
  Whether packets wait for credits that are there.

  * `Served`: after a drain that left nothing behind the packets in the TxQueue need more credits.
  * `Heeds`: the condition on the steps.
  * `Attended`: the invariant, `Reclaimed`: what the packets that are put back have got.
  * `packets_served`: in runs that meet the condition all idle points are so, and the other
    failures put back packets whose credits are there.
-/
import Sm8850.Htc.Steps

namespace Sm8850.Htc

variable {ep : Endpoint} {env : Env} {s s' : State} {a : Action} {q : List Packet} {c₀ : ℕ}
  {v₀ : Votes}

/-! ## The results -/

/-- The TxQueue is empty or its head needs more credits, unless the last drain failed and no
    credits were reported for what it put back. -/
def Served (ep : Endpoint) (s : State) : Prop :=
  s.hist.ended ≠ .failed false → Blocked ep s.txCredits s.txQueue

/-- The condition: what a pass asks for first is granted, and no drain fails with packets to put
    back after credits were reported. -/
def Heeds (ep : Endpoint) (s : State) : Action → Prop
  | .enter i env => s.txProcessCount = 0 → ∀ q ∈ s.callers[i]?,
      Pass.Grants ep env s.txCredits (enqueue q s).txQueue
  | .more env => Pass.Grants ep env s.txCredits s.txQueue
  | .putBack => ∀ d ∈ s.drain, d.reported = true → d.sendQueue = []
  | _ => True

/-! ## Who attends to the TxQueue -/

/-- The invariant: the packets that are not waiting for credits have a thread that comes for
    them, or were put back by a drain that failed. -/
def Attended (ep : Endpoint) (s : State) : Prop :=
  s.drain = none →
    s.callers ≠ [] ∨ Blocked ep s.txCredits s.txQueue ∨ s.hist.ended = .failed false

theorem Attended.of_drain {d : Drain} (hd : s.drain = some d) : Attended ep s := by
  intro hnone
  rw [hd] at hnone
  cases hnone

theorem Turn.attended {reported : Bool} (hflow : ep.txCreditFlowEnabled = true)
    (h : Turn ep env reported s s') (hgrants : Pass.Grants ep env s.txCredits s.txQueue) :
    Attended ep s' := by
  cases h with
  | stop hstop =>
    intro _
    rcases hstop with hnil | hnoflow
    · refine .inr (.inl ?_)
      change Blocked ep s.txCredits s.txQueue
      rw [hnil]
      exact nofun
    · rw [hflow] at hnoflow
      cases hnoflow
  | empty hfrom hnil =>
    intro _
    exact .inr (.inl (hfrom.blocked hflow hgrants hnil))
  | got => exact .of_drain rfl

/-- **A step** that meets the condition keeps it so. -/
theorem Attended.moves (h : Attended ep s) (hflow : ep.txCreditFlowEnabled = true)
    (hthreads : Threads s) (hheeds : Heeds ep s a) (hmoves : Moves ep s a s') :
    Attended ep s' := by
  cases hmoves with
  | @handOver q depth depth' keep =>
    intro hnone
    refine (h hnone).imp_left fun hcallers => ?_
    unfold Htc.handOver
    dsimp only
    split
    · exact hcallers
    · exact List.append_ne_nil_of_left_ne_nil hcallers _
  | trySend => exact fun _ => .inl (List.append_ne_nil_of_right_ne_nil _ (List.cons_ne_nil _ _))
  | setNodropPkt => exact h
  | @enter n env q hcaller =>
    obtain ⟨txQueue, isNodropPkt, new, henq, -⟩ :=
      enqueue_spec q { s with callers := s.callers.eraseIdx n }
    have hsame : (enqueue q s).txQueue = txQueue := by
      rw [← txQueue_enqueue_callers q s (s.callers.eraseIdx n), henq]
    unfold Htc.enter
    rw [henq]
    dsimp only
    split
    · rename_i hbusy
      intro hnone
      have hzero := hthreads.count.2 hnone
      omega
    · have hgrants := hheeds (by omega) q hcaller
      rw [hsame] at hgrants
      exact drainLoop_turn.attended hflow hgrants
  | noHeader | notMapped | posted | accepted | refused | noPadCredit | giveBack =>
    exact .of_drain rfl
  | more => exact drainLoop_turn.attended hflow hheeds
  | @putBack q v r hd =>
    refine fun _ => .inr (.inr ?_)
    have hnot : (r && decide (q ≠ [])) = false := by
      cases r with
      | false => rfl
      | true =>
        have hnil : q = [] := hheeds _ hd rfl
        rw [hnil]
        rfl
    dsimp only [State.finish]
    rw [hnot]
  | @completed netbuf =>
    have hcallers : (htcTxCompletionHandler ep netbuf s).callers = s.callers ∧
        (htcTxCompletionHandler ep netbuf s).drain = s.drain ∧
        (htcTxCompletionHandler ep netbuf s).txCredits = s.txCredits ∧
        (htcTxCompletionHandler ep netbuf s).txQueue = s.txQueue ∧
        (htcTxCompletionHandler ep netbuf s).hist.ended = s.hist.ended := by
      have hnoflow : ¬ (ep.txCreditFlowEnabled = false ∧
          (s.txProcessCount = 0 ∨ ep.asyncUpdate = false)) := by
        rw [hflow]
        exact fun h => nomatch h.1
      unfold htcTxCompletionHandler
      rw [if_neg hnoflow]
      dsimp only
      split
      · exact ⟨rfl, rfl, rfl, rfl, rfl⟩
      · exact ⟨rfl, rfl, rfl, rfl, rfl⟩
    obtain ⟨hcallers, hdrain, hcredits, hqueue, hended⟩ := hcallers
    unfold Attended
    rw [hcallers, hdrain, hcredits, hqueue, hended]
    exact h
  | @creditRpt rptCredits =>
    unfold htcProcessCreditRpt
    dsimp only
    intro hnone
    have hdrain : s.drain = none := Option.map_eq_none_iff.1 hnone
    dsimp only
    by_cases hcall : s.txCredits + rptCredits ≠ 0 ∧ s.txQueue ≠ []
    · rw [if_pos hcall]
      exact .inl (List.append_ne_nil_of_right_ne_nil _ (List.cons_ne_nil _ _))
    · rw [if_neg hcall]
      by_cases hnil : s.txQueue = []
      · refine .inr (.inl ?_)
        rw [hnil]
        exact nofun
      · have hzero : s.txCredits + rptCredits = s.txCredits := by
          by_contra hne
          exact hcall ⟨by omega, hnil⟩
        rw [hzero]
        exact h hdrain

/-! ## What is put back has its credits -/

/-- The packets in flight have used the credits that they need, and those behind which the
    reclaiming is, have given them back. -/
structure Reclaimed (ep : Endpoint) (s : State) : Prop where
  required : ∀ p ∈ s.inflight, p.creditsUsed = creditsRequired ep p
  given : ∀ q todo v r, s.drain = some ⟨q, .reclaim todo, v, r⟩ →
    ∃ done, q = done ++ todo ∧ used done ≤ s.txCredits

/-- The thread that drains the endpoint goes on. -/
theorem Reclaimed.of_same {d : Drain} (h : Reclaimed ep s) (hd : s'.drain = some d)
    (hsub : s'.inflight ⊆ s.inflight)
    (hgiven : ∀ todo, d.phase = .reclaim todo →
      ∃ done, d.sendQueue = done ++ todo ∧ used done ≤ s'.txCredits) : Reclaimed ep s' := by
  refine ⟨fun p hp => h.required p (hsub hp), fun q todo v r hd' => ?_⟩
  rw [hd] at hd'
  cases hd'
  exact hgiven todo rfl

theorem Turn.reclaimed {reported : Bool} (hflow : ep.txCreditFlowEnabled = true)
    (h : Turn ep env reported s s') : Reclaimed ep s' := by
  cases h with
  | stop | empty => exact ⟨by intros; contradiction, by intros; contradiction⟩
  | got hfrom => exact ⟨hfrom.creditsUsed hflow, nofun⟩

/-- **A step** keeps the account of the reclaimed credits. -/
theorem Reclaimed.moves (h : Reclaimed ep s) (hflow : ep.txCreditFlowEnabled = true)
    (hmoves : Moves ep s a s') : Reclaimed ep s' := by
  cases hmoves with
  | handOver | trySend | setNodropPkt => exact ⟨h.required, h.given⟩
  | @enter n env q hcaller =>
    obtain ⟨txQueue, isNodropPkt, new, henq, -⟩ :=
      enqueue_spec q { s with callers := s.callers.eraseIdx n }
    unfold Htc.enter
    rw [henq]
    dsimp only
    split
    · exact ⟨h.required, h.given⟩
    · exact drainLoop_turn.reclaimed hflow
  | noHeader hd =>
    refine h.of_same rfl ?_ fun todo htodo => ?_
    · simp only [State.inflight, hd]
      exact List.subset_cons_self ..
    · cases htodo
      exact ⟨[], rfl, Nat.zero_le _⟩
  | notMapped hd | refused hd | noPadCredit hd =>
    refine h.of_same rfl ?_ fun todo htodo => ?_
    · simp only [State.inflight, hd]
      exact List.Subset.refl _
    · cases htodo
      exact ⟨[], rfl, Nat.zero_le _⟩
  | posted hd =>
    refine h.of_same rfl ?_ (by intros; contradiction)
    simp only [State.inflight, hd]
    exact List.Subset.refl _
  | accepted hd =>
    refine h.of_same rfl ?_ (by intros; contradiction)
    simp only [State.inflight, hd]
    exact List.subset_cons_self ..
  | @giveBack p q todo v r hd =>
    refine h.of_same rfl ?_ fun todo' htodo => ?_
    · simp only [State.inflight, hd]
      exact List.Subset.refl _
    · cases htodo
      obtain ⟨done, hq, hdone⟩ := h.given _ _ _ _ hd
      refine ⟨done ++ [p], ?_, ?_⟩
      · rw [List.append_assoc]
        exact hq
      · rw [used_append, used_cons, used_nil]
        exact Nat.add_le_add_right hdone _
  | more => exact drainLoop_turn.reclaimed hflow
  | putBack => exact ⟨by intros; contradiction, by intros; contradiction⟩
  | completed =>
    unfold htcTxCompletionHandler
    dsimp only
    split
    · exact ⟨h.required, h.given⟩
    · exact ⟨h.required, h.given⟩
  | creditRpt =>
    unfold htcProcessCreditRpt
    cases hd : s.drain with
    | none => exact ⟨by intros; contradiction, by intros; contradiction⟩
    | some d =>
      rcases d with ⟨q, phase, v, r⟩
      refine h.of_same rfl ?_ fun todo htodo => ?_
      · cases phase with
        | issue | posted | reclaim =>
          simp only [State.inflight, hd, Option.map_some]
          exact List.Subset.refl _
      · dsimp only at htodo
        rw [htodo] at hd
        obtain ⟨done, hq, hdone⟩ := h.given _ _ _ _ hd
        exact ⟨done, hq, Nat.le_add_right_of_le hdone⟩

theorem Reclaimed.not_blocked {v r : Bool} (h : Reclaimed ep s)
    (hd : s.drain = some ⟨q, .reclaim [], v, r⟩) (hne : q ≠ []) :
    ¬ Blocked ep s.txCredits (q ++ s.txQueue) := by
  obtain ⟨done, hq, hdone⟩ := h.given _ _ _ _ hd
  rw [List.append_nil] at hq
  subst hq
  cases q with
  | nil => exact absurd rfl hne
  | cons p q =>
    intro hblocked
    have hlt := hblocked p rfl
    have hp := h.required p (by simp only [State.inflight, hd, List.mem_cons, true_or])
    rw [used_cons] at hdone
    omega

/-! ## Main result -/

/-- **Packets do not wait for credits that are there** at the idle points of a run that meets the
    condition; and a drain that fails with packets to put back, after credits were reported,
    leaves them behind although their credits are there. -/
theorem packets_served (hflow : ep.txCreditFlowEnabled = true) :
    (∀ s, Run ep (Heeds ep) (State.init c₀ v₀) s → s.Idle → Served ep s) ∧
      ∀ s s', Run ep (fun _ _ => True) (State.init c₀ v₀) s → step ep s .putBack = some s' →
        ¬ Heeds ep s .putBack → ¬ Served ep s' := by
  constructor
  · intro s run hidle hended
    have h : Threads s ∧ Attended ep s := by
      refine run.invariant (I := fun s => Threads s ∧ Attended ep s)
        ⟨threads_init, fun _ => .inr (.inl nofun)⟩ ?_
      intro s s' a h hheeds hstep
      have hmoves := moves_of_step hstep
      exact ⟨h.1.moves hmoves, h.2.moves hflow h.1 hheeds hmoves⟩
    rcases h.2 hidle.2 with hcallers | hblocked | hfailed
    · exact absurd hidle.1 hcallers
    · exact hblocked
    · exact absurd hfailed hended
  · intro s s' run hstep hnot hserved
    have h : Reclaimed ep s :=
      run.invariant (I := Reclaimed ep) ⟨nofun, nofun⟩ fun _ _ _ h _ hstep =>
        h.moves hflow (moves_of_step hstep)
    cases moves_of_step hstep with
    | @putBack q v r hd =>
      have hput : r = true ∧ q ≠ [] := by
        by_contra hor
        refine hnot fun d hd' hr => ?_
        rw [hd] at hd'
        cases hd'
        by_contra hne
        exact hor ⟨hr, hne⟩
      refine h.not_blocked hd hput.2 (hserved ?_)
      simp only [State.finish, hput.1, Bool.true_and, ne_eq, hput.2, not_false_eq_true,
        decide_true]
      exact nofun

theorem packets_served_blocked :
    ∃ s, Run wmiEndpoint (Heeds wmiEndpoint) (State.init 1 fun _ => 0) s ∧ s.Idle ∧
      s.txQueue.map Packet.id = [1] ∧ Served wmiEndpoint s := by
  have entered : Run wmiEndpoint (Heeds wmiEndpoint) (State.init 1 fun _ => 0) _ :=
    (Run.refl.tail
      (a := .handOver [newPacket 0 .userDefined, newPacket 1 .userDefined] 0 0 fun _ => true)
      trivial rfl).tail (a := .enter 0 .good)
      (fun _ q hq => by
        cases hq
        exact ⟨fun _ => rfl, fun _ _ => rfl, nofun⟩) rfl
  have sent := (entered.tail (a := .take true true) trivial rfl).tail (a := .sent true) trivial rfl
  have idle := sent.tail (a := .more .good) ⟨fun _ => rfl, fun _ _ => rfl, nofun⟩ rfl
  exact ⟨_, idle, ⟨rfl, rfl⟩, rfl, (packets_served rfl).1 _ idle ⟨rfl, rfl⟩⟩

/-- Credits that are reported while a send fails. -/
theorem reported_credits_ignored :
    ∃ s, Run wmiEndpoint (fun _ _ => True) (State.init 1 fun _ => 0) s ∧ s.Idle ∧
      ¬ Served wmiEndpoint s := by
  refine ⟨_, run_of_exec [
    .handOver [newPacket 0 .userDefined] 0 0 fun _ => true, .enter 0 .good, .take true true,
    .creditRpt 5, .sent false, .giveBack, .putBack] rfl, ⟨rfl, rfl⟩, fun h => ?_⟩
  exact absurd (h (by decide)) (by decide)

end Sm8850.Htc
