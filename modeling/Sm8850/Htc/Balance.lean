/-
  Credits and votes of an endpoint balance.

  * `Balanced`: what the endpoint holds at an idle point.
  * `KeepsVotes`: the condition on the steps.
  * `CreditsEven`, `VotesEven`: the invariants, with what a drain that is under way owes.
  * `credits_balanced`: the credits balance in every run.
  * `resources_balanced`: in runs that meet the condition the votes balance too.
-/
import Sm8850.Htc.Steps

namespace Sm8850.Htc

variable {ep : Endpoint} {env : Env} {s s' : State} {a : Action} {q : List Packet} {c₀ : ℕ}
  {v₀ : Votes}

/-! ## The results -/

/-- How many of the packets release a vote when they are completed. -/
def releasing (l : List Packet) : ℕ := l.countP (·.tag.Releases)

/-- The credits are those of the beginning and those reported, less those of the packets sent; a
    vote is held for each packet that will release one. -/
structure Balanced (c₀ : ℕ) (v₀ : Votes) (s : State) : Prop where
  credits : s.txCredits + used s.hist.accepted = c₀ + s.hist.reported
  votes : s.votes .wmi = v₀ .wmi + releasing s.txLookupQueue
  others : s.votes .htt = v₀ .htt

/-- The condition: a packet with a vote has its header, and its completion releases the vote; no
    packet goes back to the TxQueue that has no vote. -/
def KeepsVotes (ep : Endpoint) (s : State) : Action → Prop
  | .take header _ => ∀ d ∈ s.drain, d.doPmGet = true → ep.txCreditFlowEnabled = true →
      header = true
  | .sent true => ∀ d ∈ s.drain, d.doPmGet = true → ∀ p, d.phase = .posted p → p.tag.Releases
  | .putBack => ∀ d ∈ s.drain, d.doPmGet = true ∨ d.sendQueue = [] ∨ s.votes .wmi = 0
  | _ => True

/-! ## Credits -/

namespace State

/-- The credits of the packets that the draining thread has yet to send or to give back. -/
def owed (s : State) : ℕ :=
  match s.drain with
  | none => 0
  | some { phase := .reclaim todo, .. } => used todo
  | some _ => used s.inflight

end State

def CreditsEven (c₀ : ℕ) (s : State) : Prop :=
  s.txCredits + used s.hist.accepted + s.owed = c₀ + s.hist.reported

theorem Turn.creditsEven {reported : Bool} (h : Turn ep env reported s s')
    (heven : s.txCredits + used s.hist.accepted = c₀ + s.hist.reported) : CreditsEven c₀ s' := by
  cases h with
  | stop => exact heven
  | empty hfrom hnil =>
    have hcredits := hfrom.credits
    rw [hnil, used_nil, Nat.add_zero] at hcredits
    rw [← hcredits] at heven
    exact heven
  | got hfrom =>
    have hcredits := hfrom.credits
    dsimp only [CreditsEven, State.owed, State.inflight]
    omega

/-- **A step** keeps the credits even. -/
theorem CreditsEven.moves (h : CreditsEven c₀ s) (hthreads : Threads s)
    (hmoves : Moves ep s a s') : CreditsEven c₀ s' := by
  unfold CreditsEven at h
  cases hmoves with
  | handOver | trySend | setNodropPkt => exact h
  | @enter n env q hcaller =>
    obtain ⟨txQueue, isNodropPkt, new, henq, -⟩ :=
      enqueue_spec q { s with callers := s.callers.eraseIdx n }
    unfold Htc.enter
    rw [henq]
    dsimp only
    split
    · exact h
    · have hdrain : s.drain = none := hthreads.count.1 (by omega)
      rw [State.owed, hdrain] at h
      exact drainLoop_turn.creditsEven h
  | noHeader hd | notMapped hd | posted hd | accepted hd | refused hd | noPadCredit hd
  | giveBack hd =>
    simp only [State.owed, State.inflight, hd, used_cons] at h
    simp only [CreditsEven, State.owed, State.inflight, used_cons, used_append, used_nil]
    omega
  | more hd =>
    simp only [State.owed, State.inflight, hd, used_nil] at h
    exact drainLoop_turn.creditsEven h
  | putBack hd =>
    simp only [State.owed, hd, used_nil] at h
    exact h
  | completed =>
    unfold htcTxCompletionHandler
    dsimp only
    split
    · exact h
    · exact h
  | creditRpt =>
    unfold htcProcessCreditRpt CreditsEven
    dsimp only [State.owed, State.inflight]
    cases hd : s.drain with
    | none =>
      simp only [State.owed, hd] at h
      dsimp only [Option.map_none]
      omega
    | some d =>
      rcases d with ⟨q, phase, v, r⟩
      cases phase with
      | issue | posted | reclaim =>
        simp only [State.owed, State.inflight, hd] at h
        simp only [Option.map_some]
        omega

/-- **The credits balance** in every run. -/
theorem credits_balanced {cond : State → Action → Prop}
    (run : Run ep cond (State.init c₀ v₀) s) : Threads s ∧ CreditsEven c₀ s := by
  refine run.invariant (I := fun s => Threads s ∧ CreditsEven c₀ s) ⟨threads_init, rfl⟩ ?_
  intro s s' a h _ hstep
  have hmoves := moves_of_step hstep
  exact ⟨h.1.moves hmoves, h.2.moves h.1 hmoves⟩

/-! ## Votes -/

section Releasing

variable {p : Packet} {l l' : List Packet}

theorem releasing_cons : releasing (p :: l) = releasing l + if p.tag.Releases then 1 else 0 := by
  simp only [releasing, List.countP_cons, decide_eq_true_eq]

theorem releasing_append : releasing (l ++ l') = releasing l + releasing l' :=
  List.countP_append

theorem releasing_perm (h : l.Perm l') : releasing l = releasing l' := h.countP_eq _

end Releasing

theorem Votes.foldl_put (v : Votes) (id : RtpmId) (l : List Packet) :
    l.foldl (fun v _ => v.put id) v = Function.update v id (v id - l.length) := by
  induction l generalizing v with
  | nil => exact (Function.update_eq_self id v).symm
  | cons p l ih =>
    rw [List.foldl_cons, ih, Votes.put, Function.update_self, Function.update_idem,
      List.length_cons, Nat.sub_sub, Nat.add_comm]

namespace State

/-- The votes of the packets that the draining thread has yet to send. -/
def held (s : State) : ℕ :=
  match s.drain with
  | none => 0
  | some d => if d.doPmGet then s.inflight.length else 0

/-- Whether the packet in `hif_send_head` is in the TxLookupQueue with a vote to release, which
    is counted with those of its drain. -/
def early (s : State) : ℕ :=
  match s.drain with
  | some { phase := .posted p, .. } => if p.tag.Releases then 1 else 0
  | _ => 0

end State

/-- The invariant of the votes. -/
structure VotesEven (v₀ : Votes) (s : State) : Prop where
  wmi : s.votes .wmi + s.early = v₀ .wmi + releasing s.txLookupQueue + s.held
  htt : s.votes .htt = v₀ .htt
  unvoted : ∀ d, s.drain = some d → d.doPmGet = false → ∀ p ∈ s.inflight, p.tag = .autoPm

theorem Turn.votesEven {reported : Bool} (hservice : ep.service ≠ .httDataMsg)
    (h : Turn ep env reported s s')
    (hwmi : s.votes .wmi = v₀ .wmi + releasing s.txLookupQueue) (hhtt : s.votes .htt = v₀ .htt) :
    VotesEven v₀ s' := by
  have hid : ep.rtpmId = .wmi := if_neg hservice
  cases h with
  | stop => exact ⟨hwmi, hhtt, by intros; contradiction⟩
  | @empty g hfrom hnil =>
    have hvotes : g.votes = s.votes := by
      rw [hfrom.votes_eq, hnil, List.length_nil, Votes.add_zero, ite_self]
    refine ⟨?_, ?_, by intros; contradiction⟩
    · dsimp only [State.finish]
      rw [hvotes]
      exact hwmi
    · dsimp only [State.finish]
      rw [hvotes]
      exact hhtt
  | @got g hfrom =>
    have hvotes := hfrom.votes_eq
    rw [hid] at hvotes
    refine ⟨?_, ?_, fun d hd hget => ?_⟩
    · dsimp only [State.early, State.held, State.inflight]
      rw [hvotes]
      split
      · rw [Votes.add_self, hwmi, Nat.add_zero]
      · exact hwmi
    · dsimp only
      rw [hvotes]
      split
      · rw [Votes.add_of_ne _ _ (by decide), hhtt]
      · exact hhtt
    · cases hd
      exact hfrom.autoPm hget

/-- The packet in `hif_send_head` is counted with its drain. -/
theorem VotesEven.early_le (h : VotesEven v₀ s) : s.early ≤ s.held := by
  unfold State.early State.held
  split
  · rename_i q p v r hd
    simp only [hd, State.inflight]
    cases v with
    | true =>
      rw [if_pos rfl, List.length_cons]
      split
      · exact Nat.le_add_left ..
      · exact Nat.zero_le _
    | false =>
      have hin : p ∈ s.inflight := by
        rw [State.inflight, hd]
        exact List.mem_cons_self ..
      have hauto := h.unvoted _ hd rfl p hin
      rw [hauto]
      exact Nat.le_refl 0
  · exact Nat.zero_le _

/-- The thread that drains the endpoint goes on. -/
theorem VotesEven.of_same {d d' : Drain} (h : VotesEven v₀ s) (hd : s.drain = some d)
    (hd' : s'.drain = some d') (hget : d'.doPmGet = d.doPmGet) (hsub : s'.inflight ⊆ s.inflight)
    (hhtt : s'.votes .htt = s.votes .htt)
    (hwmi : s'.votes .wmi + s'.early + (releasing s.txLookupQueue + s.held) =
      s.votes .wmi + s.early + (releasing s'.txLookupQueue + s'.held)) : VotesEven v₀ s' := by
  refine ⟨?_, hhtt.trans h.htt, fun e he hno p hp => ?_⟩
  · have heven := h.wmi
    omega
  · rw [hd'] at he
    cases he
    exact h.unvoted d hd (hget.symm.trans hno) p (hsub hp)

theorem VotesEven.completed {netbuf : ℕ} (h : VotesEven v₀ s) :
    VotesEven v₀ (htcTxCompletionHandler ep netbuf s) := by
  have hfound := found_htcLookupTxPacket netbuf s.txLookupQueue
  unfold htcTxCompletionHandler
  generalize htcLookupTxPacket netbuf s.txLookupQueue = result at hfound ⊢
  rcases result with ⟨found, rest⟩
  dsimp only at hfound ⊢
  cases hfound with
  | none => exact ⟨h.wmi, h.htt, h.unvoted⟩
  | @some x rest hid hperm =>
    have heven := h.wmi
    have hle := h.early_le
    rw [releasing_perm hperm, releasing_cons] at heven
    by_cases hrel : x.tag.Releases
    · rw [if_pos hrel] at heven
      refine ⟨?_, ?_, h.unvoted⟩
      · simp only [if_pos hrel, Votes.put, Function.update_self]
        change s.votes .wmi - 1 + s.early = v₀ .wmi + releasing rest + s.held
        omega
      · simp only [if_pos hrel, Votes.put]
        rw [Function.update_of_ne (by decide), h.htt]
    · rw [if_neg hrel, Nat.add_zero] at heven
      refine ⟨?_, ?_, h.unvoted⟩
      · simp only [if_neg hrel]
        exact heven
      · simp only [if_neg hrel]
        exact h.htt

/-- **A step** keeps the votes even. -/
theorem VotesEven.moves (h : VotesEven v₀ s) (hservice : ep.service ≠ .httDataMsg)
    (hthreads : Threads s) (hkeeps : KeepsVotes ep s a) (hmoves : Moves ep s a s') :
    VotesEven v₀ s' := by
  cases hmoves with
  | handOver | trySend | setNodropPkt => exact ⟨h.wmi, h.htt, h.unvoted⟩
  | @enter n env q hcaller =>
    obtain ⟨txQueue, isNodropPkt, new, henq, -⟩ :=
      enqueue_spec q { s with callers := s.callers.eraseIdx n }
    unfold Htc.enter
    rw [henq]
    dsimp only
    split
    · exact ⟨h.wmi, h.htt, h.unvoted⟩
    · have hdrain : s.drain = none := hthreads.count.1 (by omega)
      have hwmi := h.wmi
      rw [State.early, State.held, hdrain] at hwmi
      exact drainLoop_turn.votesEven hservice hwmi h.htt
  | @noHeader p q v r mapped hd hflow =>
    have hunvoted : v = false := by
      cases v with
      | true => cases hkeeps _ hd rfl hflow
      | false => rfl
    refine h.of_same hd rfl rfl ?_ rfl ?_
    · simp only [State.inflight, hd]
      exact List.subset_cons_self ..
    · simp only [State.early, State.held, hd, hunvoted]
      rfl
  | notMapped hd | noPadCredit hd | giveBack hd =>
    refine h.of_same hd rfl rfl ?_ rfl ?_
    · simp only [State.inflight, hd]
      exact List.Subset.refl _
    · simp only [State.early, State.held, State.inflight, hd]
  | @posted p q v r header mapped hd =>
    refine h.of_same hd rfl rfl ?_ rfl ?_
    · simp only [State.inflight, hd]
      exact List.Subset.refl _
    · simp only [State.early, State.held, State.inflight, hd, releasing_append, releasing_cons]
      rw [show releasing [] = 0 from rfl]
      omega
  | @accepted p q v r hd =>
    have hin : p ∈ s.inflight := by simp only [State.inflight, hd, List.mem_cons, true_or]
    have hput : p.tag ≠ .runtimePut := by
      intro htag
      cases v with
      | true => exact (hkeeps _ hd rfl p rfl).2.1 htag
      | false =>
        have hauto := h.unvoted _ hd rfl p hin
        rw [hauto] at htag
        cases htag
    refine h.of_same hd rfl rfl ?_ ?_ ?_
    · simp only [State.inflight, hd]
      exact List.subset_cons_self ..
    · simp only [if_neg hput]
    · cases v with
      | true =>
        have hrel := hkeeps _ hd rfl p rfl
        simp only [State.early, State.held, State.inflight, hd, if_neg hput, if_pos hrel,
          if_true, List.length_cons]
        omega
      | false =>
        have hauto := h.unvoted _ hd rfl p hin
        have hrel : ¬ p.tag.Releases := fun hrel => hrel.1 hauto
        simp only [State.early, State.held, hd, if_neg hput, if_neg hrel]
        rfl
  | @refused p q v r hd =>
    have hperm := releasing_perm (List.perm_cons_erase (hthreads.posted p q v r hd))
    rw [releasing_cons] at hperm
    refine h.of_same hd rfl rfl ?_ rfl ?_
    · simp only [State.inflight, hd]
      exact List.Subset.refl _
    · simp only [State.early, State.held, State.inflight, hd, hperm]
      omega
  | more hd =>
    have hwmi := h.wmi
    simp only [State.early, State.held, State.inflight, hd, List.length_nil, ite_self] at hwmi
    exact drainLoop_turn.votesEven hservice hwmi h.htt
  | @putBack q v r hd =>
    have hid : ep.rtpmId = .wmi := if_neg hservice
    have heven := h.wmi
    simp only [State.early, State.held, State.inflight, hd] at heven
    refine ⟨?_, ?_, by intros; contradiction⟩
    · simp only [State.finish, State.early, State.held, Votes.foldl_put, hid,
        Function.update_self]
      cases v with
      | true =>
        rw [if_pos rfl] at heven
        omega
      | false =>
        rw [if_neg (by decide)] at heven
        rcases hkeeps _ hd with hvoted | hnil | hzero
        · cases hvoted
        · dsimp only at hnil
          rw [hnil, List.length_nil]
          omega
        · rw [hzero] at heven ⊢
          omega
    · simp only [State.finish, Votes.foldl_put, hid]
      rw [Function.update_of_ne (by decide), h.htt]
  | completed => exact h.completed
  | creditRpt =>
    unfold htcProcessCreditRpt
    cases hd : s.drain with
    | none =>
      refine ⟨?_, h.htt, by intros; contradiction⟩
      have heven := h.wmi
      simp only [State.early, State.held, hd] at heven
      exact heven
    | some d =>
      rcases d with ⟨q, phase, v, r⟩
      refine h.of_same hd rfl rfl ?_ rfl ?_
      · cases phase with
        | issue | posted | reclaim =>
          simp only [State.inflight, hd, Option.map_some]
          exact List.Subset.refl _
      · cases phase with
        | issue | posted | reclaim =>
          simp only [State.early, State.held, State.inflight, hd, Option.map_some]

/-! ## Main result -/

/-- **Credits and votes balance** at each idle point of a run in which each packet that has a
    vote is sent with its header and releases it when it is completed, and none is put back
    without a vote. -/
theorem resources_balanced (hservice : ep.service ≠ .httDataMsg)
    (run : Run ep (KeepsVotes ep) (State.init c₀ v₀) s) (hidle : s.Idle) : Balanced c₀ v₀ s := by
  have hcredits := (credits_balanced run).2
  have hvotes : Threads s ∧ VotesEven v₀ s := by
    refine run.invariant (I := fun s => Threads s ∧ VotesEven v₀ s)
      ⟨threads_init, rfl, rfl, nofun⟩ ?_
    intro s s' a h hkeeps hstep
    have hmoves := moves_of_step hstep
    exact ⟨h.1.moves hmoves, h.2.moves hservice h.1 hkeeps hmoves⟩
  have hwmi := hvotes.2.wmi
  rw [CreditsEven, State.owed, hidle.2] at hcredits
  rw [State.early, State.held, hidle.2] at hwmi
  exact ⟨hcredits, hwmi, hvotes.2.htt⟩

theorem resources_balanced_sent :
    ∃ s, Run wmiEndpoint (KeepsVotes wmiEndpoint) (State.init 1 fun _ => 0) s ∧
      s.txLookupQueue.map Packet.id = [0] ∧ Balanced 1 (fun _ => 0) s := by
  have entered : Run wmiEndpoint (KeepsVotes wmiEndpoint) (State.init 1 fun _ => 0) _ :=
    (Run.refl.tail (a := .handOver [newPacket 0 .userDefined] 0 0 fun _ => true)
      trivial rfl).tail (a := .enter 0 .good) trivial rfl
  have posted := entered.tail (a := .take true true) (fun _ _ _ _ => rfl) rfl
  have idle := (posted.tail (a := .sent true)
    (fun d hd _ p hp => by
      cases hd
      cases hp
      decide) rfl).tail (a := .more .good) trivial rfl
  exact ⟨_, idle, rfl, resources_balanced (by decide) idle ⟨rfl, rfl⟩⟩

/-- A power management packet that is not sent takes away the vote of a packet that is. -/
theorem vote_released_twice :
    ∃ s, Run wmiEndpoint (fun _ _ => True) (State.init 2 fun _ => 0) s ∧ s.Idle ∧
      ¬ Balanced 2 (fun _ => 0) s := by
  refine ⟨_, run_of_exec [
    .handOver [newPacket 0 .userDefined] 0 0 fun _ => true, .enter 0 .good, .take true true,
    .sent true, .more .good,
    .handOver [newPacket 1 .autoPm] 0 0 fun _ => true, .enter 0 .good, .take true true,
    .sent false, .giveBack, .putBack] rfl, ⟨rfl, rfl⟩, fun h => ?_⟩
  exact absurd h.votes (by decide)

/-- The vote of a packet without a header is not released. -/
theorem vote_leaked :
    ∃ s, Run wmiEndpoint (fun _ _ => True) (State.init 2 fun _ => 0) s ∧ s.Idle ∧
      ¬ Balanced 2 (fun _ => 0) s := by
  refine ⟨_, run_of_exec [
    .handOver [newPacket 0 .userDefined] 0 0 fun _ => true, .enter 0 .good, .take false true,
    .putBack] rfl, ⟨rfl, rfl⟩, fun h => ?_⟩
  exact absurd h.votes (by decide)

end Sm8850.Htc
