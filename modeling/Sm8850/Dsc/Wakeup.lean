/-
  Waiters of the Driver State Management calls.

  * `Blocked` says why a queued transition has to wait: something is active at
    its node, below it or above it, or an ancestor has a transition queued that
    is itself blocked.  `NoLostWakeup` asks it of every queued transition.
  * `noLostWakeup_step_iff`: a step keeps `NoLostWakeup` exactly when it
    `WakesAll`.  Only one kind of step does not: a `dsc_psoc_trans_stop` that
    ends the driver's transition triggers the subtree of its own psoc, where
    `dsc_driver_trans_stop` triggers every psoc.
  * **`wakeups`** collects the facts over runs, and `lost_wakeup` is a run of
    two psocs that ends with a waiter nobody will wake.
-/
import Sm8850.Dsc.Runs

namespace Sm8850.Dsc

variable {P V : Type}

section
variable {T : DscTree P V} {s s' s₁ : State P V} {n m a : Node P V}

/-- Why a transition queued at a node waits. -/
inductive Blocked (T : DscTree P V) (s : State P V) : Node P V → Prop
  | active (n k : Node P V) (hr : k = n ∨ T.Related n k) (ha : s.active k = true) : Blocked T s n
  | queued (n k : Node P V) (ha : T.Above k n) (hq : s.queued k = true) (hb : Blocked T s k) :
      Blocked T s n

/-- Every queued transition waits for something. -/
def NoLostWakeup (T : DscTree P V) (s : State P V) : Prop :=
  ∀ n, s.queued n = true → Blocked T s n

/-- Something is active at the node or at a related one, or queued above it. -/
def Covered (T : DscTree P V) (s : State P V) (n : Node P V) : Prop :=
  ¬ Idle T s n ∨ ∃ a, T.Above a n ∧ s.queued a = true

theorem not_idle_of_active (hr : m = n ∨ T.Related n m) (ha : s.active m = true) :
    ¬ Idle T s n := by
  rintro ⟨hn, h⟩
  rcases hr with rfl | hr
  · exact Bool.false_ne_true (hn.symm.trans ha)
  · exact Bool.false_ne_true ((h m hr).symm.trans ha)

theorem exists_active_of_not_idle (h : ¬ Idle T s n) :
    ∃ m, (m = n ∨ T.Related n m) ∧ s.active m = true := by
  by_contra hno
  refine h (idle_of_forall fun m hm => ?_)
  rw [Bool.eq_false_iff]
  exact fun ha => hno ⟨m, hm, ha⟩

/-- The depth of the tree is finite, so it is enough that every waiter is covered. -/
theorem noLostWakeup_iff :
    NoLostWakeup T s ↔ ∀ n, s.queued n = true → Covered T s n := by
  constructor
  · intro h n hn
    cases h n hn with
    | active _ k hr ha => exact .inl (not_idle_of_active hr ha)
    | queued _ k ha hq _ => exact .inr ⟨k, ha, hq⟩
  · intro h
    have base : ∀ {n}, ¬ Idle T s n → Blocked T s n := fun hi =>
      have ⟨k, hr, ha⟩ := exists_active_of_not_idle hi
      .active _ k hr ha
    have hdriver : s.queued .driver = true → Blocked T s .driver := by
      intro hq
      rcases h _ hq with hi | ⟨a, ha, -⟩
      · exact base hi
      · cases a <;> exact ha.elim
    have hpsoc : ∀ p, s.queued (.psoc p) = true → Blocked T s (.psoc p) := by
      intro p hq
      rcases h _ hq with hi | ⟨a, ha, hqa⟩
      · exact base hi
      · cases a with
        | driver => exact .queued _ _ ha hqa (hdriver hqa)
        | psoc q => exact ha.elim
        | vdev v => exact ha.elim
    intro n hq
    cases n with
    | driver => exact hdriver hq
    | psoc p => exact hpsoc p hq
    | vdev v =>
      rcases h _ hq with hi | ⟨a, ha, hqa⟩
      · exact base hi
      · cases a with
        | driver => exact .queued _ _ ha hqa (hdriver hqa)
        | psoc q => exact .queued _ _ ha hqa (hpsoc q hqa)
        | vdev v => exact ha.elim

/-- With nothing active anywhere, no waiter is left. -/
theorem NoLostWakeup.queue_eq_nil (h : NoLostWakeup T s) (hs : ∀ n, s.active n = false)
    (n : Node P V) : (s n).trans.queue = [] := by
  have hb : ∀ n, ¬ Blocked T s n := by
    intro n hn
    induction hn with
    | active _ k _ ha => exact Bool.false_ne_true ((hs k).symm.trans ha)
    | queued _ _ _ _ _ ih => exact ih
  by_contra hq
  exact hb n (h n (dscTransQueued_iff.2 hq))

/-- More activity and no queue emptied: what was covered stays so. -/
theorem Covered.mono (h : Covered T s n) (ha : ∀ m, s.active m = true → s'.active m = true)
    (hq : ∀ m, s.queued m = true → s'.queued m = true) : Covered T s' n := by
  rcases h with hi | ⟨a, haa, hqa⟩
  · obtain ⟨m, hr, hm⟩ := exists_active_of_not_idle hi
    exact .inl (not_idle_of_active hr (ha m hm))
  · exact .inr ⟨a, haa, hq a hqa⟩

/-- A waiter left in the queue by a firing was there before. -/
theorem Fired.queued_of_queued {A : Set (Node P V)} (h : Fired A s s')
    (hn : s'.queued n = true) : s.queued n = true := by
  by_cases hA : n ∈ A
  · exact h.queued n hA
  · rwa [State.queued, h.keeps n hA] at hn

section
variable {A : Set (Node P V)} (hf : Fired A s₁ s')
include hf

theorem Fired.covered_of_mem (hr : m = n ∨ T.Related n m) (hm : m ∈ A) : Covered T s' n :=
  .inl (not_idle_of_active hr (hf.active_iff.2 (.inl hm)))

/-- A waiter above either runs now or is still there. -/
theorem Fired.covered_of_above (ha : T.Above a n) (hq : s₁.queued a = true) :
    Covered T s' n := by
  by_cases hA : a ∈ A
  · exact hf.covered_of_mem (.inr (.inr ha)) hA
  · exact .inr ⟨a, ha, by rw [State.queued, hf.keeps a hA]; exact hq⟩

theorem Fired.covered_of_not_idle (h : ¬ Idle T s₁ n) : Covered T s' n := by
  obtain ⟨m, hr, hm⟩ := exists_active_of_not_idle h
  exact .inl (not_idle_of_active hr (hf.active_iff.2 (.inr hm)))

end

/-- A queued node of the subtree of `p` is covered by what the subtree fires. -/
theorem Fired.covered_of_subtree {p : P} {A : Set (Node P V)} (hf : Fired A s₁ s')
    (hA : subtreeFires T s₁ p ⊆ A) (hq : s₁.queued n = true)
    (hn : n = .psoc p ∨ ∃ v, T.psocOf v = p ∧ n = .vdev v) : Covered T s' n := by
  rcases hn with rfl | ⟨v, hv, rfl⟩
  · exact hf.covered_of_mem (.inl rfl) (hA ⟨hq, .inl rfl⟩)
  · cases hp : s₁.queued (.psoc p) with
    | true => exact hf.covered_of_above (a := .psoc p) hv hp
    | false => exact hf.covered_of_mem (.inl rfl) (hA ⟨hq, .inr ⟨hp, v, hv, rfl⟩⟩)

/-- What was queued at a node is what was woken there, then what still waits. -/
def Fifo (s : State P V) : Prop :=
  ∀ n, (s n).trans.everQueued = (s n).trans.everWoken ++ (s n).trans.queue

theorem Fifo.fired {A : Set (Node P V)} (h : Fifo s) (hf : Fired A s s') : Fifo s' := by
  intro m
  by_cases hm : m ∈ A
  · obtain ⟨tran, queue, hq⟩ := List.exists_cons_of_ne_nil (dscTransQueued_iff.1 (hf.queued m hm))
    rw [hf.fires m hm]
    simp [dscTransTrigger_snd_of_queue hq, h m, hq]
  · rw [hf.keeps m hm, h m]

end

section
variable [DecidableEq P] [DecidableEq V] {T : DscTree P V} {s s' s₁ : State P V} {n m a : Node P V}

/-- The stop triggers every waiter that it sets free: a `dsc_psoc_trans_stop`
    that ends the driver's transition does so when a driver transition is
    queued or nothing is queued outside its psoc. -/
def StopWakesAll (T : DscTree P V) (s : State P V) : Node P V → Prop
  | .psoc p => s.active (.psoc p) = true ∨ s.queued .driver = true ∨
      ∀ m, s.queued m = true → m = .psoc p ∨ ∃ v, T.psocOf v = p ∧ m = .vdev v
  | _ => True

/-- The step triggers every waiter that it sets free. -/
def Op.WakesAll (T : DscTree P V) (w : World P V) : Op P V → Prop
  | .transStop n => StopWakesAll T w.st n
  | _ => True

/-- What a stop leaves of the waiters blocked by the stopped transition. -/
theorem covered_after_stop (hex : Exclusive T s) (ha : s.active (stopped s n) = true)
    (hw : StopWakesAll T s n)
    (hm : m = stopped s n ∨ T.Related (stopped s n) m) (hq : s.queued m = true) :
    Covered T (transStop T s n) m := by
  have hf := fired_transStop (T := T) s n
  have hfree := fun k hk => hex.stopped_related (m := k) ha hk
  have hqs : ∀ k, (s.stop (stopped s n)).queued k = s.queued k := fun k => State.queued_stop ..
  generalize hs : s.stop (stopped s n) = s₁ at hf hfree hqs
  -- with a driver transition queued, it runs or waits for another one
  have hdriver : s₁.queued .driver = true →
      (Idle T s₁ .driver → Node.driver ∈ stopFires T s₁ n) → Covered T (transStop T s n) m := by
    intro hqd hmem
    by_cases hmd : m = .driver
    · by_cases hi : Idle T s₁ .driver
      · exact hf.covered_of_mem (.inl hmd.symm) (hmem hi)
      · exact hf.covered_of_not_idle (hmd ▸ hi)
    · exact hf.covered_of_above (by cases m <;> first | exact absurd rfl hmd | trivial) hqd
  have hqm : s₁.queued m = true := by rw [hqs, hq]
  cases hqd : s₁.queued .driver with
  | true =>
    refine hdriver hqd fun hi => ?_
    cases n <;> simp [stopFires, hqd, hi]
  | false =>
    have hmd : m ≠ .driver := fun h => Bool.false_ne_true (hqd.symm.trans (h ▸ hqm))
    cases n with
    | driver =>
      have hsub : ∀ p, subtreeFires T s₁ p ⊆ stopFires T s₁ .driver := by
        intro p k hk
        simp only [stopFires, Set.mem_ofPred_eq, hqd, Bool.false_eq_true, if_false]
        exact ⟨p, hk⟩
      cases m with
      | driver => exact absurd rfl hmd
      | psoc p => exact hf.covered_of_subtree (hsub p) hqm (.inl rfl)
      | vdev v => exact hf.covered_of_subtree (hsub (T.psocOf v)) hqm (.inr ⟨v, rfl, rfl⟩)
    | psoc p =>
      have hsub : subtreeFires T s₁ p ⊆ stopFires T s₁ (.psoc p) := by
        intro k hk
        simpa only [stopFires, Set.mem_ofPred_eq, hqd, Bool.false_eq_true, if_false] using hk
      refine hf.covered_of_subtree hsub hqm ?_
      by_cases hp : s.active (.psoc p) = true
      · rw [stopped, if_pos hp, related_psoc_iff] at hm
        exact hm.imp_right fun h => h.resolve_left hmd
      · rcases hw with h | h | h
        · exact absurd h hp
        · rw [← hqs, hqd] at h
          cases h
        · exact h m hq
    | vdev v =>
      rw [show stopped s (.vdev v) = .vdev v from rfl, related_vdev_iff] at hm
      cases hqp : s₁.queued (.psoc (T.psocOf v)) with
      | true =>
        rcases hm with rfl | rfl | rfl
        · exact hf.covered_of_above (a := .psoc (T.psocOf v)) rfl hqp
        · exact absurd rfl hmd
        · by_cases hi : Idle T s₁ (.psoc (T.psocOf v))
          · exact hf.covered_of_mem (.inl rfl) (by simp [stopFires, hqd, hqp, hi])
          · exact hf.covered_of_not_idle hi
      | false =>
        rcases hm with rfl | rfl | rfl
        · exact hf.covered_of_mem (.inl rfl) (by simp [stopFires, hqd, hqp, hqm])
        · exact absurd rfl hmd
        · rw [hqp] at hqm
          cases hqm

/-- A stop that wakes everything it frees loses no waiter. -/
theorem noLostWakeup_stop (hex : Exclusive T s) (h : NoLostWakeup T s)
    (ha : s.active (stopped s n) = true)
    (hw : StopWakesAll T s n) :
    NoLostWakeup T (transStop T s n) := by
  rw [noLostWakeup_iff] at h ⊢
  intro m hm
  have hf := fired_transStop (T := T) s n
  have hqm : s.queued m = true := by
    simpa using hf.queued_of_queued hm
  rcases h m hqm with hi | ⟨a, haa, hqa⟩
  · obtain ⟨k, hr, hk⟩ := exists_active_of_not_idle hi
    by_cases hks : k = stopped s n
    · subst hks
      exact covered_after_stop hex ha hw (hr.imp Eq.symm DscTree.Related.symm) hqm
    · refine .inl (not_idle_of_active hr (hf.active_iff.2 (.inr ?_)))
      rw [State.active_stop, if_neg hks, hk]
  · exact hf.covered_of_above haa (by simpa using hqa)

/-- A `dsc_psoc_trans_stop` that ends the driver's transition and does not wake
    everything leaves a waiter that nothing blocks. -/
theorem lostWakeup_stop {p : P} (hex : Exclusive T s) (ha : s.active (stopped s (.psoc p)) = true)
    (hp : s.active (.psoc p) = false) (hd : s.queued .driver = false) (hq : s.queued m = true)
    (hm : ¬ (m = .psoc p ∨ ∃ v, T.psocOf v = p ∧ m = .vdev v)) :
    ¬ NoLostWakeup T (transStop T s (.psoc p)) := by
  have hf := fired_transStop (T := T) s (.psoc p)
  have hst : stopped s (.psoc p) = .driver := by simp [stopped, hp]
  rw [hst] at hf ha
  have hfree : ∀ k, (s.stop .driver).active k = false := by
    intro k
    refine hex.stopped_related ha ?_
    by_cases hk : k = .driver
    · exact .inl hk
    · exact .inr (related_driver_iff.2 hk)
  have hfires : stopFires T (s.stop .driver) (.psoc p) = subtreeFires T (s.stop .driver) p := by
    ext k
    simp [stopFires, hd]
  rw [hfires] at hf
  -- only the subtree of `p` runs
  have hidle : ∀ k, ¬ (k = .psoc p ∨ ∃ v, T.psocOf v = p ∧ k = .vdev v) →
      (transStop T s (.psoc p)).active k = false ∧
      (transStop T s (.psoc p)).queued k = s.queued k := by
    intro k hk
    have hkA : k ∉ subtreeFires T (s.stop .driver) p :=
      fun h => hk (h.2.imp_right fun h => h.2)
    refine ⟨?_, by rw [State.queued, hf.keeps k hkA]; exact State.queued_stop ..⟩
    rw [Bool.eq_false_iff]
    intro hact
    rcases hf.active_iff.1 hact with h | h
    · exact hkA h
    · exact Bool.false_ne_true ((hfree k).symm.trans h)
  have hdriver : ¬ ((.driver : Node P V) = .psoc p ∨
      ∃ v, T.psocOf v = p ∧ (.driver : Node P V) = .vdev v) := by
    simp
  rw [noLostWakeup_iff]
  intro hcov
  -- a waiting psoc other than `p` is not covered
  have hpsoc : ∀ q, q ≠ p → s.queued (.psoc q) = false := by
    intro q hqp
    rw [Bool.eq_false_iff]
    intro hqq
    have hn : ¬ ((.psoc q : Node P V) = .psoc p ∨
        ∃ v, T.psocOf v = p ∧ (.psoc q : Node P V) = .vdev v) := by
      simp [hqp]
    rcases hcov (.psoc q) (by rw [(hidle _ hn).2, hqq]) with hi | ⟨a, haa, hqa⟩
    · refine hi (idle_psoc_iff.2 ⟨(hidle _ hdriver).1, (hidle _ hn).1,
        dscPsocTransActiveDownTree_eq_false.2 fun v hv => (hidle _ ?_).1⟩)
      rintro (h | ⟨w, hw, h⟩)
      · cases h
      · cases h
        exact hqp (hv.symm.trans hw)
    · cases a with
      | driver =>
        rw [(hidle _ hdriver).2, hd] at hqa
        cases hqa
      | psoc _ => exact haa.elim
      | vdev _ => exact haa.elim
  cases m with
  | driver =>
    rw [hd] at hq
    cases hq
  | psoc q =>
    rw [hpsoc q fun h => hm (.inl (by rw [h]))] at hq
    cases hq
  | vdev v =>
    have hvp : T.psocOf v ≠ p := fun h => hm (.inr ⟨v, h, rfl⟩)
    have hn : ¬ ((.psoc (T.psocOf v) : Node P V) = .psoc p ∨
        ∃ w, T.psocOf w = p ∧ (.psoc (T.psocOf v) : Node P V) = .vdev w) := by
      simp [hvp]
    rcases hcov (.vdev v) (by rw [(hidle _ hm).2, hq]) with hi | ⟨a, haa, hqa⟩
    · exact hi (idle_vdev_iff.2 ⟨(hidle _ hdriver).1, (hidle _ hn).1, (hidle _ hm).1⟩)
    · cases a with
      | driver =>
        rw [(hidle _ hdriver).2, hd] at hqa
        cases hqa
      | psoc q =>
        have hqv : T.psocOf v = q := haa
        subst hqv
        rw [(hidle _ hn).2, hpsoc _ hvp] at hqa
        cases hqa
      | vdev _ => exact haa.elim

/-- A step that stops nothing loses no waiter. -/
theorem NoLostWakeup.quiet (h : NoLostWakeup T s) (hst : Quiet T s s') : NoLostWakeup T s' := by
  cases hst with
  | same hs =>
    rw [noLostWakeup_iff] at h ⊢
    intro m hm
    rw [State.queued, hs m] at hm
    exact (h m hm).mono (fun k hk => by rwa [State.active, hs k])
      fun k hk => by rwa [State.queued, hs k]
  | start n desc hi =>
    rw [noLostWakeup_iff] at h ⊢
    have hqe : ∀ k, (s.setTrans n (dscTransStart (s n).trans desc)).queued k = s.queued k := by
      intro k
      rw [State.queued_setTrans]
      split_ifs with hk
      · rw [hk]; rfl
      · rfl
    intro m hm
    rw [hqe] at hm
    refine (h m hm).mono (fun k hk => ?_) fun k hk => by rwa [hqe]
    rw [State.active_setTrans]
    split_ifs
    · rfl
    · exact hk
  | queue n tran hcause =>
    have hact : ∀ k, (s.setTrans n (dscTransQueue (s n).trans tran)).active k = s.active k := by
      intro k
      rw [State.active_setTrans]
      split_ifs with hk
      · rw [hk]; rfl
      · rfl
    have hque : ∀ k, s.queued k = true →
        (s.setTrans n (dscTransQueue (s n).trans tran)).queued k = true := by
      intro k hk
      rw [State.queued_setTrans]
      split_ifs
      · exact dscTransQueued_queue _ _
      · exact hk
    rw [noLostWakeup_iff] at h ⊢
    intro m hm
    have hcov : Covered T s m := by
      rw [State.queued_setTrans] at hm
      split_ifs at hm with hmn
      · subst hmn
        rcases hcause with hi | hq | hup
        · exact .inl hi
        · exact h m hq
        · exact .inr hup
      · exact h m hm
    exact hcov.mono (fun k hk => by rwa [hact]) hque

/-- **A step keeps every waiter covered exactly when it wakes all it frees.** -/
theorem noLostWakeup_step_iff {w : World P V} {op : Op P V} (hex : Exclusive T w.st)
    (h : NoLostWakeup T w.st) (hop : op.Allowed w) :
    NoLostWakeup T (op.exec T w).st ↔ op.WakesAll T w := by
  by_cases hstop : ∃ n, op = .transStop n
  · obtain ⟨n, rfl⟩ := hstop
    refine ⟨fun hs => ?_, noLostWakeup_stop hex h hop⟩
    cases n with
    | driver => trivial
    | psoc p =>
      by_contra hno
      simp only [Op.WakesAll, StopWakesAll, not_or, not_forall, Bool.not_eq_true] at hno
      obtain ⟨hp, hd, m, hq, hm⟩ := hno
      exact lostWakeup_stop hex hop hp hd hq (not_or.2 hm) hs
    | vdev v => trivial
  · have hne := not_exists.1 hstop
    refine iff_of_true (h.quiet (quiet_of_ne_stop T w hne)) ?_
    cases op with
    | transStop n => exact absurd rfl (hne n)
    | _ => trivial

/-! ## Queues are first in, first out -/

theorem Fifo.setTrans (h : Fifo s) {trans : DscTrans}
    (ht : trans.everQueued = trans.everWoken ++ trans.queue) : Fifo (s.setTrans n trans) := by
  intro m
  by_cases hm : m = n
  · subst hm; simpa using ht
  · rw [State.setTrans_of_ne _ _ hm, h m]

theorem Fifo.quiet (h : Fifo s) (hq : Quiet T s s') : Fifo s' := by
  cases hq with
  | same hs =>
    intro m
    rw [hs m, h m]
  | start n desc _ => exact h.setTrans (h n)
  | queue n tran _ => exact h.setTrans (by simp [dscTransQueue, h n])

theorem Fifo.step {w : World P V} (h : Fifo w.st) (op : Op P V) : Fifo (op.exec T w).st := by
  by_cases hstop : ∃ n, op = .transStop n
  · obtain ⟨n, rfl⟩ := hstop
    have hst : Fifo (w.st.stop (stopped w.st n)) := h.setTrans (h _)
    exact hst.fired (fired_transStop w.st n)
  · exact h.quiet (quiet_of_ne_stop T w (not_exists.1 hstop))

theorem Reachable.fifo {w : World P V} (h : Reachable T w) : Fifo w.st := by
  induction h with
  | refl => exact fun _ => rfl
  | tail _ hst ih =>
    obtain ⟨op, -, rfl⟩ := hst
    exact ih.step op

/-! ## Runs -/

/-- The worlds reached by runs whose stops wake all they set free. -/
def ReachableWaking (T : DscTree P V) (w : World P V) : Prop :=
  Relation.ReflTransGen
    (fun w w' : World P V => ∃ op : Op P V, op.Allowed w ∧ op.WakesAll T w ∧ w' = op.exec T w)
    (World.init P V) w

theorem ReachableWaking.reachable {w : World P V} (h : ReachableWaking T w) : Reachable T w :=
  h.lift id fun _ _ ⟨op, hop, _, he⟩ => ⟨op, hop, he⟩

theorem ReachableWaking.noLostWakeup {w : World P V} (h : ReachableWaking T w) :
    NoLostWakeup T w.st := by
  induction h with
  | refl => exact fun _ hn => by cases hn
  | tail hrun hst ih =>
    obtain ⟨op, hop, hw, rfl⟩ := hst
    exact (noLostWakeup_step_iff (ReachableWaking.reachable hrun).state_exclusive ih hop).2 hw

/-- **No wake-up is lost while stops wake all they set free.**  In every run whose
    steps do so, every queued transition waits for something, and with nothing
    active every queue is empty; the first step that does not loses a waiter.
    In every run, the waiters of a node are woken in the order they were queued. -/
theorem wakeups (T : DscTree P V) :
    (∀ w, ReachableWaking T w → NoLostWakeup T w.st ∧
      ((∀ n, w.st.active n = false) → ∀ n, (w.st n).trans.queue = [])) ∧
    (∀ w (op : Op P V), ReachableWaking T w → op.Allowed w →
      (NoLostWakeup T (op.exec T w).st ↔ op.WakesAll T w)) ∧
    ∀ w, Reachable T w → ∀ n,
      (w.st n).trans.everQueued = (w.st n).trans.everWoken ++ (w.st n).trans.queue := by
  refine ⟨fun w hw => ⟨hw.noLostWakeup, hw.noLostWakeup.queue_eq_nil⟩, fun w op hw hop => ?_,
    fun w hw => hw.fifo⟩
  exact noLostWakeup_step_iff hw.reachable.state_exclusive hw.noLostWakeup hop

end

/-! ## A run that loses a wake-up -/

/-- The second psoc is active with a waiter behind it, and the driver waits for
    both; the second psoc's stop starts the driver's transition, whose holder
    ends it through the first psoc. -/
def strandingOps : List (Op Bool Empty) :=
  [.transStart calmPlatform (.psoc true) "ssr",
   .transStartWait calmPlatform (.psoc true) ⟨"idle_shutdown", 1⟩,
   .transStartWait calmPlatform .driver ⟨"unload", 2⟩,
   .transStop (.psoc true),
   .transStop (.psoc false)]

/-- The run is one the callers may make. -/
theorem strandingOps_allowed : AllAllowed twoPsocs (World.init Bool Empty) strandingOps :=
  ⟨trivial, trivial, trivial, rfl, rfl, trivial⟩

/-- The end of the run: nothing is active and the second psoc still has a waiter. -/
theorem lost_wakeup :
    ¬ ∀ (P V : Type) (_ : DecidableEq P) (_ : DecidableEq V) (T : DscTree P V) (w : World P V),
      Reachable T w → NoLostWakeup T w.st ∧
        ((∀ n, w.st.active n = false) → ∀ n, (w.st n).trans.queue = []) := by
  intro h
  have hw := (h Bool Empty _ _ twoPsocs _
    (Reachable.execAll .refl strandingOps_allowed)).2 (fun n => by
      cases n with
      | driver => rfl
      | psoc p => cases p <;> rfl
      | vdev v => exact v.elim) (.psoc true)
  exact absurd hw (by decide)

end Sm8850.Dsc
