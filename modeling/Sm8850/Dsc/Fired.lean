/-
  What one call can do to the tree.

  * `DscTree.Above` is the order of the tree, `DscTree.Related` its symmetric
    closure: an ancestor and a descendant.
  * `canTrans_success`: a granted check means that nothing is active at the
    node, above it or below it, and nothing is queued at it or above it.
  * `Fired A s s'`: `s'` is `s` with the next waiter of every node of `A`
    started.  `fired_transStop` gives the set each stop fires; every later
    fact about a stop is read off this set.
-/
import Sm8850.Dsc.Tree

namespace Sm8850.Dsc

section
variable {P V : Type} {T : DscTree P V} {s s' s₁ s₂ : State P V} {n m : Node P V}

/-! ## The order of the tree -/

/-- The first node is a proper ancestor of the second. -/
def DscTree.Above (T : DscTree P V) : Node P V → Node P V → Prop
  | .driver, .psoc _ => True
  | .driver, .vdev _ => True
  | .psoc p, .vdev v => T.psocOf v = p
  | _, _ => False

/-- One of the nodes is a proper ancestor of the other. -/
def DscTree.Related (T : DscTree P V) (n m : Node P V) : Prop := T.Above n m ∨ T.Above m n

theorem DscTree.Related.symm (h : T.Related n m) : T.Related m n := Or.symm h

theorem DscTree.not_above_driver : ¬ T.Above n .driver := by
  cases n <;> exact id

theorem DscTree.above_psoc_iff {p : P} : T.Above n (.psoc p) ↔ n = .driver := by
  cases n with
  | driver => exact ⟨fun _ => rfl, fun _ => trivial⟩
  | psoc q => exact ⟨False.elim, nofun⟩
  | vdev v => exact ⟨False.elim, nofun⟩

theorem DscTree.above_vdev_iff {v : V} :
    T.Above n (.vdev v) ↔ n = .driver ∨ n = .psoc (T.psocOf v) := by
  cases n with
  | driver => exact ⟨fun _ => .inl rfl, fun _ => trivial⟩
  | psoc q =>
    constructor
    · intro h
      exact .inr (congrArg Node.psoc (Eq.symm h))
    · rintro (h | h)
      · cases h
      · exact (Node.psoc.inj h).symm
  | vdev w => exact ⟨False.elim, nofun⟩

theorem DscTree.not_related_self (T : DscTree P V) (n : Node P V) : ¬ T.Related n n := by
  cases n <;> simp [DscTree.Related, DscTree.not_above_driver, DscTree.above_psoc_iff,
    DscTree.above_vdev_iff]

theorem related_psoc_iff {p : P} : T.Related (.psoc p) m ↔
    m = .driver ∨ ∃ v, T.psocOf v = p ∧ m = .vdev v := by
  cases m <;> simp [DscTree.Related, DscTree.not_above_driver, DscTree.above_psoc_iff,
    DscTree.above_vdev_iff, eq_comm]

theorem related_vdev_iff {v : V} : T.Related (.vdev v) m ↔
    m = .driver ∨ m = .psoc (T.psocOf v) := by
  cases m <;> simp [DscTree.Related, DscTree.not_above_driver, DscTree.above_psoc_iff,
    DscTree.above_vdev_iff]

theorem related_driver_iff : T.Related .driver m ↔ m ≠ .driver := by
  cases m <;> simp [DscTree.Related, DscTree.not_above_driver, DscTree.above_psoc_iff,
    DscTree.above_vdev_iff]

/-! ## One container -/

@[simp] theorem dscTransActive_start (trans : DscTrans) (desc : String) :
    dscTransActive (dscTransStart trans desc) = true := rfl

@[simp] theorem dscTransActive_stop (trans : DscTrans) :
    dscTransActive (dscTransStop trans) = false := rfl

@[simp] theorem dscTransActive_queue (trans : DscTrans) (tran : DscTran) :
    dscTransActive (dscTransQueue trans tran) = dscTransActive trans := rfl

@[simp] theorem dscTransQueued_start (trans : DscTrans) (desc : String) :
    dscTransQueued (dscTransStart trans desc) = dscTransQueued trans := rfl

@[simp] theorem dscTransQueued_stop (trans : DscTrans) :
    dscTransQueued (dscTransStop trans) = dscTransQueued trans := rfl

@[simp] theorem dscTransQueued_queue (trans : DscTrans) (tran : DscTran) :
    dscTransQueued (dscTransQueue trans tran) = true := by
  simp [dscTransQueued, dscTransQueue]

theorem dscTransQueued_iff {trans : DscTrans} : dscTransQueued trans = true ↔ trans.queue ≠ [] := by
  simp [dscTransQueued]

/-- A trigger answers whether something was queued. -/
theorem dscTransTrigger_fst (trans : DscTrans) :
    (dscTransTrigger trans).1 = dscTransQueued trans := by
  cases h : trans.queue <;> simp [dscTransTrigger, dscTransDequeue, dscTransQueued, h]

/-- A trigger with nothing queued does nothing. -/
theorem dscTransTrigger_snd_of_not_queued {trans : DscTrans} (h : dscTransQueued trans = false) :
    (dscTransTrigger trans).2 = trans := by
  have hq : trans.queue = [] := by simpa [dscTransQueued] using h
  simp [dscTransTrigger, dscTransDequeue, hq]

/-- A trigger with a waiter starts it. -/
theorem dscTransTrigger_snd_of_queue {trans : DscTrans} {tran : DscTran} {queue : List DscTran}
    (h : trans.queue = tran :: queue) :
    (dscTransTrigger trans).2 =
      { activeDesc := some tran.desc, queue := queue, holders := tran.desc :: trans.holders,
        everQueued := trans.everQueued, everWoken := trans.everWoken ++ [tran] } := by
  simp [dscTransTrigger, dscTransDequeue, h, dscTransStart]

/-! ## The checks -/

theorem active_iff : s.active n = true ↔ ∃ desc, (s n).trans.activeDesc = some desc := by
  simp [State.active, dscTransActive, Option.isSome_iff_exists]

theorem not_active_iff : s.active n = false ↔ (s n).trans.activeDesc = none := by
  simp [State.active, dscTransActive]

theorem activeOrQueued_eq_false :
    s.activeOrQueued n = false ↔ s.active n = false ∧ s.queued n = false := by
  simp [State.activeOrQueued, State.active, State.queued, dscTransActiveOrQueued]

theorem dscDriverTransActiveDownTree_eq_false :
    dscDriverTransActiveDownTree T s = false ↔
      (∀ p, s.active (.psoc p) = false) ∧ ∀ v, s.active (.vdev v) = false := by
  simp only [dscDriverTransActiveDownTree, List.any_eq_false, Bool.or_eq_true, not_or,
    Bool.not_eq_true, List.any_eq_true, not_exists, not_and]
  constructor
  · intro h
    refine ⟨fun p => (h p (T.mem_psocs p)).1, fun v => ?_⟩
    exact (h (T.psocOf v) (T.mem_psocs _)).2 v ((T.mem_vdevs v _).2 rfl)
  · rintro ⟨hp, hv⟩ p -
    exact ⟨hp p, fun v _ => hv v⟩

theorem dscPsocTransActiveDownTree_eq_false {p : P} :
    dscPsocTransActiveDownTree T s p = false ↔
      ∀ v, T.psocOf v = p → s.active (.vdev v) = false := by
  simp only [dscPsocTransActiveDownTree, List.any_eq_false, Bool.not_eq_true, T.mem_vdevs]

/-- Nothing is active at the node, above it or below it. -/
def Idle (T : DscTree P V) (s : State P V) (n : Node P V) : Prop :=
  s.active n = false ∧ ∀ m, T.Related n m → s.active m = false

theorem idle_of_forall (h : ∀ m, m = n ∨ T.Related n m → s.active m = false) : Idle T s n :=
  ⟨h n (.inl rfl), fun m hm => h m (.inr hm)⟩

theorem idle_driver_iff : Idle T s .driver ↔
    s.active .driver = false ∧ dscDriverTransActiveDownTree T s = false := by
  rw [dscDriverTransActiveDownTree_eq_false]
  refine and_congr_right fun _ => ⟨fun h =>
      ⟨fun p => h _ (.inl trivial), fun v => h _ (.inl trivial)⟩,
    ?_⟩
  rintro ⟨hp, hv⟩ m hm
  cases m with
  | driver => exact absurd hm (T.not_related_self _)
  | psoc p => exact hp p
  | vdev v => exact hv v

theorem idle_psoc_iff {p : P} : Idle T s (.psoc p) ↔
    s.active .driver = false ∧ s.active (.psoc p) = false ∧
      dscPsocTransActiveDownTree T s p = false := by
  rw [dscPsocTransActiveDownTree_eq_false]
  constructor
  · rintro ⟨hp, h⟩
    exact ⟨h _ (.inr trivial), hp, fun v hv => h _ (.inl hv)⟩
  · rintro ⟨hd, hp, hv⟩
    refine ⟨hp, fun m hm => ?_⟩
    cases m with
    | driver => exact hd
    | psoc q => simp [related_psoc_iff] at hm
    | vdev v => exact hv v (by simpa [related_psoc_iff] using hm)

theorem idle_vdev_iff {v : V} : Idle T s (.vdev v) ↔
    s.active .driver = false ∧ s.active (.psoc (T.psocOf v)) = false ∧
      s.active (.vdev v) = false := by
  constructor
  · rintro ⟨hv, h⟩
    exact ⟨h _ (.inr trivial), h (.psoc _) (.inr rfl), hv⟩
  · rintro ⟨hd, hp, hv⟩
    refine ⟨hv, fun m hm => ?_⟩
    cases m with
    | driver => exact hd
    | psoc q =>
      have hq : T.psocOf v = q := by simpa [related_vdev_iff, eq_comm] using hm
      exact hq ▸ hp
    | vdev w => simp [related_vdev_iff] at hm

theorem dscDriverCanTrigger_iff : dscDriverCanTrigger T s = true ↔ Idle T s .driver := by
  simp [dscDriverCanTrigger, idle_driver_iff]

theorem dscPsocCanTrigger_iff {p : P} (hq : s.queued .driver = false) :
    dscPsocCanTrigger T s p = true ↔ Idle T s (.psoc p) := by
  simp [dscPsocCanTrigger, idle_psoc_iff, State.activeOrQueued, dscTransActiveOrQueued,
    State.active, and_assoc, show dscTransQueued (s .driver).trans = false from hq]

/-- **A granted check**: nothing is active at the node or at a related one, and
    nothing is queued at the node or above it. -/
theorem canTrans_success {pl : Platform} (h : canTrans T pl s n = .success) :
    Idle T s n ∧ s.queued n = false ∧ ∀ a, T.Above a n → s.queued a = false := by
  cases n with
  | driver =>
    have hc : dscDriverCanTrans T s = true := by
      by_contra hc
      simp [canTrans, hc] at h
    simp only [dscDriverCanTrans, Bool.and_eq_true, Bool.not_eq_true',
      activeOrQueued_eq_false] at hc
    obtain ⟨⟨ha, hq⟩, hd⟩ := hc
    refine ⟨idle_driver_iff.2 ⟨ha, hd⟩, hq, fun a haa => ?_⟩
    cases a <;> exact haa.elim
  | psoc p =>
    simp only [canTrans, dscPsocCanTrans] at h
    split_ifs at h with hd hp
    simp only [Bool.not_eq_true, activeOrQueued_eq_false] at hd
    simp only [Bool.or_eq_true, not_or, Bool.not_eq_true, activeOrQueued_eq_false] at hp
    refine ⟨idle_psoc_iff.2 ⟨hd.1, hp.1.1, hp.2⟩, hp.1.2, fun a ha => ?_⟩
    cases a with
    | driver => exact hd.2
    | psoc q => exact ha.elim
    | vdev w => exact ha.elim
  | vdev v =>
    simp only [canTrans, dscVdevCanTrans] at h
    split_ifs at h with hd _ hp _ hv
    simp only [Bool.not_eq_true, activeOrQueued_eq_false] at hd hp hv
    refine ⟨idle_vdev_iff.2 ⟨hd.1, hp.1, hv.1⟩, hv.2, fun a ha => ?_⟩
    cases a with
    | driver => exact hd.2
    | psoc q => exact (show T.psocOf v = q from ha) ▸ hp.2
    | vdev w => exact ha.elim

/-- **A refusal that is waited for** finds an active transition at the node or at a
    related one, or a queued one at the node or above it. -/
theorem canTrans_refused {pl : Platform} (h : canTrans T pl s n ≠ .success)
    (hw : n = .driver ∨ canTrans T pl s n ≠ .eInval) :
    ¬ Idle T s n ∨ s.queued n = true ∨ ∃ a, T.Above a n ∧ s.queued a = true := by
  by_contra hno
  rw [not_or, not_or, not_not] at hno
  obtain ⟨hidle, hq, hup⟩ := hno
  rw [Bool.not_eq_true] at hq
  have hup' : ∀ a, T.Above a n → s.queued a = false := fun a ha =>
    Bool.not_eq_true _ ▸ fun hqa => hup ⟨a, ha, hqa⟩
  cases n with
  | driver =>
    rw [idle_driver_iff] at hidle
    simp [canTrans, dscDriverCanTrans, activeOrQueued_eq_false.2 ⟨hidle.1, hq⟩, hidle.2] at h
  | psoc p =>
    rw [idle_psoc_iff] at hidle
    have hd := activeOrQueued_eq_false.2 ⟨hidle.1, hup' .driver trivial⟩
    have hp := activeOrQueued_eq_false.2 ⟨hidle.2.1, hq⟩
    simp [canTrans, dscPsocCanTrans, hd, hp, hidle.2.2] at h
  | vdev v =>
    rw [idle_vdev_iff] at hidle
    have hd := activeOrQueued_eq_false.2 ⟨hidle.1, hup' .driver trivial⟩
    have hp := activeOrQueued_eq_false.2 ⟨hidle.2.1, hup' (.psoc _) rfl⟩
    have hv := activeOrQueued_eq_false.2 ⟨hidle.2.2, hq⟩
    by_cases hr : pl.recovering = true <;>
      simp_all [canTrans, dscVdevCanTrans]

/-! ## Firing -/

/-- `s'` is `s` with the next waiter of every node of `A` started. -/
structure Fired (A : Set (Node P V)) (s s' : State P V) : Prop where
  queued : ∀ n ∈ A, s.queued n = true
  fires : ∀ n ∈ A, s' n = { s n with trans := (dscTransTrigger (s n).trans).2 }
  keeps : ∀ n ∉ A, s' n = s n

theorem Fired.empty (s : State P V) : Fired ∅ s s := ⟨by simp, by simp, fun _ _ => rfl⟩

theorem Fired.congr {A B : Set (Node P V)} (h : Fired A s s') (hAB : ∀ n, n ∈ A ↔ n ∈ B) :
    Fired B s s' := (Set.ext hAB) ▸ h

theorem Fired.active_iff {A : Set (Node P V)} (h : Fired A s s') :
    s'.active n = true ↔ n ∈ A ∨ s.active n = true := by
  by_cases hn : n ∈ A
  · obtain ⟨tran, queue, hq⟩ := List.exists_cons_of_ne_nil (dscTransQueued_iff.1 (h.queued n hn))
    simp [State.active, h.fires n hn, dscTransTrigger_snd_of_queue hq, dscTransActive, hn]
  · simp [State.active, h.keeps n hn, hn]

/-- Firing two disjoint sets one after the other. -/
theorem Fired.comp {A B : Set (Node P V)} (hA : Fired A s s₁) (hB : Fired B s₁ s₂)
    (hAB : ∀ n ∈ A, n ∉ B) : Fired (A ∪ B) s s₂ := by
  refine ⟨?_, ?_, ?_⟩
  · rintro n (hn | hn)
    · exact hA.queued n hn
    · have h := hA.keeps n fun h => hAB n h hn
      simpa [State.queued, h] using hB.queued n hn
  · rintro n (hn | hn)
    · rw [hB.keeps n (hAB n hn), hA.fires n hn]
    · rw [hB.fires n hn, hA.keeps n fun h => hAB n h hn]
  · intro n hn
    rw [hB.keeps n fun h => hn (.inr h), hA.keeps n fun h => hn (.inl h)]

end

section
variable {P V : Type} [DecidableEq P] [DecidableEq V] {T : DscTree P V} {s s' s₁ s₂ : State P V}
  {n m : Node P V}

/-! ## Updates of one node -/

@[simp] theorem State.setTrans_same (s : State P V) (n : Node P V) (trans : DscTrans) :
    (s.setTrans n trans n).trans = trans := by simp [State.setTrans]

@[simp] theorem State.setTrans_ops (s : State P V) (n m : Node P V) (trans : DscTrans) :
    (s.setTrans n trans m).ops = (s m).ops := by
  by_cases h : m = n
  · subst h; simp [State.setTrans]
  · simp [State.setTrans, h]

theorem State.setTrans_of_ne (s : State P V) (trans : DscTrans) (h : m ≠ n) :
    s.setTrans n trans m = s m := by simp [State.setTrans, h]

@[simp] theorem State.setOps_trans (s : State P V) (n m : Node P V) (ops : DscOps) :
    (s.setOps n ops m).trans = (s m).trans := by
  by_cases h : m = n
  · subst h; simp [State.setOps]
  · simp [State.setOps, h]

@[simp] theorem State.setOps_same (s : State P V) (n : Node P V) (ops : DscOps) :
    (s.setOps n ops n).ops = ops := by simp [State.setOps]

theorem State.setOps_of_ne (s : State P V) (ops : DscOps) (h : m ≠ n) :
    s.setOps n ops m = s m := by simp [State.setOps, h]

theorem State.active_setTrans (s : State P V) (n m : Node P V) (trans : DscTrans) :
    (s.setTrans n trans).active m = if m = n then dscTransActive trans else s.active m := by
  by_cases h : m = n
  · subst h; simp [State.active]
  · simp [State.active, State.setTrans_of_ne s trans h, h]

theorem State.queued_setTrans (s : State P V) (n m : Node P V) (trans : DscTrans) :
    (s.setTrans n trans).queued m = if m = n then dscTransQueued trans else s.queued m := by
  by_cases h : m = n
  · subst h; simp [State.queued]
  · simp [State.queued, State.setTrans_of_ne s trans h, h]

@[simp] theorem State.active_setOps (s : State P V) (n m : Node P V) (ops : DscOps) :
    (s.setOps n ops).active m = s.active m := by simp [State.active]

@[simp] theorem State.queued_setOps (s : State P V) (n m : Node P V) (ops : DscOps) :
    (s.setOps n ops).queued m = s.queued m := by simp [State.queued]

theorem State.active_stop (s : State P V) (n m : Node P V) :
    (s.stop n).active m = if m = n then false else s.active m := by
  simp [State.stop, State.active_setTrans]

@[simp] theorem State.queued_stop (s : State P V) (n m : Node P V) :
    (s.stop n).queued m = s.queued m := by
  by_cases h : m = n
  · subst h; simp [State.stop, State.queued]
  · simp [State.stop, State.queued_setTrans, h]

/-! ## What a trigger fires -/

theorem trigger_fst (s : State P V) (n : Node P V) : (s.trigger n).1 = s.queued n :=
  dscTransTrigger_fst _

theorem fired_trigger (s : State P V) (n : Node P V) :
    Fired {m | m = n ∧ s.queued m = true} s (s.trigger n).2 := by
  refine ⟨fun m hm => hm.2, ?_, ?_⟩
  · rintro m ⟨rfl, -⟩
    simp [State.trigger, State.setTrans]
  · intro m hm
    by_cases h : m = n
    · subst h
      have hq : s.queued m = false := by simpa using hm
      simp [State.trigger, State.setTrans, dscTransTrigger_snd_of_not_queued hq]
    · exact State.setTrans_of_ne _ _ h

/-- A trigger of a node with nothing queued. -/
theorem trigger_of_not_queued (h : s.queued n = false) : s.trigger n = (false, s) := by
  refine Prod.ext (by rw [trigger_fst, h]) ?_
  funext m
  exact (fired_trigger s n).keeps m fun ⟨hm, hq⟩ => by rw [hm, h] at hq; cases hq

theorem fired_triggerVdevs (vdevs : List V) (hnd : vdevs.Nodup) (s : State P V) :
    Fired {m | ∃ v ∈ vdevs, m = .vdev v ∧ s.queued m = true} s (triggerVdevs s vdevs) := by
  induction vdevs generalizing s with
  | nil => exact (Fired.empty s).congr (by simp)
  | cons v vdevs ih =>
    obtain ⟨hv, hnd⟩ := List.nodup_cons.1 hnd
    have h1 := fired_trigger s (.vdev v)
    have h2 := ih hnd (s.trigger (.vdev v)).2
    have hq : ∀ w ∈ vdevs, (s.trigger (.vdev v)).2.queued (.vdev w) = s.queued (.vdev w) := by
      intro w hw
      have hne : w ≠ v := fun h => hv (h ▸ hw)
      have hk := h1.keeps (.vdev w) (by simp [hne])
      simp only [State.queued, hk]
    refine (h1.comp h2 ?_).congr fun m => ?_
    · rintro m ⟨rfl, -⟩ ⟨w, hw, hm, -⟩
      exact hv (Node.vdev.inj hm ▸ hw)
    · simp only [Set.mem_union, Set.mem_ofPred_eq, List.mem_cons, exists_eq_or_imp]
      refine or_congr_right (exists_congr fun w => and_congr_right fun hw => ?_)
      refine and_congr_right fun hm => ?_
      rw [hm, hq w hw]

/-- What a trigger of the subtree of `p` fires: the psoc, or else its vdevs. -/
def subtreeFires (T : DscTree P V) (s : State P V) (p : P) : Set (Node P V) :=
  {m | s.queued m = true ∧
    (m = .psoc p ∨ s.queued (.psoc p) = false ∧ ∃ v, T.psocOf v = p ∧ m = .vdev v)}

theorem fired_triggerPsoc (s : State P V) (p : P) :
    Fired (subtreeFires T s p) s (triggerPsoc T s p) := by
  cases hq : s.queued (.psoc p) with
  | true =>
    have h := fired_trigger s (.psoc p)
    have e : triggerPsoc T s p = (s.trigger (.psoc p)).2 := by
      have h1 : (s.trigger (.psoc p)).1 = true := by rw [trigger_fst, hq]
      rw [triggerPsoc]
      split
      · next heq => rw [heq]
      · next heq => rw [heq] at h1; cases h1
    rw [e]
    refine h.congr fun m => ?_
    simp [subtreeFires, hq, and_comm]
  | false =>
    have e : triggerPsoc T s p = triggerVdevs s (T.vdevs p) := by
      simp only [triggerPsoc, trigger_of_not_queued hq]
    rw [e]
    refine (fired_triggerVdevs _ (T.vdevs_nodup p) s).congr fun m => ?_
    simp only [subtreeFires, Set.mem_ofPred_eq, hq, true_and, T.mem_vdevs]
    constructor
    · rintro ⟨v, hv, rfl, hm⟩
      exact ⟨hm, .inr ⟨v, hv, rfl⟩⟩
    · rintro ⟨hm, rfl | ⟨v, hv, rfl⟩⟩
      · rw [hq] at hm
        cases hm
      · exact ⟨v, hv, rfl, hm⟩

theorem fired_foldl_triggerPsoc (psocs : List P) (hnd : psocs.Nodup) (s : State P V) :
    Fired {m | ∃ p ∈ psocs, m ∈ subtreeFires T s p} s (psocs.foldl (triggerPsoc T) s) := by
  induction psocs generalizing s with
  | nil => exact (Fired.empty s).congr (by simp)
  | cons p psocs ih =>
    obtain ⟨hp, hnd⟩ := List.nodup_cons.1 hnd
    have h1 := fired_triggerPsoc (T := T) s p
    have h2 := ih hnd (triggerPsoc T s p)
    -- the subtree of another psoc is not touched
    have hq : ∀ q ∈ psocs, subtreeFires T (triggerPsoc T s p) q = subtreeFires T s q := by
      intro q hqm
      have hne : q ≠ p := fun h => hp (h ▸ hqm)
      have hk : ∀ m, (m = .psoc q ∨ ∃ v, T.psocOf v = q ∧ m = .vdev v) →
          (triggerPsoc T s p).queued m = s.queued m := by
        intro m hm
        have := h1.keeps m (by rintro ⟨-, h | ⟨-, w, hw, h⟩⟩ <;>
          rcases hm with rfl | ⟨v, hv, rfl⟩ <;>
          simp_all)
        simp only [State.queued, this]
      ext m
      simp only [subtreeFires, Set.mem_ofPred_eq, hk _ (.inl rfl)]
      constructor
      · rintro ⟨hm, h | ⟨hn, v, hv, rfl⟩⟩
        · exact ⟨by rwa [hk m (.inl h)] at hm, .inl h⟩
        · exact ⟨by rwa [hk _ (.inr ⟨v, hv, rfl⟩)] at hm, .inr ⟨hn, v, hv, rfl⟩⟩
      · rintro ⟨hm, h | ⟨hn, v, hv, rfl⟩⟩
        · exact ⟨by rwa [hk m (.inl h)], .inl h⟩
        · exact ⟨by rwa [hk _ (.inr ⟨v, hv, rfl⟩)], .inr ⟨hn, v, hv, rfl⟩⟩
    refine (h1.comp h2 ?_).congr fun m => ?_
    · rintro m ⟨-, hm⟩ ⟨q, hqm, hm'⟩
      rw [hq q hqm] at hm'
      obtain ⟨-, hm'⟩ := hm'
      have hne : q ≠ p := fun h => hp (h ▸ hqm)
      rcases hm with rfl | ⟨-, v, hv, rfl⟩ <;> rcases hm' with h | ⟨-, w, hw, h⟩ <;> simp_all
    · simp only [Set.mem_union, Set.mem_ofPred_eq, List.mem_cons, exists_eq_or_imp]
      refine or_congr_right (exists_congr fun q => and_congr_right fun hqm => ?_)
      rw [hq q hqm]

/-- What a stop at `n` fires once the stopped transition is gone. -/
def stopFires (T : DscTree P V) (s : State P V) : Node P V → Set (Node P V)
  | .driver => {m | if s.queued .driver then m = .driver else ∃ p, m ∈ subtreeFires T s p}
  | .psoc p =>
    {m | if s.queued .driver then m = .driver ∧ Idle T s .driver else m ∈ subtreeFires T s p}
  | .vdev v =>
    {m | if s.queued .driver then m = .driver ∧ Idle T s .driver
      else if s.queued (.psoc (T.psocOf v)) then m = .psoc (T.psocOf v) ∧ Idle T s m
      else m = .vdev v ∧ s.queued m = true}

/-- The node whose transition a stop at `n` ends. -/
def stopped (s : State P V) : Node P V → Node P V
  | .psoc p => if s.active (.psoc p) then .psoc p else .driver
  | n => n

/-- `dsc_{driver,psoc,vdev}_trans_stop` -/
def transStop (T : DscTree P V) (s : State P V) : Node P V → State P V
  | .driver => dscDriverTransStop T s
  | .psoc p => dscPsocTransStop T s p
  | .vdev v => dscVdevTransStop T s v

/-- The checked trigger of the driver fires it when it can, and says whether the
    nodes below are left alone. -/
theorem driverTriggerChecked_spec (s : State P V) :
    (dscDriverTransTriggerChecked T s).1 = s.queued .driver ∧
    Fired {m | m = .driver ∧ s.queued .driver = true ∧ Idle T s .driver} s
      (dscDriverTransTriggerChecked T s).2 := by
  rw [dscDriverTransTriggerChecked]
  cases hq : s.queued .driver with
  | false => exact ⟨rfl, (Fired.empty s).congr (by simp)⟩
  | true =>
    by_cases hc : dscDriverCanTrigger T s = true
    · have hi := dscDriverCanTrigger_iff.1 hc
      simp only [hc, Bool.not_true, Bool.false_eq_true, if_false, trigger_fst, hq, true_and]
      refine (fired_trigger s .driver).congr fun m => ?_
      simp only [Set.mem_ofPred_eq, hi, and_true]
      exact and_iff_left_of_imp fun h => h ▸ hq
    · have hi : ¬ Idle T s .driver := fun h => hc (dscDriverCanTrigger_iff.2 h)
      rw [Bool.not_eq_true] at hc
      simp only [hc, Bool.not_true, Bool.not_false, Bool.false_eq_true, if_false, if_true, true_and]
      exact (Fired.empty s).congr (by simp [hi])

theorem psocTriggerChecked_spec {p : P} (hd : s.queued .driver = false) :
    (dscPsocTransTriggerChecked T s p).1 = s.queued (.psoc p) ∧
    Fired {m | m = .psoc p ∧ s.queued (.psoc p) = true ∧ Idle T s (.psoc p)} s
      (dscPsocTransTriggerChecked T s p).2 := by
  rw [dscPsocTransTriggerChecked]
  cases hq : s.queued (.psoc p) with
  | false => exact ⟨rfl, (Fired.empty s).congr (by simp)⟩
  | true =>
    by_cases hc : dscPsocCanTrigger T s p = true
    · have hi := (dscPsocCanTrigger_iff hd).1 hc
      simp only [hc, Bool.not_true, Bool.false_eq_true, if_false, trigger_fst, hq, true_and]
      refine (fired_trigger s (.psoc p)).congr fun m => ?_
      simp only [Set.mem_ofPred_eq, hi, and_true]
      exact and_iff_left_of_imp fun h => h ▸ hq
    · have hi : ¬ Idle T s (.psoc p) := fun h => hc ((dscPsocCanTrigger_iff hd).2 h)
      rw [Bool.not_eq_true] at hc
      simp only [hc, Bool.not_true, Bool.not_false, Bool.false_eq_true, if_false, if_true, true_and]
      exact (Fired.empty s).congr (by simp [hi])

theorem fired_dscDriverTriggerTrans (s : State P V) :
    Fired (stopFires T s .driver) s (dscDriverTriggerTrans T s) := by
  cases hq : s.queued .driver with
  | true =>
    have e : dscDriverTriggerTrans T s = (s.trigger .driver).2 := by
      have h1 : (s.trigger .driver).1 = true := by rw [trigger_fst, hq]
      rw [dscDriverTriggerTrans]
      split
      · next heq => rw [heq]
      · next heq => rw [heq] at h1; cases h1
    rw [e]
    refine (fired_trigger s .driver).congr fun m => ?_
    simp only [stopFires, Set.mem_ofPred_eq, hq, if_true]
    exact ⟨fun h => h.1, fun h => ⟨h, by rw [h, hq]⟩⟩
  | false =>
    have e : dscDriverTriggerTrans T s = T.psocs.foldl (triggerPsoc T) s := by
      simp only [dscDriverTriggerTrans, trigger_of_not_queued hq]
    rw [e]
    refine (fired_foldl_triggerPsoc _ T.psocs_nodup s).congr fun m => ?_
    simp [stopFires, hq, T.mem_psocs]

theorem fired_dscPsocTriggerTrans (s : State P V) (p : P) :
    Fired (stopFires T s (.psoc p)) s (dscPsocTriggerTrans T s p) := by
  obtain ⟨h1, h2⟩ := driverTriggerChecked_spec (T := T) s
  rw [dscPsocTriggerTrans]
  cases hq : s.queued .driver with
  | true =>
    rw [hq] at h1
    split
    · next heq =>
      rw [heq] at h2
      exact h2.congr (by simp [stopFires, hq])
    · next heq => rw [heq] at h1; cases h1
  | false =>
    have e : dscDriverTransTriggerChecked T s = (false, s) := by
      simp [dscDriverTransTriggerChecked, hq]
    rw [e]
    exact (fired_triggerPsoc s p).congr (by simp [stopFires, hq])

theorem fired_dscVdevTriggerTrans (s : State P V) (v : V) :
    Fired (stopFires T s (.vdev v)) s (dscVdevTriggerTrans T s v) := by
  obtain ⟨h1, h2⟩ := driverTriggerChecked_spec (T := T) s
  rw [dscVdevTriggerTrans]
  cases hq : s.queued .driver with
  | true =>
    rw [hq] at h1
    split
    · next heq =>
      rw [heq] at h2
      exact h2.congr (by simp [stopFires, hq])
    · next heq => rw [heq] at h1; cases h1
  | false =>
    have e : dscDriverTransTriggerChecked T s = (false, s) := by
      simp [dscDriverTransTriggerChecked, hq]
    simp only [e]
    obtain ⟨h3, h4⟩ := psocTriggerChecked_spec (T := T) (p := T.psocOf v) hq
    cases hp : s.queued (.psoc (T.psocOf v)) with
    | true =>
      rw [hp] at h3
      split
      · next heq =>
        rw [heq] at h4
        refine h4.congr fun m => ?_
        simp only [stopFires, Set.mem_ofPred_eq, hq, hp, if_true, Bool.false_eq_true, if_false,
          true_and]
        exact and_congr_right fun h => by rw [h]
      · next heq => rw [heq] at h3; cases h3
    | false =>
      have e : dscPsocTransTriggerChecked T s (T.psocOf v) = (false, s) := by
        simp [dscPsocTransTriggerChecked, hp]
      rw [e]
      exact (fired_trigger s (.vdev v)).congr (by simp [stopFires, hq, hp])

/-- **A stop** ends one transition and fires `stopFires`. -/
theorem fired_transStop (s : State P V) (n : Node P V) :
    Fired (stopFires T (s.stop (stopped s n)) n) (s.stop (stopped s n)) (transStop T s n) := by
  cases n with
  | driver => exact fired_dscDriverTriggerTrans _
  | psoc p => exact fired_dscPsocTriggerTrans _ p
  | vdev v => exact fired_dscVdevTriggerTrans _ v

end

end Sm8850.Dsc
