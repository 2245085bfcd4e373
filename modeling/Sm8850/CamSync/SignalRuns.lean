/-
  A signal stays with its fence.

  * `StaysHome`: a section of a signal of `k` changes only `k` and the groups
    merged from `k`, and no section takes a count below 0.
  * **`signal_stays_home`**: it does, in every run whose sections meet the fences
    they mean.
  * **`recycled_parent`**: a parent destroyed and created anew before the signal
    gets to it is signaled, though it is another fence.
-/
import Sm8850.CamSync.Inv

namespace Sm8850.CamSync

variable {w w' : World} {t i : ℕ} {k l : Link} {status : FenceState}

/-- The fence on whose behalf a section of `cam_sync_signal` runs. -/
def Op.signals (w : World) : Op → Option Link
  | .signal _ i _ => some (w.self i)
  | .signalResume t | .signalParent t => (w.thr t).owner
  | _ => none

/-- Only the fences in `S` change: their rows, the state they end in, and what is
    dispatched. -/
structure ChangesOnly (S : Link → Prop) (w w' : World) : Prop where
  rows : ∀ i, ¬ S (w.self i) → w'.rows i = w.rows i
  final : ∀ l, ¬ S l → w'.final l = w.final l
  log : ∃ new, w'.log = w.log ++ new ∧ ∀ d ∈ new, S d.fence

/-- No count is taken below 0. -/
def CountsFit (w w' : World) : Prop :=
  ∀ i, (w'.rows i).remaining ≤ (w.rows i).remaining + 1

/-- A signal of `k` changes `k` and the groups that contain it, and nothing is
    taken from a count that is 0. -/
def StaysHome (w : World) (op : Op) : Prop :=
  (∀ k, op.signals w = some k → ChangesOnly (fun l => l = k ∨ k ∈ w.kids l) w (op.exec w)) ∧
  CountsFit w (op.exec w)

/-! ## Every section stays home -/

theorem dispatches_fence {eventq : Bool} {row : Row} {d : Dispatch}
    (hd : d ∈ dispatches eventq row k status) : d.fence = k ∧ d.status = status := by
  rw [dispatches, List.mem_append, List.mem_map] at hd
  rcases hd with ⟨cb, -, rfl⟩ | hd
  · exact ⟨rfl, rfl⟩
  · split_ifs at hd
    · obtain ⟨p, -, rfl⟩ := List.mem_map.1 hd
      exact ⟨rfl, rfl⟩
    · simp at hd

theorem ChangesOnly.finish {S : Link → Prop} (w : World) (t : ℕ) (status : FenceState)
    (hk : S (w.self k.syncId)) : ChangesOnly S w (signalFinish w t k status) where
  rows i hi := signalFinish_row_ne w t k status fun he => hi (he ▸ hk)
  final _ _ := by simp
  log := by
    rw [signalFinish_log]
    split_ifs
    · exact ⟨[], by simp, by simp⟩
    · exact ⟨_, rfl, fun d hd => (dispatches_fence hd).1 ▸ hk⟩

theorem ChangesOnly.mark {S : Link → Prop} (w : World) (t i : ℕ) (status : FenceState)
    (hi : S (w.self i)) : ChangesOnly S w (marked w t i status) where
  rows j hj := by
    have hji : j ≠ i := fun he => hj (he ▸ hi)
    simp [marked, hji]
  final l hl := Function.update_of_ne (fun he => hl (by simpa [World.self, he] using hi)) ..
  log := ⟨[], by simp [marked], by simp⟩

theorem ChangesOnly.trans {S : Link → Prop} {w₁ w₂ w₃ : World} (h : ChangesOnly S w₁ w₂)
    (h' : ChangesOnly S w₂ w₃) (hs : ∀ i, w₂.self i = w₁.self i) : ChangesOnly S w₁ w₃ where
  rows i hi := (h'.rows i (hs i ▸ hi)).trans (h.rows i hi)
  final l hl := (h'.final l hl).trans (h.final l hl)
  log := by
    obtain ⟨new, he, hn⟩ := h.log
    obtain ⟨new', he', hn'⟩ := h'.log
    refine ⟨new ++ new', by rw [he', he, List.append_assoc], fun d hd => ?_⟩
    exact (List.mem_append.1 hd).elim (hn d) (hn' d)

theorem ChangesOnly.signal {S : Link → Prop} (w : World) (t i : ℕ) (status : FenceState)
    (hi : S (w.self i)) : ChangesOnly S w (camSyncSignal w t i status) := by
  have hm := ChangesOnly.mark w t i status hi
  have hself : ∀ j, (marked w t i status).self j = w.self j := fun j => by
    by_cases hji : j = i
    · subst hji; simp [World.self, marked]
    · simp [World.self, marked, hji]
  rcases camSyncSignal_cases w t i status with he | he | ⟨-, -, -, he | he⟩ <;> rw [he]
  · exact ⟨fun _ _ => rfl, fun _ _ => rfl, [], by simp, by simp⟩
  · refine ⟨fun j hj => ?_, fun _ _ => rfl, [], by simp, by simp⟩
    have hji : j ≠ i := fun he => hj (he ▸ hi)
    simp [hji]
  · exact hm
  · exact hm.trans (.finish _ t status (by simpa [hself] using hi)) hself

theorem ChangesOnly.parent {S : Link → Prop} (w : World) (hl : S (w.self l.syncId)) (task : Task) :
    ChangesOnly S w ((signalParent w k status l).setTask t task) where
  rows i hi := signalParent_row_ne w k status l fun he => hi (he ▸ hl)
  final m hm := by
    simp only [World.setTask_frame, signalParent_final]
    split_ifs
    · exact Function.update_of_ne (fun he : m = _ => hm (he ▸ hl)) ..
    · rfl
  log := by
    simp only [World.setTask_frame, signalParent_log]
    split_ifs
    · exact ⟨_, rfl, fun d hd => (dispatches_fence hd).1 ▸ hl⟩
    · exact ⟨[], by simp, by simp⟩

theorem CountsFit.refl (w : World) : CountsFit w w := fun _ => Nat.le_succ _

theorem CountsFit.update {j : ℕ} {row : Row} (he : w'.rows = Function.update w.rows j row)
    (hr : row.remaining ≤ (w.rows j).remaining + 1) : CountsFit w w' := by
  intro i
  rw [he, Function.update_apply]
  split_ifs with hij
  · exact hij ▸ hr
  · exact Nat.le_succ _

theorem CountsFit.finish (w : World) (t : ℕ) (k : Link) (status : FenceState) :
    CountsFit w (signalFinish w t k status) := by
  intro i
  by_cases hik : i = k.syncId
  · subst hik
    rw [signalFinish_row]
    simp
  · rw [signalFinish_row_ne _ _ _ _ hik]
    exact Nat.le_succ _

theorem CountsFit.signal (w : World) (t i : ℕ) (status : FenceState) :
    CountsFit w (camSyncSignal w t i status) := by
  have hm : ∀ j, ((marked w t i status).rows j).remaining = (w.rows j).remaining := fun j => by
    by_cases hji : j = i
    · subst hji; simp [marked]
    · simp [marked, hji]
  rcases camSyncSignal_cases w t i status with he | he | ⟨-, -, -, he | he⟩ <;> rw [he]
  · exact .refl w
  · exact .update rfl (Nat.le_succ _)
  · exact fun j => hm j ▸ Nat.le_succ _
  · intro j
    exact hm j ▸ CountsFit.finish (marked w t i status) t (w.self i) status j

theorem Inv.countsFit_mergeChild {objs todo : List ℕ} {c : ℕ} (h : Inv w)
    (ht : w.thr t = .mergeChildren i objs (c :: todo)) (ho : w.Open c) (alloc : Bool × Bool) :
    CountsFit w (mergeChild w t i objs todo c alloc) := by
  have hne : c ≠ i := fun he => by
    have := (h.merging t i objs _ ht).1
    simp [← he, ho.2.2] at this
  rw [CamSync.mergeChild]
  simp only []
  split_ifs
  · exact .update rfl (Nat.le_succ _)
  · exact .update rfl (Nat.le_succ _)
  · exact .refl w
  · exact .update rfl (Nat.le_refl _)
  · exact .update rfl (Nat.le_refl _)
  · intro j
    by_cases hjc : j = c
    · subst hjc; simp
    · by_cases hji : j = i
      · subst hji; simp [hjc]
      · simp [hjc, hji]

theorem CountsFit.mergeEnd (w : World) (t i : ℕ) : CountsFit w (mergeEnd w t i) := by
  have hs := mergeEnds w t i
  intro j
  by_cases hji : j = i
  · subst hji; simp [hs.row]
  · simp [hs.rows j hji]

/-- No section takes a count below 0. -/
theorem Inv.countsFit (h : Inv w) {op : Op} (ha : op.Allowed w) (hc : op.Current w) :
    CountsFit w (op.exec w) := by
  cases op with
  | create i synx => exact .update rfl (Nat.zero_le _)
  | mergeStart t objs => exact .refl w
  | mergeCheck t =>
    obtain ⟨objs, c, todo, ht, -⟩ := ha
    simp only [Op.exec, ht]
    split_ifs <;> exact .refl w
  | mergeInit t i =>
    obtain ⟨⟨objs, ht⟩, -⟩ := ha
    simp only [Op.exec, ht]
    exact .update rfl (Nat.zero_le _)
  | mergeChild t alloc =>
    obtain ⟨idx, objs, c, todo, ht, ho⟩ := ha
    simp only [Op.exec, ht]
    exact h.countsFit_mergeChild ht ho alloc
  | mergeEnd t =>
    obtain ⟨idx, objs, ht⟩ := ha
    simp only [Op.exec, ht]
    exact .mergeEnd w t idx
  | mergeUndo t =>
    obtain ⟨idx, c, todo, ht, -⟩ := ha
    simp only [Op.exec, ht]
    exact .update rfl (Nat.le_succ _)
  | mergeFail t =>
    obtain ⟨idx, ht⟩ := ha
    simp only [Op.exec, ht]
    exact .update rfl (Nat.le_succ _)
  | signal t i status => exact .signal w t i status
  | signalResume t =>
    obtain ⟨fence, status, ht, -⟩ := ha
    simp only [Op.exec, ht]
    exact .finish w t fence status
  | signalParent t =>
    obtain ⟨fence, status, l, parents, ht, ho⟩ := ha
    have hg : (w.rows l.syncId).gen = l.gen := by simpa [Op.Current, ht] using hc
    have hd := dec32_add_one (h.remaining_pos ht ho hg)
    simp only [Op.exec, ht]
    intro i
    by_cases hil : i = l.syncId
    · subst hil
      simp only [World.setTask_frame, signalParent_row, visited_frame]
      omega
    · simp [signalParent_row_ne _ _ _ _ hil]
  | destroy t i =>
    simp only [Op.exec]
    split_ifs
    · exact .refl w
    · exact .update rfl (Nat.le_succ _)
  | destroyChild t =>
    obtain ⟨i, c, children, parents, ht, -⟩ := ha
    simp only [Op.exec, ht]
    split_ifs
    · exact .refl w
    · exact .update rfl (Nat.le_succ _)
  | destroyParent t =>
    obtain ⟨i, p, parents, ht, -⟩ := ha
    simp only [Op.exec, ht]
    split_ifs
    · exact .refl w
    · exact .update rfl (Nat.le_succ _)
  | destroyEnd t =>
    obtain ⟨i, ht, -⟩ := ha
    simp only [Op.exec, ht]
    exact .update rfl (Nat.zero_le _)
  | getRef i =>
    simp only [Op.exec]
    split_ifs
    · exact .update rfl (Nat.le_succ _)
    · exact .refl w
  | putRef i => exact .update rfl (Nat.le_succ _)
  | registerCallback i func data =>
    simp only [Op.exec, camSyncRegisterCallback]
    split_ifs
    · exact .refl w
    · exact .refl w
    · exact .update rfl (Nat.le_succ _)
  | deregisterCallback i func data =>
    simp only [Op.exec, camSyncDeregisterCallback]
    split_ifs
    · exact .refl w
    · exact .update rfl (Nat.le_succ _)
  | registerPayload i words =>
    simp only [Op.exec, camSyncHandleRegisterUserPayload]
    split_ifs
    · exact .refl w
    · exact .refl w
    · exact .refl w
    · exact .update rfl (Nat.le_succ _)
  | deregisterPayload i words =>
    simp only [Op.exec, camSyncHandleDeregisterUserPayload]
    split_ifs
    · exact .refl w
    · exact .update rfl (Nat.le_succ _)

/-- **A signal stays with its fence**, in every run whose sections meet the
    fences they mean. -/
theorem signal_stays_home {eventq : Bool} (hw : ReachableUnder (fun w op => op.Current w) eventq w)
    {op : Op} (ha : op.Allowed w) (hc : op.Current w) : StaysHome w op := by
  have h := inv_reachable (fun _ _ => id) hw
  refine ⟨fun k hk => ?_, h.countsFit ha hc⟩
  cases op with
  | signal t i status =>
    obtain rfl : w.self i = k := Option.some.inj hk
    exact .signal w t i status (.inl rfl)
  | signalResume t =>
    obtain ⟨fence, status, ht, ho⟩ := ha
    obtain rfl : fence = k := by simpa [Op.signals, ht, Task.owner] using hk
    simp only [Op.exec, ht]
    by_cases hg : (w.rows fence.syncId).gen = fence.gen
    · exact .finish w t status (.inl (w.self_eq hg.symm))
    · -- the fence has been destroyed, and its row is empty
      have hst := (show _ ∨ _ by simpa [Op.Current, ht] using hc).resolve_left hg
      refine ⟨fun i _ => ?_, fun _ _ => by simp, [], by simp [signalFinish_log, hst], by simp⟩
      by_cases hi : i = fence.syncId
      · subst hi
        rw [signalFinish_row, dispatched, if_pos hst, ← h.noParents fence.syncId (.inl hst)]
      · exact signalFinish_row_ne w t fence status hi
  | signalParent t =>
    obtain ⟨fence, status, l, parents, ht, ho⟩ := ha
    obtain rfl : fence = k := by simpa [Op.signals, ht, Task.owner] using hk
    have hg : (w.rows l.syncId).gen = l.gen := by simpa [Op.Current, ht] using hc
    have hl : fence ∈ w.kids l := h.waitingKids l
      ((h.thrLink t _ _ _ ht l (List.mem_cons_self ..)).2 hg.symm)
    simp only [Op.exec, ht]
    exact .parent w (.inr (by rwa [w.self_eq hg.symm])) _
  | _ => cases hk

/-- Two fences are merged into the group 3. -/
def mergeOps : List Op :=
  [.create 1 false, .create 2 false, .getRef 1, .getRef 2, .mergeStart 0 [1, 2], .mergeCheck 0,
    .mergeCheck 0, .mergeInit 0 3, .mergeChild 0 (true, true), .mergeChild 0 (true, true),
    .mergeEnd 0]

/-- Fence 1 is signaled: the signal has left it and not yet reached the group. -/
def signalOps : List Op := mergeOps ++ [.signal 1 1 .signaledSuccess]

theorem signal_stays_home_visit :
    StaysHome (execAll (World.init true) signalOps) (.signalParent 1) := by
  have hops : AllAllowed (fun w op => op.Current w) (World.init true) signalOps := by
    simp only [signalOps, mergeOps, List.cons_append, List.nil_append, AllAllowed, and_true]
    decide
  exact signal_stays_home (ReachableUnder.execAll .init hops) (by decide) (by decide)

/-! ## A parent destroyed under a signal -/

/-- Before the signal reaches the group 3, the group is destroyed and its row
    given to a new fence. -/
def recycleOps : List Op :=
  signalOps ++ [.destroy 2 3, .destroyChild 2, .destroyChild 2, .destroyEnd 2, .create 3 false]

/-- **A recycled parent**: the signal of fence 1 completes the new fence 3. -/
theorem recycled_parent : ¬ ∀ eventq w, ReachableUnder (fun _ _ => True) eventq w →
    ∀ op : Op, op.Allowed w → StaysHome w op := by
  intro h
  have hops : AllAllowed (fun _ _ => True) (World.init true) recycleOps := by
    simp only [recycleOps, signalOps, mergeOps, List.cons_append, List.nil_append, AllAllowed,
      and_true]
    decide
  have hs := h true _ (ReachableUnder.execAll .init hops) (.signalParent 1) (by decide)
  have hrow := (hs.1 ⟨1, 0⟩ (by decide)).rows 3 (by decide)
  exact absurd (congrArg Row.state hrow) (by decide)

end Sm8850.CamSync
