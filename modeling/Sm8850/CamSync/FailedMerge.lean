/-
  What a failed merge leaves behind in the camera sync driver.

  * `FailedMerge` is a call of `cam_sync_merge` that returns an error, from any
    point of its checks on: what the other threads do between the checks and the
    choice of a row lies before it.  `Restored` is that it leaves nothing.
  * `MergeAt` is what holds at each section of such a call: `Linked` says which
    children have the link of the group, the ones visited so far and, while the
    links are taken back, the ones still to visit.
  * `failedMerge_restored_iff`: nothing is left if the call fails before it takes a
    row.  If it fails later the links, the rows and the bit are taken back, and the
    row stays locked.
-/
import Mathlib.Logic.Relation
import Sm8850.CamSync.SignalRuns

namespace Sm8850.CamSync

variable {w w' w₀ : World} {t c idx : ℕ} {objs todo todo₀ cs : List ℕ}

/-! ## Statement -/

/-- `cam_sync_check_valid` -/
def World.CheckValid (w : World) (c : ℕ) : Prop :=
  0 < c ∧ c < maxObjs ∧ (w.rows c).bit = true ∧ (w.rows c).state ≠ .invalid

/-- What the merge of `t` does next, but for its successful end: a section, or it
    returns `-ENOMEM` as every bit is set. -/
inductive MergeSection (t : ℕ) (w : World) : World → Prop
  | check (ha : (Op.mergeCheck t).Allowed w) : MergeSection t w ((Op.mergeCheck t).exec w)
  | full {objs : List ℕ} (ht : w.thr t = .mergeCheck objs [])
      (hf : ∀ i < maxObjs, (w.rows i).bit = true) : MergeSection t w (w.setTask t .idle)
  | init (i : ℕ) (ha : (Op.mergeInit t i).Allowed w) : MergeSection t w ((Op.mergeInit t i).exec w)
  | child (alloc : Bool × Bool) (ha : (Op.mergeChild t alloc).Allowed w) :
    MergeSection t w ((Op.mergeChild t alloc).exec w)
  | undo (ha : (Op.mergeUndo t).Allowed w) : MergeSection t w ((Op.mergeUndo t).exec w)
  | fail (ha : (Op.mergeFail t).Allowed w) : MergeSection t w ((Op.mergeFail t).exec w)

/-- **A call of `cam_sync_merge` fails**, at its arguments or in a section. -/
inductive FailedMerge (t : ℕ) (objs : List ℕ) : World → World → Prop
  | args {w : World} (ha : objs.length ≤ 1 ∨ ¬objs.Nodup) : FailedMerge t objs w w
  | sections {w w' : World} {todo : List ℕ} (ha : 1 < objs.length ∧ objs.Nodup)
      (ht : w.thr t = .mergeCheck objs todo)
      (hs : Relation.ReflTransGen (MergeSection t) w w') (hr : w'.thr t = .idle) :
    FailedMerge t objs w w'

/-- **Nothing is left**: the bits and every row but the chosen one are as before,
    the chosen one is free, and no lock is held that was not. -/
structure Restored (w w' : World) : Prop where
  bits : ∀ i, (w'.rows i).bit = (w.rows i).bit
  rows : ∃ chosen, ∀ i, i ≠ chosen ∨ (w.rows i).bit = true → w'.rows i = w.rows i
  reusable : ∀ i, w.Free i → w'.Free i
  unlocked : ∀ i, (w'.rows i).locked = true → (w.rows i).locked = true

/-- The call fails before it takes a row: at its arguments, at an object still to
    check, or as every bit is set. -/
def World.Refuses (w : World) (t : ℕ) (objs : List ℕ) : Prop :=
  (objs.length ≤ 1 ∨ ¬objs.Nodup) ∨
  (∃ todo, w.thr t = .mergeCheck objs todo ∧ ∃ c ∈ todo, ¬w.CheckValid c) ∨
  ∀ i < maxObjs, (w.rows i).bit = true

/-- No row has a link to the row `idx`. -/
def World.NoLinkTo (w : World) (idx : ℕ) : Prop :=
  ∀ i, ∀ l ∈ (w.rows i).parentsList, l.syncId ≠ idx

/-- **All but the lock is taken back**: the chosen row is empty and its bit is
    clear, and where no row had a link to it the other rows are as before. -/
structure LeftLocked (idx : ℕ) (w w' : World) : Prop where
  bits : ∀ i, (w'.rows i).bit = (w.rows i).bit
  rows : w.NoLinkTo idx → ∀ i, i ≠ idx → w'.rows i = w.rows i
  empty : (w'.rows idx).state = .invalid ∧ (w'.rows idx).childrenList = []
  locked : (w'.rows idx).locked = true

instance (w : World) (c : ℕ) : Decidable (w.CheckValid c) :=
  inferInstanceAs (Decidable (_ ∧ _ ∧ _ ∧ _))

/-! ## Where a merge stands -/

/-- Some rows have the link of the group, at the end of their parents. -/
structure Linked (idx : ℕ) (cs : List ℕ) (w₀ w : World) : Prop where
  others : ∀ i, i ≠ idx →
    w.rows i = { w₀.rows i with parentsList := (w.rows i).parentsList }
  parents : w₀.NoLinkTo idx → ∀ i, i ≠ idx →
    (w.rows i).parentsList = (w₀.rows i).parentsList ∨
    i ∈ cs ∧ ∃ l : Link, l.syncId = idx ∧
      (w.rows i).parentsList = (w₀.rows i).parentsList ++ [l]
  locked : (w.rows idx).locked = true

/-- The sections of a merge that started at `w₀` with `todo₀` to check. -/
inductive MergeAt (t : ℕ) (objs todo₀ : List ℕ) (w₀ w : World) : Prop
  | checking (todo : List ℕ) (ht : w.thr t = .mergeCheck objs todo) (hr : w.rows = w₀.rows)
      (hsub : todo ⊆ todo₀) (hv : ∀ c ∈ todo₀, c ∈ todo ∨ w₀.CheckValid c)
  | refused (ht : w.thr t = .idle) (hr : w.rows = w₀.rows)
      (hb : (∃ c ∈ todo₀, ¬w₀.CheckValid c) ∨ ∀ i < maxObjs, (w₀.rows i).bit = true)
  | children (idx : ℕ) (done todo : List ℕ) (hv : ∀ c ∈ todo₀, w₀.CheckValid c)
      (hf : w₀.Free idx) (ht : w.thr t = .mergeChildren idx objs todo) (ho : objs = done ++ todo)
      (hl : Linked idx done w₀ w)
  | undo (idx : ℕ) (todo : List ℕ) (hv : ∀ c ∈ todo₀, w₀.CheckValid c) (hf : w₀.Free idx)
      (ht : w.thr t = .mergeUndo idx todo) (hi : (w.rows idx).state = .invalid)
      (hl : Linked idx todo w₀ w)
  | failed (idx : ℕ) (hv : ∀ c ∈ todo₀, w₀.CheckValid c) (hf : w₀.Free idx)
      (ht : w.thr t = .idle) (hl : LeftLocked idx w₀ w)

/-- The section of a child that fails goes back over the children before it. -/
theorem mergeChild_undo {done : List ℕ} {alloc : Bool × Bool} {i : ℕ} {cs : List ℕ}
    (h : (mergeChild w t idx (done ++ c :: todo) todo c alloc).thr t = .mergeUndo i cs) :
    cs = done.reverse := by
  have hlen : (done ++ c :: todo).length - todo.length - 1 = done.length := by
    rw [List.length_append, List.length_cons]
    omega
  rw [mergeChild] at h
  simp only [hlen, List.take_left] at h
  split_ifs at h <;> simp_all

theorem cleanupOne_of_notMem {list : List Link} (h : ∀ l ∈ list, l.syncId ≠ idx) :
    cleanupOne list idx = list :=
  List.eraseP_of_forall_not fun l hl => by simpa using h l hl

/-- The link that was put last is taken back. -/
theorem cleanupOne_append {list : List Link} {l : Link} (h : ∀ l ∈ list, l.syncId ≠ idx)
    (hl : l.syncId = idx) : cleanupOne (list ++ [l]) idx = list := by
  rw [cleanupOne, List.eraseP_append_right _ fun l hl => by simpa using h l hl]
  simp [hl]

/-- The other rows are left alone. -/
theorem Linked.keep {cs' : List ℕ} (h : Linked idx cs w₀ w) (hcs : ∀ i ∈ cs, i ∈ cs')
    (hr : ∀ i, i ≠ idx → w'.rows i = w.rows i) (hl : (w'.rows idx).locked = (w.rows idx).locked) :
    Linked idx cs' w₀ w' where
  others i hi := by
    rw [hr i hi]
    exact h.others i hi
  parents hn i hi := by
    rw [hr i hi]
    exact (h.parents hn i hi).imp_right fun hc => ⟨hcs i hc.1, hc.2⟩
  locked := hl.trans h.locked

/-- A row whose lock is free is not the one that the merge holds. -/
theorem Linked.ne_of_open {cs : List ℕ} (h : Linked idx cs w₀ w) (hop : w.Open c) : c ≠ idx := by
  rintro rfl
  have := h.locked
  rw [hop.2.2] at this
  cases this

/-- One more child is linked. -/
theorem Linked.link (h : Linked idx cs w₀ w) (hc : c ∉ cs) (hs : MergeLinks w w' t idx objs todo c)
    (hci : c ≠ idx) : Linked idx (cs ++ [c]) w₀ w' where
  others i hi := by
    by_cases hic : i = c
    · subst hic
      have := h.others i hi
      rw [hs.childRow, this]
    · rw [hs.rows i hi hic]
      exact h.others i hi
  parents hn i hi := by
    by_cases hic : i = c
    · subst hic
      have hfresh := (h.parents hn i hi).resolve_right fun hm => hc hm.1
      exact .inr ⟨by simp, w.self idx, rfl, by rw [hs.childRow, hfresh]⟩
    · rw [hs.rows i hi hic]
      exact (h.parents hn i hi).imp_right fun hm => ⟨List.mem_append_left _ hm.1, hm.2⟩
  locked := by
    obtain ⟨remaining, hrow⟩ := hs.row
    rw [hrow]
    exact h.locked

/-- The link of a child is taken back, if it has one. -/
theorem Linked.unlink (h : Linked idx (c :: cs) w₀ w) (hci : c ≠ idx)
    (hr : w'.rows = Function.update w.rows c
      { w.rows c with parentsList := cleanupOne (w.rows c).parentsList idx }) :
    Linked idx cs w₀ w' where
  others i hi := by
    rw [hr]
    by_cases hic : i = c
    · subst hic
      have := h.others i hi
      rw [Function.update_self, this]
    · rw [Function.update_of_ne hic]
      exact h.others i hi
  parents hn i hi := by
    rw [hr]
    by_cases hic : i = c
    · subst hic
      rw [Function.update_self]
      refine .inl ?_
      rcases h.parents hn i hi with he | ⟨-, l, hl, he⟩
      · simp only [he]
        exact cleanupOne_of_notMem (hn i)
      · simp only [he]
        exact cleanupOne_append (hn i) hl
    · rw [Function.update_of_ne hic]
      exact (h.parents hn i hi).imp_right fun hm =>
        ⟨List.mem_of_ne_of_mem hic hm.1, hm.2⟩
  locked := by
    rw [hr, Function.update_of_ne hci.symm]
    exact h.locked

/-! ## The sections -/

theorem MergeAt.check (ht : w.thr t = .mergeCheck objs (c :: todo)) (hr : w.rows = w₀.rows)
    (hsub : c :: todo ⊆ todo₀) (hv : ∀ d ∈ todo₀, d ∈ c :: todo ∨ w₀.CheckValid d) :
    MergeAt t objs todo₀ w₀ ((Op.mergeCheck t).exec w) := by
  rw [Op.exec, ht]
  simp only
  split_ifs with hc
  · refine .checking todo (by simp) hr (fun d hd => hsub (List.mem_cons_of_mem _ hd)) fun d hd => ?_
    rcases hv d hd with hd | hd
    · rcases List.mem_cons.1 hd with rfl | hd
      · exact .inr (by rwa [World.CheckValid, ← hr])
      · exact .inl hd
    · exact .inr hd
  · exact .refused (by simp) hr (.inl ⟨c, hsub (List.mem_cons_self ..), by
      rwa [World.CheckValid, ← hr]⟩)

theorem MergeAt.start (ht : w.thr t = .mergeCheck objs []) (hr : w.rows = w₀.rows)
    (hv : ∀ c ∈ todo₀, w₀.CheckValid c) (hf : w.Free idx) :
    MergeAt t objs todo₀ w₀ ((Op.mergeInit t idx).exec w) := by
  have hf₀ : w₀.Free idx := by rwa [World.Free, World.Open, ← hr]
  rw [Op.exec, ht]
  refine .children idx [] objs hv hf₀ (by simp) rfl ⟨fun i hi => ?_, fun _ i hi => .inl ?_, ?_⟩
  · simp [hi, hr]
  · simp [hi, hr]
  · simp [camSyncInitRow]

theorem MergeAt.child {done : List ℕ} (hv : ∀ c ∈ todo₀, w₀.CheckValid c) (hf : w₀.Free idx)
    (ht : w.thr t = .mergeChildren idx objs (c :: todo)) (ho : objs = done ++ c :: todo)
    (hn : objs.Nodup) (hl : Linked idx done w₀ w) (hop : w.Open c) (alloc : Bool × Bool) :
    MergeAt t objs todo₀ w₀ ((Op.mergeChild t alloc).exec w) := by
  have hci : c ≠ idx := hl.ne_of_open hop
  have hc : c ∉ done := by
    intro hc
    rw [ho] at hn
    exact (List.nodup_append.1 hn).2.2 c hc c (List.mem_cons_self ..) rfl
  have hex : (Op.mergeChild t alloc).exec w = mergeChild w t idx objs todo c alloc := by
    rw [Op.exec, ht]
  rw [hex]
  rcases mergeChild_cases w t hci objs todo alloc with hs | hs | hs
  · obtain ⟨cs, hu⟩ := hs.thr
    obtain ⟨remaining, children, hrow⟩ := hs.row
    have hcs : cs = done.reverse := by
      rw [ho] at hu
      exact mergeChild_undo hu
    refine .undo idx cs hv hf hu (by rw [hrow]) (hl.keep (fun i hi => ?_) hs.rows (by rw [hrow]))
    rw [hcs]
    exact List.mem_reverse.2 hi
  · refine .children idx (done ++ [c]) todo hv hf hs.thr (by simp [ho])
      (hl.keep (fun i hi => List.mem_append_left _ hi) hs.rows (by rw [hs.row]))
  · exact .children idx (done ++ [c]) todo hv hf hs.thr (by simp [ho]) (hl.link hc hs hci)

theorem MergeAt.takeBack (hv : ∀ c ∈ todo₀, w₀.CheckValid c) (hf : w₀.Free idx)
    (ht : w.thr t = .mergeUndo idx (c :: todo)) (hi : (w.rows idx).state = .invalid)
    (hl : Linked idx (c :: todo) w₀ w) (hop : w.Open c) :
    MergeAt t objs todo₀ w₀ ((Op.mergeUndo t).exec w) := by
  have hci : c ≠ idx := hl.ne_of_open hop
  have hex : (Op.mergeUndo t).exec w = (w.setRow c { w.rows c with
      parentsList := cleanupOne (w.rows c).parentsList idx }).setTask t (.mergeUndo idx todo) := by
    rw [Op.exec, ht]
  rw [hex]
  exact .undo idx todo hv hf (by simp) (by simp [hci.symm, hi]) (hl.unlink hci rfl)

theorem MergeAt.giveUp (hv : ∀ c ∈ todo₀, w₀.CheckValid c) (hf : w₀.Free idx)
    (ht : w.thr t = .mergeUndo idx []) (hi : (w.rows idx).state = .invalid)
    (hl : Linked idx [] w₀ w) : MergeAt t objs todo₀ w₀ ((Op.mergeFail t).exec w) := by
  have hex : (Op.mergeFail t).exec w = (w.setRow idx { w.rows idx with
      childrenList := [], bit := false }).setTask t .idle := by
    rw [Op.exec, ht]
  rw [hex]
  refine .failed idx hv hf (by simp) ⟨fun i => ?_, fun hno i hne => ?_, by simp [hi], by
    simp [hl.locked]⟩
  · by_cases hie : i = idx
    · subst hie
      simp [hf.2]
    · have := congrArg Row.bit (hl.others i hie)
      simpa [hie] using this
  · have hpar := (hl.parents hno i hne).resolve_right fun hm => by simp at hm
    have hrow := hl.others i hne
    rw [hpar] at hrow
    simpa [hne] using hrow

/-- Each section goes from one of these places to the next. -/
theorem MergeAt.step (hn : objs.Nodup) (h : MergeAt t objs todo₀ w₀ w)
    (hs : MergeSection t w w') : MergeAt t objs todo₀ w₀ w' := by
  cases h with
  | checking todo ht hr hsub hv =>
    cases hs with
    | check ha =>
      obtain ⟨objs', c, todo', ht', -⟩ := ha
      rw [ht] at ht'
      cases ht'
      exact .check ht hr hsub hv
    | full ht' hf =>
      refine .refused (by simp) hr (.inr fun i hi => ?_)
      rw [← hr]
      exact hf i hi
    | init i ha =>
      obtain ⟨⟨objs', ht'⟩, hf⟩ := ha
      rw [ht] at ht'
      cases ht'
      exact .start ht hr (fun c hc => (hv c hc).resolve_left (by simp)) hf
    | _ => simp_all [Op.Allowed]
  | refused ht hr hb => cases hs <;> simp_all [Op.Allowed]
  | children idx done todo hv hf ht ho hl =>
    cases hs with
    | child alloc ha =>
      obtain ⟨idx', objs', c, todo', ht', hop⟩ := ha
      rw [ht] at ht'
      cases ht'
      exact .child hv hf ht ho hn hl hop alloc
    | _ => simp_all [Op.Allowed]
  | undo idx todo hv hf ht hi hl =>
    cases hs with
    | undo ha =>
      obtain ⟨idx', c, todo', ht', hop⟩ := ha
      rw [ht] at ht'
      cases ht'
      exact .takeBack hv hf ht hi hl hop
    | fail ha =>
      obtain ⟨idx', ht'⟩ := ha
      rw [ht] at ht'
      cases ht'
      exact .giveUp hv hf ht hi hl
    | _ => simp_all [Op.Allowed]
  | failed idx hv hf ht hl => cases hs <;> simp_all [Op.Allowed]

theorem MergeAt.run (hn : objs.Nodup) (h : MergeAt t objs todo₀ w₀ w)
    (hs : Relation.ReflTransGen (MergeSection t) w w') : MergeAt t objs todo₀ w₀ w' := by
  induction hs with
  | refl => exact h
  | tail _ hs ih => exact ih.step hn hs

/-! ## Results -/

theorem Restored.of_rows (h : w'.rows = w.rows) : Restored w w' where
  bits i := by rw [h]
  rows := ⟨0, fun i _ => by rw [h]⟩
  reusable i hi := by rwa [World.Free, World.Open, h]
  unlocked i hi := by rwa [h] at hi

/-- A row that was free is locked and stays so. -/
theorem LeftLocked.not_restored (h : LeftLocked idx w w') (hf : w.Free idx) : ¬Restored w w' := by
  intro hr
  have := hr.unlocked idx h.locked
  rw [hf.1.2.2] at this
  cases this

/-- **What a failed merge leaves behind.**  Nothing, just if it fails before it takes
    a row; else a row that was free, locked and with its links and its bit taken
    back. -/
theorem failedMerge_restored_iff (h : FailedMerge t objs w w') :
    (Restored w w' ↔ w.Refuses t objs) ∧
    (¬w.Refuses t objs → ∃ idx, w.Free idx ∧ LeftLocked idx w w') := by
  cases h with
  | args ha =>
    have hR : w.Refuses t objs := .inl ha
    exact ⟨iff_of_true (.of_rows rfl) hR, fun hnR => absurd hR hnR⟩
  | @sections _ todo ha ht hs hr =>
    have hstart : MergeAt t objs todo w w :=
      .checking todo ht rfl (List.Subset.refl _) fun c hc => .inl hc
    cases hstart.run ha.2 hs with
    | refused _ hrows hb =>
      have hR : w.Refuses t objs := .inr (hb.imp_left fun hc => ⟨todo, ht, hc⟩)
      exact ⟨iff_of_true (.of_rows hrows) hR, fun hnR => absurd hR hnR⟩
    | failed idx hv hf _ hl =>
      have hnR : ¬w.Refuses t objs := by
        rintro (hargs | ⟨todo', ht', c, hc, hnv⟩ | hfull)
        · rcases hargs with hle | hdup
          · omega
          · exact hdup ha.2
        · rw [ht] at ht'
          cases ht'
          exact hnv (hv c hc)
        · have := hfull idx hf.1.2.1
          rw [hf.2] at this
          cases this
      exact ⟨iff_of_false (hl.not_restored hf) hnR, fun _ => ⟨idx, hf, hl⟩⟩
    | checking _ ht' | children _ _ _ _ _ ht' | undo _ _ _ _ ht' =>
      rw [hr] at ht'
      cases ht'

/-- Two fences are about to be merged. -/
def twoFences : World :=
  execAll (World.init true) [.create 1 false, .create 2 false, .mergeStart 0 [1, 2]]

/-- The `sync_parent_info` of the second one cannot be allocated. -/
def noParentInfo : World :=
  execAll twoFences [.mergeCheck 0, .mergeCheck 0, .mergeInit 0 3, .mergeChild 0 (true, true),
    .mergeChild 0 (true, false), .mergeUndo 0, .mergeFail 0]

theorem noParentInfo_fails : FailedMerge 0 [1, 2] twoFences noParentInfo := by
  have hstart : twoFences.thr 0 = .mergeCheck [1, 2] [1, 2] := rfl
  refine .sections (by decide) hstart ?_ rfl
  refine .head (.check (by decide)) (.head (.check (by decide)) ?_)
  refine .head (.init 3 (by decide)) (.head (.child (true, true) (by decide)) ?_)
  refine .head (.child (true, false) (by decide)) (.head (.undo (by decide)) ?_)
  exact .head (.fail (by decide)) .refl

theorem failedMerge_restored_noParentInfo :
    ∃ idx, twoFences.Free idx ∧ LeftLocked idx twoFences noParentInfo := by
  refine (failedMerge_restored_iff noParentInfo_fails).2 ?_
  rintro (hargs | ⟨todo, ht, c, hc, hnv⟩ | hfull)
  · exact absurd hargs (by decide)
  · have htodo : todo = [1, 2] := by
      cases ht
      rfl
    subst htodo
    exact hnv ((by decide : ∀ c ∈ [1, 2], twoFences.CheckValid c) c hc)
  · exact absurd (hfull 3 (by decide)) (by decide)

/-- **A failed merge leaves its row locked.** -/
theorem failedMerge_locked : ¬∀ (t : ℕ) (objs : List ℕ) (w w' : World),
    FailedMerge t objs w w' → Restored w w' := by
  intro h
  have hr := h 0 [1, 2] twoFences noParentInfo noParentInfo_fails
  exact absurd (hr.unlocked 3 (by decide)) (by decide)

end Sm8850.CamSync
