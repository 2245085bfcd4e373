/-
  Pending commands of the serialization engine, and who will look at them again.

  * `NobodyStranded`: a pending command waits for something that is active.
  * `Attended`: or for a call in progress that goes over the pending list.  This is
    what the sections keep, and where nothing is in progress it is the former.
  * A cancel looks at the pending list again only when it leaves the active list
    empty, and not at all for scans (`Op.Reexamines`).
  * A mark of a pass over the list of the pdev that was left on a pending command
    keeps its vdev from moving it (`Op.Unmarked`).
-/
import Sm8850.Serialization.Waiting

namespace Sm8850.Serialization

variable {w w' : World} {vdevs : Vdevs} {n v : ℕ} {c : Command} {k : Kind} {f : Frame}
  {frames fs fs' others : List Frame} {lab : Label} {G : Guard}

/-! ## Statement -/

/-- **Every pending command waits for something.**  For one that is no scan its vdev
    has an active command, or a blocking command is active, or waits behind an active
    one; for a scan as many scans are active as may be. -/
structure NobodyStranded (w : World) : Prop where
  nonScan : ∀ n ∈ (w.pdevQ .nonScan).pendingList, ∀ v, (w.pdevQ .nonScan).ofVdev v n = true →
    (∃ m ∈ (w.pdevQ .nonScan).activeList, (w.pdevQ .nonScan).ofVdev v m = true) ∨
    (∃ m ∈ (w.pdevQ .nonScan).activeList, (w.pdevQ .nonScan).isBlocking m = true) ∨
    ((∃ m ∈ (w.pdevQ .nonScan).pendingList, (w.pdevQ .nonScan).isBlocking m = true) ∧
      (w.pdevQ .nonScan).activeList ≠ [])
  scan : (w.pdevQ .scan).pendingList ≠ [] →
    maxActiveScans ≤ (w.pdevQ .scan).activeList.length + w.scansElsewhere

/-- The flags keep a pending command of the vdev waiting: its vdev is busy, a
    blocking command is active, or one waits while some vdev is busy. -/
def World.Held (w : World) (v : ℕ) : Prop :=
  v ∈ (w.pdevQ .nonScan).vdevActiveCmdBitmap ∨ (w.pdevQ .nonScan).blockingCmdActive = true ∨
  (w.waiters ≠ 0 ∧ (w.pdevQ .nonScan).vdevActiveCmdBitmap ≠ ∅)

/-- The frame goes over the pending commands of the vdev: a pass over the list of the
    pdev, one over the list of the vdev, or a cancel, for its end. -/
def World.examines (w : World) (v : ℕ) : Frame → Bool
  | .move .nonScan (some v') removed => removed || v' == v || w.waiters != 0
  | .move .nonScan none _ | .moveOn | .cancel .nonScan _ _ | .cancelOn .nonScan _ _ _ _ _ _
  | .reactivate => true
  | _ => false

/-- Each pending command that is no scan is held, or a frame will look at it. -/
def World.Attended (w : World) (frames : List Frame) : Prop :=
  ∀ n ∈ (w.pdevQ .nonScan).pendingList, ∀ c ∈ ((w.pdevQ .nonScan).nodes n).cmd,
    w.Held c.vdev ∨ ∃ f ∈ frames, w.examines c.vdev f = true

/-- The frame moves one pending scan. -/
def Frame.movesScan : Frame → Bool
  | .move .scan _ _ => true
  | _ => false

/-- The frame is a cancel of active scans. -/
def Frame.cancelsScan : Frame → Bool
  | .cancel .scan _ true | .cancelOn .scan _ true _ _ _ _ => true
  | _ => false

/-- The pending scans wait for the active ones, and those that frames will move. -/
def World.ScansAttended (w : World) (frames : List Frame) : Prop :=
  (w.pdevQ .scan).pendingList = [] ∨
  maxActiveScans ≤ (w.pdevQ .scan).activeList.length + w.scansElsewhere +
    frames.countP Frame.movesScan ∨ ∃ f ∈ frames, f.cancelsScan = true

/-- The frame is a cancel of commands that are no scans, or its end. -/
def Frame.cancelsNonScan : Frame → Bool
  | .cancel .nonScan _ _ | .cancelOn .nonScan _ _ _ _ _ _ | .reactivate => true
  | _ => false

/-- The frame goes over the pending list of the pdev, or is a cancel that may. -/
def Frame.passes : Frame → Bool
  | .move .nonScan (some _) removed => removed
  | .move .nonScan none _ | .moveOn => true
  | f => f.cancelsNonScan

/-- **A pass over the pending list would find nothing to move**, or the commands in it
    wait for a blocking one. -/
def World.Settled (w : World) : Prop :=
  (w.pdevQ .nonScan).blockingCmdActive = true ∨
  (w.waiters ≠ 0 ∧ (w.pdevQ .nonScan).anyVdevCmdActive = true) ∨
  (pickFromPdev (w.pdevQ .nonScan) (w.pdevQ .nonScan).pendingList).2 = none

/-- No pending scan could be active. -/
def World.ScansSettled (w : World) : Prop :=
  (w.pdevQ .scan).pendingList = [] ∨ isActiveScanCmdAllowed w = false

/-- The frames that the step leaves. -/
def Op.left (w : World) : Op → List Frame
  | .go t _ => ((w.todo[t]?.getD []).drop 1) ++ (w.todo.eraseIdx t).flatten
  | _ => w.frames

/-- **A cancel does not end where a pending command could be moved**, unless another
    frame goes over the list, and the scans of the other pdevs do not end where a
    pending scan could then be moved. -/
def Op.Reexamines (w : World) : Op → Prop
  | .go t ok => ∀ f ∈ (Op.go t ok).next w, (f.run w ok).2 = [] →
      (f.cancelsNonScan = true → w.Settled ∨ ∃ g ∈ (Op.go t ok).left w, g.passes = true) ∧
      (f.cancelsScan = true → w.ScansSettled ∨ ∃ g ∈ (Op.go t ok).left w, g.cancelsScan = true)
  | .scansElsewhere count => count < w.scansElsewhere →
      ({ w with scansElsewhere := count } : World).ScansSettled
  | _ => True

/-- The first pending command of a vdev that the frame is about to move is not marked
    by a pass over the list of the pdev. -/
def Frame.Unmarked (w : World) : Frame → Prop
  | .move .nonScan (some v) false =>
    (w.pdevQ .nonScan).blockingCmdWaiting = 0 → v ∉ (w.pdevQ .nonScan).vdevActiveCmdBitmap →
      ∀ n ∈ (w.vdevQ v).pendingList.head?,
        ((w.pdevQ .nonScan).nodes n).inUse.markedForMovement = false
  | _ => True

/-- What the step moves has not been marked. -/
def Op.Unmarked (w : World) (op : Op) : Prop := ∀ f ∈ op.next w, f.Unmarked w

instance (w : World) : Decidable w.Settled := inferInstanceAs (Decidable (_ ∨ (_ ∧ _) ∨ _))

instance (w : World) : Decidable w.ScansSettled := inferInstanceAs (Decidable (_ ∨ _))

instance (w : World) (op : Op) : Decidable (op.Reexamines w) :=
  match op with
  | .go t ok => inferInstanceAs (Decidable (∀ f ∈ (Op.go t ok).next w, (f.run w ok).2 = [] →
      (_ → w.Settled ∨ ∃ g ∈ _, _) ∧ (_ → w.ScansSettled ∨ ∃ g ∈ _, _)))
  | .scansElsewhere count => inferInstanceAs (Decidable (count < w.scansElsewhere → _))
  | .request _ | .call _ | .disable _ => isTrue trivial

instance (w : World) (f : Frame) : Decidable (f.Unmarked w) :=
  match f with
  | .move .nonScan (some v) false => inferInstanceAs (Decidable (_ → v ∉ _ → ∀ n ∈ _, _))
  | .move .nonScan (some _) true | .move .nonScan none _ | .move .scan _ _ | .activate _ _
  | .activated _ _ _ | .dequeue _ | .dequeueNode _ _ | .moveOn | .release _ | .cancel _ _ _
  | .cancelNode _ _ | .cancelOn _ _ _ _ _ _ _ | .reactivate => isTrue trivial

instance (w : World) (op : Op) : Decidable (op.Unmarked w) :=
  inferInstanceAs (Decidable (∀ f ∈ op.next w, f.Unmarked w))

/-! ## More that effects keep -/

/-- A command that is about to be activated is in the active list. -/
def MarkedActive (w : World) (_ : List Frame) : Prop :=
  ∀ k n, w.Marked k n → n ∈ (w.pdevQ k).list true

theorem MarkedActive.kept : Kept vdevs G MarkedActive where
  init k n h := by simp [World.Marked, World.init, PdevQueue.init, Node.free, InUse.zero] at h
  aside _ _ h := h
  perm _ h := h
  effect {w w' fs fs' others lab} hB he hG h := by
    have hshift : ∀ {n : ℕ} {c : Command} {p p' : Place}, Shift w w' n c p p' →
        p' = .pool ∨ p' = .list true → MarkedActive w' (fs' ++ others) := by
      intro n c p p' hs hp' k m hm
      rw [hs.list]
      rcases hs.marked k m hm with ⟨hm, hne⟩ | ⟨rfl, rfl, rfl⟩
      · have hmem := h k m hm
        by_cases hk : k = c.kind
        · subst hk
          rw [if_pos rfl]
          split
          · -- the node has left the active list for the pool
            rename_i hp
            have hpool : p' = .pool := hp'.resolve_right fun h => hs.ne (hp.symm.trans h.symm)
            refine (List.mem_erase_of_ne ?_).2 hmem
            rintro rfl
            exact hne ⟨rfl, rfl, hpool⟩
          · split
            · exact mem_insertNode.2 (.inr hmem)
            · exact hmem
        · rw [if_neg hk]
          exact hmem
      · rw [if_pos rfl, if_neg hs.ne.symm, if_pos rfl]
        exact mem_insertNode.2 (.inl rfl)
    have hrest : Rest w w' → MarkedActive w' (fs' ++ others) := fun hr k m hm => by
      rw [hr.list]
      exact h k m (hr.marked k m hm)
    cases he with
    | rest h | refuse _ h | clear _ _ _ _ _ _ h => exact hrest h
    | accept b n c hs =>
      cases b with
      | true => exact hshift hs (.inr rfl)
      | false =>
        intro k m hm
        rw [hs.list]
        rcases hs.marked k m hm with ⟨hm, -⟩ | ⟨rfl, rfl, hp⟩
        · have hmem := h k m hm
          split
          · simpa using hmem
          · exact hmem
        · cases hp
    | move n c hs => exact hshift hs (.inr rfl)
    | remove n c hs => exact hshift hs (.inl rfl)
    | cancel b n c r prev left hs => exact hshift hs (.inl rfl)
    | release req => exact h

/-- The blocking flag is set for some blocking command. -/
def FlagHeld (w : World) (frames : List Frame) : Prop :=
  w.flags.blocking = true → 0 < w.blockers frames

theorem FlagHeld.kept : Kept vdevs G FlagHeld where
  init h := by cases h
  aside _ _ h := h
  perm {w fs fs'} hp h hf := by
    have := h hf
    simp only [World.blockers, World.occupied, hp.countP_eq] at this ⊢
    exact this
  effect {w w' fs fs' others lab} hB he hG h := by
    have hbal := he.balance hB.placed others true fun _ blocking => blocking
    rw [FlagHeld] at h ⊢
    simp only [World.blockers] at h ⊢
    generalize w.occupied (fs ++ others) true (fun _ blocking => blocking) = x at hbal h
    generalize w'.occupied (fs' ++ others) true (fun _ blocking => blocking) = x' at hbal ⊢
    cases he with
    | rest h' hf | cancel b n c r prev left h' hf =>
      simp only [Label.loss, Label.gain] at hbal
      rw [hf]
      intro hb
      have := h hb
      omega
    | refuse c h' hf =>
      simp only [Label.loss, Label.gain] at hbal
      rw [hf, (Flags.wait_frame _ _).2]
      intro hb
      have := h hb
      omega
    | accept b n c h' hv hnew ha hf =>
      rw [hf]
      intro hb
      by_cases hc : b = true ∧ c.kind = .nonScan
      · rw [if_pos hc] at hb
        simp only [Label.loss, Label.gain, hc, true_and] at hbal
        simp only [Flags.note, Bool.or_eq_true] at hb
        rcases hb with hb | hb
        · rw [if_pos hb] at hbal
          omega
        · have := h hb
          omega
      · rw [if_neg hc, (Flags.wait_frame _ _).2] at hb
        simp only [Label.loss] at hbal
        have := h hb
        omega
    | move n c h' ha hf =>
      rw [hf]
      intro hb
      by_cases hk : c.kind = .nonScan
      · rw [if_pos hk, (Flags.unwait_frame _ _).2] at hb
        simp only [Label.loss, Label.gain, hk, true_and, reduceCtorEq, false_and, if_false] at hbal
        simp only [Flags.note, Bool.or_eq_true] at hb
        rcases hb with hb | hb
        · rw [if_pos hb] at hbal
          omega
        · have := h hb
          omega
      · rw [if_neg hk] at hb
        simp only [Label.loss, Label.gain, hk, false_and, if_false] at hbal
        have := h hb
        omega
    | remove n c h' hf =>
      rw [hf]
      intro hb
      by_cases hk : c.kind = .nonScan
      · rw [if_pos hk] at hb
        simp only [Flags.clear, Bool.and_eq_true, Bool.not_eq_true'] at hb
        simp only [Label.loss, Label.gain, hb.1, Bool.false_eq_true, and_false, if_false] at hbal
        have := h hb.2
        omega
      · rw [if_neg hk] at hb
        simp only [Label.loss, Label.gain, hk, false_and, if_false] at hbal
        have := h hb
        omega
    | clear b r v blocking prev left h' hf =>
      rw [hf]
      intro hb
      cases b with
      | true =>
        simp only [if_true, Flags.clear, Bool.and_eq_true, Bool.not_eq_true'] at hb
        simp only [Label.loss, Label.gain, hb.1, Bool.false_eq_true, and_false, if_false] at hbal
        have := h hb.2
        omega
      | false =>
        rw [if_neg (by simp), (Flags.unwait_frame _ _).2] at hb
        simp only [Label.loss, Label.gain, Bool.false_eq_true, false_and, if_false] at hbal
        have := h hb
        omega
    | release req =>
      simp only [Label.loss, Label.gain] at hbal
      intro hb
      have := h hb
      omega

/-! ## Who is held -/

theorem World.waiters_eq (w : World) : w.waiters = w.num .nonScan false Command.isBlocking := rfl

/-- The vdev has a pending command. -/
def World.Waits (w : World) (v : ℕ) : Prop := 0 < w.num .nonScan false (·.vdev == v)

theorem World.attended_iff : w.Attended frames ↔
    ∀ v, w.Waits v → w.Held v ∨ ∃ f ∈ frames, w.examines v f = true := by
  constructor
  · intro h v hv
    obtain ⟨n, hn, hc⟩ := List.countP_pos_iff.1 hv
    cases hcmd : ((w.pdevQ .nonScan).nodes n).cmd with
    | none => simp [hcmd] at hc
    | some c =>
      obtain rfl : c.vdev = v := by simpa [hcmd] using hc
      exact h n hn c hcmd
  · intro h n hn c hc
    rw [Option.mem_def] at hc
    exact h c.vdev (World.num_pos hn (by simp [hc]))

/-- A frame that looks at every vdev when some pending command blocks. -/
theorem World.examines_mono (hw : w.waiters ≠ 0 → w'.waiters ≠ 0) (h : w.examines v f = true) :
    w'.examines v f = true := by
  cases f with
  | move k vdev removed =>
    cases k with
    | scan => exact h
    | nonScan =>
      cases vdev with
      | none => exact h
      | some v' =>
        simp only [World.examines, Bool.or_eq_true, bne_iff_ne] at h ⊢
        exact h.imp_right hw
  | cancel k | cancelOn k => cases k <;> exact h
  | _ => exact h

/-- While some pending command blocks, a frame that looks at a vdev looks at all. -/
theorem World.examines_all {u : ℕ} (hw : w.waiters ≠ 0) (h : w.examines u f = true) (v : ℕ) :
    w.examines v f = true := by
  cases f with
  | move k vdev removed =>
    cases k with
    | scan => exact h
    | nonScan =>
      cases vdev with
      | none => exact h
      | some v' => simp [World.examines, hw]
  | cancel k | cancelOn k => cases k <;> exact h
  | _ => exact h

/-- Such a frame examines every vdev. -/
theorem Frame.passes_examines (h : f.passes = true) : w.examines v f = true := by
  cases f with
  | move k vdev removed =>
    cases k with
    | scan => cases h
    | nonScan =>
      cases vdev with
      | none => rfl
      | some v' =>
        obtain rfl : removed = true := h
        rfl
  | cancel k | cancelOn k => cases k <;> exact h
  | moveOn | reactivate => rfl
  | _ => cases h

/-- Who was held or examined by a frame is so still, or one of the frames `fs'`
    examines it. -/
structure Holds (w w' : World) (fs' : List Frame) : Prop where
  held : ∀ v, w.Held v → w'.Held v ∨ ∃ f ∈ fs', w'.examines v f = true
  examined : ∀ v f, w.examines v f = true →
    w'.examines v f = true ∨ w'.Held v ∨ ∃ f ∈ fs', w'.examines v f = true

/-- And nobody waits who did not. -/
structure Keeps (w w' : World) (fs' : List Frame) : Prop extends Holds w w' fs' where
  waits : ∀ v, w'.Waits v → w.Waits v

/-- No flag is cleared, and blocking commands wait as they did, or one is active. -/
theorem Holds.of_le (hf : w.flags.bits ⊆ w'.flags.bits)
    (hb : w.flags.blocking = true → w'.flags.blocking = true)
    (hwait : w.waiters ≠ 0 → w'.waiters ≠ 0 ∨ w'.flags.blocking = true) : Holds w w' fs' where
  held v h := by
    refine .inl ?_
    rcases h with h | h | ⟨h, hne⟩
    · exact .inl (hf h)
    · exact .inr (.inl (hb h))
    · rcases hwait h with h | h
      · obtain ⟨x, hx⟩ := Finset.nonempty_iff_ne_empty.2 hne
        exact .inr (.inr ⟨h, Finset.ne_empty_of_mem (hf hx)⟩)
      · exact .inr (.inl h)
  examined v f h := by
    by_cases hblock : w'.flags.blocking = true
    · exact .inr (.inl (.inr (.inl hblock)))
    · exact .inl (World.examines_mono (fun h => (hwait h).resolve_right hblock) h)

theorem Keeps.of_le (hw : ∀ v, w'.Waits v → w.Waits v) (hf : w.flags.bits ⊆ w'.flags.bits)
    (hb : w.flags.blocking = true → w'.flags.blocking = true)
    (hwait : w.waiters ≠ 0 → w'.waiters ≠ 0 ∨ w'.flags.blocking = true) : Keeps w w' fs' :=
  ⟨.of_le hf hb hwait, hw⟩

theorem Keeps.of_eq (hw : ∀ v, w'.Waits v → w.Waits v) (hf : w'.flags.bits = w.flags.bits)
    (hb : w'.flags.blocking = w.flags.blocking) (hwait : w'.waiters = w.waiters) :
    Keeps w w' fs' :=
  .of_le hw (by rw [hf]) (by rw [hb]; exact id) (by rw [hwait]; exact .inl)

theorem Keeps.of_passes (hw : ∀ v, w'.Waits v → w.Waits v) (hf : f ∈ fs') (hp : f.passes = true) :
    Keeps w w' fs' where
  waits := hw
  held _ _ := .inr ⟨f, hf, Frame.passes_examines hp⟩
  examined _ _ _ := .inr (.inr ⟨f, hf, Frame.passes_examines hp⟩)

/-- Who was held or examined still is. -/
theorem Holds.serves (h : Holds w w' fs') (ha : w.Held v ∨ ∃ f ∈ others, w.examines v f = true) :
    w'.Held v ∨ ∃ f ∈ fs' ++ others, w'.examines v f = true := by
  have happ : (∃ f ∈ fs', w'.examines v f = true) →
      ∃ f ∈ fs' ++ others, w'.examines v f = true := fun ⟨f, hf, he⟩ =>
    ⟨f, List.mem_append_left _ hf, he⟩
  rcases ha with hh | ⟨f, hf, he⟩
  · exact (h.held v hh).imp_right happ
  · rcases h.examined v f he with he | hh | he
    · exact .inr ⟨f, List.mem_append_right _ hf, he⟩
    · exact .inl hh
    · exact .inr (happ he)

theorem Keeps.attended (h : Keeps w w' fs') (ha : w.Attended others) :
    w'.Attended (fs' ++ others) :=
  World.attended_iff.2 fun v hv => h.serves (World.attended_iff.1 ha v (h.waits v hv))

theorem Rest.waiters (h : Rest w w') : w'.waiters = w.waiters := h.num .nonScan false _

theorem Rest.waits (h : Rest w w') (v : ℕ) (hv : w'.Waits v) : w.Waits v := by
  rwa [World.Waits, h.num] at hv

/-- A command is put where it is not pending. -/
theorem Shift.waits {p p' : Place} (h : Shift w w' n c p p') (hP : Placed vdevs w)
    (hp' : p' ≠ .list false) (v : ℕ) (hv : w'.Waits v) : w.Waits v := by
  have hnum := h.num hP .nonScan false (·.vdev == v)
  rw [World.Waits] at hv ⊢
  have : ¬(Kind.nonScan = c.kind ∧ p' = .list false ∧ (c.vdev == v) = true) := fun h => hp' h.2.1
  rw [if_neg this] at hnum
  omega

/-- The blocking commands that are pending, if it is no such command that is put
    somewhere. -/
theorem Shift.waiters {p p' : Place} (h : Shift w w' n c p p') (hP : Placed vdevs w)
    (hc : c.kind = .nonScan → c.isBlocking = true → p ≠ .list false ∧ p' ≠ .list false) :
    w'.waiters = w.waiters := by
  have hnum := h.num hP .nonScan false Command.isBlocking
  rw [World.waiters_eq, World.waiters_eq]
  rw [if_neg fun h => (hc h.1.symm h.2.2).1 h.2.1, if_neg fun h => (hc h.1.symm h.2.2).2 h.2.1]
    at hnum
  exact hnum

/-- **What an effect leaves of the waiting**, but for a request and the clearing of
    the flags of an active command. -/
theorem Effect.keeps (hP : Placed vdevs w) (h : Effect vdevs w fs lab w' fs')
    (ha : ∀ n c, lab ≠ .accept false n c) (hc : ∀ v blocking, lab ≠ .clear true v blocking) :
    Keeps w w' fs' := by
  cases h with
  | rest h hf => exact .of_eq h.waits (by rw [hf]) (by rw [hf]) h.waiters
  | refuse c h hf =>
    obtain ⟨h1, h2⟩ := Flags.wait_frame w.flags c
    exact .of_eq h.waits (by rw [hf, h1]) (by rw [hf, h2]) h.waiters
  | release req => exact .of_eq (fun _ => id) rfl rfl rfl
  | clear b r v blocking prev left h hf =>
    cases b with
    | true => exact absurd rfl (hc v blocking)
    | false =>
      obtain ⟨h1, h2⟩ := Flags.unwait_frame w.flags blocking
      exact .of_eq h.waits (by rw [hf]; exact h1) (by rw [hf]; exact h2) h.waiters
  | accept b n c h hv hnew hadm hf =>
    cases b with
    | false => exact absurd rfl (ha n c)
    | true =>
      have hwaits := h.waits hP (by simp)
      have hwaiters : w'.waiters = w.waiters := h.waiters hP (by simp)
      refine .of_le hwaits ?_ ?_ (by rw [hwaiters]; exact .inl) <;> rw [hf]
      · split
        · exact Finset.subset_insert _ _
        · rw [(Flags.wait_frame _ _).1]
      · split
        · exact fun h => Bool.or_eq_true_iff.2 (.inr h)
        · rw [(Flags.wait_frame _ _).2]
          exact id
  | move n c h hnot hf =>
    have hwaits := h.waits hP (by simp)
    by_cases hk : c.kind = .nonScan
    · rw [if_pos hk] at hf
      obtain ⟨h1, h2⟩ := Flags.unwait_frame (w.flags.note c.vdev c.isBlocking) c.isBlocking
      refine .of_le hwaits ?_ ?_ ?_ <;> rw [hf]
      · rw [h1]
        exact Finset.subset_insert _ _
      · rw [h2]
        exact fun h => Bool.or_eq_true_iff.2 (.inr h)
      · rw [h2]
        by_cases hb : c.isBlocking = true
        · exact fun _ => .inr (Bool.or_eq_true_iff.2 (.inl hb))
        · rw [h.waiters hP fun _ h => absurd h hb]
          exact .inl
    · rw [if_neg hk] at hf
      exact .of_eq hwaits (by rw [hf]) (by rw [hf]) (h.waiters hP fun h => absurd h hk)
  | remove n c h hf =>
    have hwaits := h.waits hP (by simp)
    have hwaiters : w'.waiters = w.waiters := h.waiters hP (by simp)
    by_cases hk : c.kind = .nonScan
    · rw [if_pos hk] at hf
      by_cases hb : c.isBlocking = true
      · -- the pass that follows goes over the list of the pdev
        exact .of_passes hwaits List.mem_cons_self (by simp [hk, hb, Frame.passes])
      · have hmem := List.mem_cons_self (a := Frame.move c.kind (some c.vdev)
          (c.kind = .nonScan ∧ c.isBlocking)) (l := [.release c.req])
        refine ⟨⟨fun v hv => ?_, fun v f he => ?_⟩, hwaits⟩
        · rcases hv with hv | hv | ⟨hv, -⟩
          · by_cases hvc : v = c.vdev
            · exact .inr ⟨_, hmem, by simp [World.examines, hk, hvc]⟩
            · refine .inl (.inl ?_)
              show v ∈ w'.flags.bits
              rw [hf]
              exact Finset.mem_erase.2 ⟨hvc, hv⟩
          · refine .inl (.inr (.inl ?_))
            show w'.flags.blocking = true
            rw [hf]
            exact Bool.and_eq_true_iff.2 ⟨by simpa using hb, hv⟩
          · exact .inr ⟨_, hmem, by simp [World.examines, hk, hwaiters, hv]⟩
        · exact .inl (World.examines_mono (by rw [hwaiters]; exact id) he)
    · rw [if_neg hk] at hf
      exact .of_eq hwaits (by rw [hf]) (by rw [hf]) hwaiters
  | cancel b n c r prev left h hf =>
    have hwaits := h.waits hP (by simp)
    by_cases hk : c.kind = .nonScan
    · refine .of_passes hwaits (List.mem_cons_of_mem _ List.mem_cons_self) ?_
      rw [hk]
      rfl
    · exact .of_eq hwaits (by rw [hf]) (by rw [hf]) (h.waiters hP fun h => absurd h hk)

/-! ## Passes over the pending list -/

theorem PdevQueue.isBlocking_eq {q : PdevQueue} (h : (q.nodes n).cmd = some c) :
    q.isBlocking n = c.isBlocking := by
  rw [isBlocking, h]
  rfl

/-- **A pass that finds nothing** stops before a blocking command as something is
    active, or every vdev in the list is busy. -/
theorem pickFromPdev_none {q : PdevQueue} {l : List ℕ}
    (hcmd : ∀ n ∈ l, ∃ c, (q.nodes n).cmd = some c) (h : (pickFromPdev q l).2 = none) :
    ((∃ n ∈ l, q.isBlocking n = true) ∧ q.flags.bits ≠ ∅) ∨
    ∀ n ∈ l, ∀ c, (q.nodes n).cmd = some c → c.vdev ∈ q.flags.bits := by
  induction l generalizing q with
  | nil => exact .inr fun n hn => absurd hn (by simp)
  | cons n l ih =>
    obtain ⟨c, hc⟩ := hcmd n List.mem_cons_self
    rw [pickFromPdev] at h
    simp only [hc] at h
    split at h
    · rename_i hb
      exact .inl ⟨⟨n, List.mem_cons_self, (PdevQueue.isBlocking_eq hc).trans hb.1⟩,
        of_decide_eq_true hb.2⟩
    · have hnext := markNext_marked q l
      have hmark : Marked q ((q.markNext l).markForMovement n false) :=
        hnext.trans (.setNode rfl id)
      split at h
      · rename_i hv
        have hv : c.vdev ∈ q.flags.bits := by
          rw [← hnext.flags]
          exact hv
        have hrest := ih (fun m hm => hmark.cmd m ▸ hcmd m (List.mem_cons_of_mem _ hm)) h
        simp only [hmark.flags, hmark.cmd, PdevQueue.isBlocking] at hrest
        rcases hrest with ⟨⟨m, hm, hb⟩, hne⟩ | hall
        · exact .inl ⟨⟨m, List.mem_cons_of_mem _ hm, hb⟩, hne⟩
        · refine .inr fun m hm c' hc' => ?_
          rcases List.mem_cons.1 hm with rfl | hm
          · rwa [show c' = c by simpa [hc] using hc'.symm]
          · exact hall m hm c' hc'
      · cases h

/-- A command that is pending waits. -/
theorem World.Waits.mem (h : w.Waits v) : ∃ n ∈ (w.pdevQ .nonScan).pendingList, ∃ c,
    ((w.pdevQ .nonScan).nodes n).cmd = some c ∧ c.vdev = v := by
  obtain ⟨n, hn, hv⟩ := List.countP_pos_iff.1 h
  cases hc : ((w.pdevQ .nonScan).nodes n).cmd with
  | none => simp [hc] at hv
  | some c => exact ⟨n, hn, c, hc, by simpa [hc] using hv⟩

theorem World.waiters_ne_zero : w.waiters ≠ 0 ↔
    ∃ n ∈ (w.pdevQ .nonScan).pendingList, (w.pdevQ .nonScan).isBlocking n = true :=
  Nat.pos_iff_ne_zero.symm.trans List.countP_pos_iff

/-- Where a pass finds nothing, all that is pending is held. -/
theorem World.Held.of_none (hP : Placed vdevs w)
    (h : (pickFromPdev (w.pdevQ .nonScan) (w.pdevQ .nonScan).pendingList).2 = none)
    (hv : w.Waits v) : w.Held v := by
  have hcmd : ∀ n ∈ (w.pdevQ .nonScan).pendingList,
      ∃ c, ((w.pdevQ .nonScan).nodes n).cmd = some c :=
    fun n hn => (hP.cmd .nonScan false n hn).imp fun _ h => h.1
  rcases pickFromPdev_none hcmd h with ⟨hb, hne⟩ | hall
  · exact .inr (.inr ⟨World.waiters_ne_zero.2 hb, hne⟩)
  · obtain ⟨n, hn, c, hc, rfl⟩ := hv.mem
    exact .inl (hall n hn c hc)

theorem World.Settled.held (hP : Placed vdevs w) (h : w.Settled) (hv : w.Waits v) : w.Held v := by
  rcases h with h | ⟨h, hne⟩ | h
  · exact .inr (.inl h)
  · exact .inr (.inr ⟨h, of_decide_eq_true hne⟩)
  · exact .of_none hP h hv

/-- All that is pending is held. -/
theorem World.Attended.of_held (h : ∀ v, w.Waits v → w.Held v) : w.Attended frames :=
  World.attended_iff.2 fun v hv => .inl (h v hv)

theorem World.Attended.of_passes (hf : f ∈ frames) (h : f.passes = true) : w.Attended frames :=
  World.attended_iff.2 fun _ _ => .inr ⟨f, hf, Frame.passes_examines h⟩

theorem Marked.waits {q' : PdevQueue} (h : Marked (w.pdevQ .nonScan) q')
    (hv : (w.setQ .nonScan q').Waits v) : w.Waits v :=
  h.rest.1.waits v hv

/-- What is pending is not about to be activated. -/
theorem MarkedActive.not_pending (hM : MarkedActive w frames) (hP : Placed vdevs w)
    (hn : n ∈ (w.pdevQ k).list false) :
    ((w.pdevQ k).nodes n).inUse.markedForActivation ≠ true := by
  intro hm
  have hnot : n ∉ (w.pdevQ k).held (.list false) :=
    hP.notMem (p := .list true) (hM k n hm) (by simp)
  exact hnot hn

/-- **A pass over the list of the pdev** leaves all that is pending held, or goes on. -/
theorem movePass_attended (hB : Base vdevs w frames) (hM : MarkedActive w frames) :
    (movePass w).1.Attended ((movePass w).2 ++ others) := by
  rw [movePass]
  obtain ⟨hm, hpick⟩ := pickFromPdev_spec (w.pdevQ .nonScan) (w.pdevQ .nonScan).pendingList
  have hnone := @World.Held.of_none w vdevs
  revert hm hpick hnone
  generalize pickFromPdev (w.pdevQ .nonScan) (w.pdevQ .nonScan).pendingList = res
  rintro hm hpick hnone
  obtain ⟨hr, hf⟩ := hm.rest
  obtain ⟨q', _ | ⟨n, c⟩⟩ := res
  · have hkeeps : Keeps w (w.setQ .nonScan q') [] :=
      .of_eq hr.waits (by rw [hf]) (by rw [hf]) hr.waiters
    exact hkeeps.attended (.of_held fun v => hnone hB.placed rfl)
  · obtain ⟨hn, hc, hv, -⟩ := hpick n c rfl
    have hrest : Effect vdevs w [] .rest (w.setQ .nonScan q') [] := .rest hr hf (by simp) (by simp)
    have hB' : Base vdevs (w.setQ .nonScan q') ([] ++ frames) := .effect hrest hB
    have hM' : MarkedActive (w.setQ .nonScan q') frames := fun k m h => by
      rw [hr.list]
      exact hM k m (hr.marked k m h)
    have hcase : MoveCase (w.setQ .nonScan q') c (moveToActive (w.setQ .nonScan q') .nonScan c) :=
      moveToActive_case hB' (hr.list .nonScan false ▸ hn) (hr.cmd .nonScan n ▸ hc)
        (fun _ => hf ▸ hv) (by simp)
    simp only
    revert hcase
    generalize moveToActive (w.setQ .nonScan q') .nonScan c = res
    rintro (⟨w', m, hn, hm⟩ | ⟨w', m, hs⟩)
    · exact absurd hm (hM'.not_pending hB'.placed hn)
    · exact .of_passes (f := .moveOn) (by simp) rfl

/-- What a frame that clears flags of pending commands will do. -/
theorem Frame.passes_of_clears {b : Bool} {g : ℕ → Bool → Bool} (h : f.clears b g = true) :
    f.passes = true := by
  cases f with
  | cancelOn k => cases k <;> first | rfl | cases h
  | _ => cases h

/-- The count of waiting commands is that of the pending blocking ones, but for those
    of cancels that are not at their end. -/
theorem WaitingCounted.passes (hW : WaitingCounted w frames) (hP : Placed vdevs w)
    (hw : w.flags.waiting = 0) (hne : w.waiters ≠ 0) : ∃ f ∈ frames, f.passes = true := by
  have hlt := hP.waiters_lt
  rw [WaitingCounted, World.occupied] at hW
  have hwait : w.num .nonScan false (fun c => c.isBlocking) = w.waiters := rfl
  have hpos : 0 < frames.countP (Frame.clears false fun _ blocking => blocking) := by
    rw [hwait] at hW
    omega
  obtain ⟨f, hf, hc⟩ := List.countP_pos_iff.1 hpos
  exact ⟨f, hf, Frame.passes_of_clears hc⟩

/-- The other way. -/
theorem WaitingCounted.pending (hW : WaitingCounted w frames) (hw : w.flags.waiting ≠ 0) :
    w.waiters ≠ 0 ∨ ∃ f ∈ frames, f.passes = true := by
  rw [WaitingCounted, World.occupied] at hW
  have hwait : w.num .nonScan false (fun c => c.isBlocking) = w.waiters := rfl
  by_cases hz : w.waiters = 0
  · have hpos : 0 < frames.countP (Frame.clears false fun _ blocking => blocking) := by
      rw [hwait, hz] at hW
      by_contra h
      have : frames.countP (Frame.clears false fun _ blocking => blocking) = 0 := by omega
      rw [this] at hW
      exact hw hW
    obtain ⟨f, hf, hc⟩ := List.countP_pos_iff.1 hpos
    exact .inr ⟨f, hf, Frame.passes_of_clears hc⟩
  · exact .inl hz

theorem pickFromVdev_none {q : PdevQueue} {l : List ℕ} (h : pickFromVdev q l = none)
    (hn : l.head? = some n) (hc : (q.nodes n).cmd = some c) :
    c.vdev ∈ q.flags.bits ∨ (q.nodes n).inUse.markedForMovement = true := by
  cases l with
  | nil => cases hn
  | cons m l =>
    obtain rfl : m = n := by simpa using hn
    rw [pickFromVdev] at h
    simp only [hc] at h
    split at h
    · assumption
    · cases h

/-- The list of a vdev with a pending command has a first one, of the vdev. -/
theorem World.Waits.head (h : w.Waits v) (hs : Synced w) : ∃ n c,
    (w.vdevQ v).pendingList.head? = some n ∧ ((w.pdevQ .nonScan).nodes n).cmd = some c ∧
      c.vdev = v := by
  obtain ⟨m, hm, c, hc, hv⟩ := h.mem
  have hsync : (w.vdevQ v).pendingList = _ := hs v false
  have hmem : m ∈ (w.vdevQ v).pendingList := by
    rw [hsync]
    exact List.mem_filter.2 ⟨hm, by simp [PdevQueue.ofVdev, hc, hv]⟩
  cases hl : (w.vdevQ v).pendingList with
  | nil => simp [hl] at hmem
  | cons n l =>
    have hof : (w.pdevQ .nonScan).ofVdev v n = true :=
      List.of_mem_filter (hsync ▸ hl ▸ List.mem_cons_self : n ∈ _)
    cases hn : ((w.pdevQ .nonScan).nodes n).cmd with
    | none => simp [PdevQueue.ofVdev, hn] at hof
    | some c' => exact ⟨n, c', rfl, hn, by simpa [PdevQueue.ofVdev, hn] using hof⟩

/-- **The move of the first pending command of a vdev** leaves the vdev held. -/
theorem moveVdev_attended (hB : Base vdevs w (.move .nonScan (some v) false :: others))
    (hM : MarkedActive w frames)
    (hW : WaitingCounted w (.move .nonScan (some v) false :: others))
    (hu : (Frame.move .nonScan (some v) false).Unmarked w)
    (hz : (w.pdevQ .nonScan).blockingCmdWaiting = 0)
    (h : w.Attended (.move .nonScan (some v) false :: others)) :
    (wlanSerMoveNonScanPendingToActive w (some v) false).1.Attended
      ((wlanSerMoveNonScanPendingToActive w (some v) false).2 ++ others) := by
  have hP := hB.placed
  by_cases hw : w.waiters = 0
  · -- the frame looks at `v` only
    have hothers : ∀ v' ≠ v, w.Waits v' → w.Held v' ∨ ∃ f ∈ others, w.examines v' f = true := by
      intro v' hne hv
      rcases World.attended_iff.1 h v' hv with hh | ⟨f, hf, he⟩
      · exact .inl hh
      · rcases List.mem_cons.1 hf with rfl | hf
        · simp [World.examines, hw, Ne.symm hne] at he
        · exact .inr ⟨f, hf, he⟩
    have hall : ∀ {w' : World} {fs' : List Frame}, Keeps w w' fs' → (w'.Waits v → w'.Held v) →
        w'.Attended (fs' ++ others) := by
      intro w' fs' hk hv
      refine World.attended_iff.2 fun v' hv' => ?_
      by_cases hne : v' = v
      · subst hne
        exact .inl (hv hv')
      · exact hk.serves (hothers v' hne (hk.waits v' hv'))
    rw [wlanSerMoveNonScanPendingToActive]
    simp only [hz, Bool.not_false, beq_self_eq_true, Bool.and_true, if_true]
    cases hpick : pickFromVdev (w.pdevQ .nonScan) (w.vdevQ v).pendingList with
    | none =>
      refine hall (.of_eq (fun _ => id) rfl rfl rfl) fun hv => ?_
      obtain ⟨n, c, hn, hc, rfl⟩ := hv.head hP.synced
      by_cases hbit : c.vdev ∈ w.flags.bits
      · exact .inl hbit
      · have hmark := (pickFromVdev_none hpick hn hc).resolve_left hbit
        rw [hu hz hbit n hn] at hmark
        cases hmark
    | some p =>
      obtain ⟨n, c⟩ := p
      obtain ⟨hn, hc, hbit⟩ := pickFromVdev_spec hpick
      have hn : n ∈ (w.vdevQ v).list false := hn
      rw [hP.synced, List.mem_filter] at hn
      obtain rfl : c.vdev = v := by simpa [PdevQueue.ofVdev, hc] using hn.2
      obtain ⟨c', hc', hk, -⟩ := hP.cmd .nonScan false n hn.1
      obtain rfl : c = c' := by simpa [hc] using hc'
      have hcase : MoveCase w c (moveToActive w .nonScan c) :=
        moveToActive_case hB hn.1 hc (fun _ => hbit) (by simp)
      simp only
      revert hcase
      generalize moveToActive w .nonScan c = res
      rintro (⟨w', m, hm, hmark⟩ | ⟨w', m, hs, hf⟩)
      · exact absurd hmark (hM.not_pending hP hm)
      · have he : Effect vdevs w [] (.move m c) w' [.activate c.kind m] :=
          .move m c hs (fun _ => hbit) hf (by simp) (by simp [Frame.idle])
        refine hall (he.keeps hP (by simp) (by simp)) fun _ => .inl ?_
        show c.vdev ∈ w'.flags.bits
        rw [hf, if_pos hk, (Flags.unwait_frame _ _).1]
        exact Finset.mem_insert_self _ _
  · obtain ⟨f, hf, hp⟩ := hW.passes hP hz hw
    rcases List.mem_cons.1 hf with rfl | hf
    · cases hp
    · exact .of_passes (List.mem_append_right _ hf) hp

/-! ## Requests -/

/-- Why a request that is no scan goes to the pending list. -/
theorem World.target_false (w : World) {cmd : Command} (hk : cmd.kind = .nonScan)
    (h : w.target cmd = false) :
    (w.vdevQ cmd.vdev).pendingList ≠ [] ∨ (cmd.isBlocking = true ∧ w.flags.bits ≠ ∅) ∨
    w.flags.blocking = true ∨ w.flags.waiting ≠ 0 ∨ cmd.vdev ∈ w.flags.bits := by
  rw [World.target, isActiveCmdAllowed, hk] at h
  simp only [isActiveNonScanCmdAllowed, Bool.and_eq_false_iff] at h
  rcases h with h | h
  · by_cases hb : cmd.isBlocking = true
    · rw [if_pos hb] at h
      split at h
      · rename_i hany
        exact .inr (.inl ⟨hb, of_decide_eq_true hany⟩)
      · cases h
    · rw [if_neg hb] at h
      split at h
      · rename_i hflag
        rcases hflag with hflag | hflag
        · exact .inr (.inr (.inl hflag))
        · refine .inr (.inr (.inr (.inl fun hz => hflag ?_)))
          rw [show (w.pdevQ .nonScan).blockingCmdWaiting = 0 from hz]
      · exact .inr (.inr (.inr (.inr (of_not_not fun hv => of_decide_eq_false h hv))))
  · exact .inl fun hnil => by simp [hnil] at h

/-- While some blocking command waits, every vdev is held or examined. -/
theorem World.Attended.all (h : w.Attended frames) (hw : w.waiters ≠ 0) (v : ℕ) :
    w.Held v ∨ ∃ f ∈ frames, w.examines v f = true := by
  obtain ⟨n, hn, hb⟩ := World.waiters_ne_zero.1 hw
  cases hc : ((w.pdevQ .nonScan).nodes n).cmd with
  | none => simp [PdevQueue.isBlocking, hc] at hb
  | some c =>
    rcases h n hn c hc with (hv | hv | ⟨-, hne⟩) | ⟨f, hf, he⟩
    · exact .inl (.inr (.inr ⟨hw, Finset.ne_empty_of_mem hv⟩))
    · exact .inl (.inr (.inl hv))
    · exact .inl (.inr (.inr ⟨hw, hne⟩))
    · exact .inr ⟨f, hf, World.examines_all hw he v⟩

/-- **A request** leaves what is pending held, or some frame to look at it. -/
theorem enqueue_attended {cmd : Command} (hB : Base vdevs w frames) (hv : cmd.vdev ∈ vdevs.ids)
    (hW : WaitingCounted w frames) (h : w.Attended frames) :
    (wlanSerializationEnqueueCmd w cmd).1.Attended
      ((wlanSerializationEnqueueCmd w cmd).2 ++ frames) := by
  have hP := hB.placed
  rcases enqueue_effect hB hv with ⟨-, n, he⟩ | ⟨-, lab, he, hlab⟩
  · cases ht : w.target cmd with
    | true =>
      rw [ht] at he
      exact (he.keeps hP (by simp) (by simp)).attended h
    | false =>
      rw [ht] at he
      revert he
      generalize wlanSerializationEnqueueCmd w cmd = res
      obtain ⟨w', fs'⟩ := res
      intro he
      cases he with
      | accept b n c hs hid hnew hadm hf =>
        obtain ⟨hbits, hblock⟩ := Flags.wait_frame w.flags { cmd with req := w.nextReq }
        rw [if_neg (by simp)] at hf
        rw [← hf] at hbits hblock
        have hwaiters := hs.num hP .nonScan false Command.isBlocking
        rw [if_neg (by simp), Nat.add_zero, ← World.waiters_eq, ← World.waiters_eq] at hwaiters
        have hmore : w.waiters ≠ 0 → w'.waiters ≠ 0 := fun hne hz => by
          rw [hwaiters] at hz
          exact hne (Nat.add_eq_zero_iff.1 hz).1
        have hholds : Holds w w' fs' :=
          .of_le (by rw [hbits]) (by rw [hblock]; exact id) fun hne => .inl (hmore hne)
        refine World.attended_iff.2 fun v' hv' => ?_
        by_cases hold : w.Waits v'
        · exact hholds.serves (World.attended_iff.1 h v' hold)
        · -- the command that is new waits
          have hnum := hs.num hP .nonScan false (·.vdev == v')
          obtain ⟨hk, rfl⟩ : cmd.kind = .nonScan ∧ cmd.vdev = v' := by
            by_contra hne
            rw [if_neg (by simp), if_neg fun h => hne ⟨h.1.symm, by simpa using h.2.2⟩] at hnum
            exact hold (by rwa [World.Waits, ← Nat.add_zero (w.num _ _ _), ← hnum])
          rcases w.target_false hk ht with hne | ⟨hb, hne⟩ | hflag | hne | hbit
          · refine absurd ?_ hold
            rw [World.Waits, ← length_vdev_list hP.synced]
            exact List.length_pos_iff.2 hne
          · refine .inl (.inr (.inr ⟨?_, ?_⟩))
            · rw [hwaiters, if_pos ⟨hk.symm, rfl, hb⟩]
              exact Nat.succ_ne_zero _
            · show w'.flags.bits ≠ ∅
              rwa [hbits]
          · exact hholds.serves (.inl (.inr (.inl hflag)))
          · rcases hW.pending hne with hw | ⟨f, hf, hp⟩
            · exact hholds.serves (h.all hw _)
            · exact .inr ⟨f, List.mem_append_right _ hf, Frame.passes_examines hp⟩
          · exact hholds.serves (.inl (.inl hbit))
  · refine (he.keeps hP ?_ ?_).attended h
    · rintro n c rfl
      simp at hlab
    · rintro v blocking rfl
      simp at hlab

/-! ## Sections -/

/-- An effect, but a request or the clearing of flags, where the rest of the frames
    looks at what is not held. -/
theorem Turned.attended {res : World × List Frame} (hP : Placed vdevs w) (h : Turned vdevs w f res)
    (hf : f.passes = false) (ha : w.Attended others) : res.1.Attended (res.2 ++ others) := by
  obtain ⟨w', fs'⟩ := res
  obtain ⟨lab, he, hlab⟩ := h
  refine (he.keeps hP ?_ ?_).attended ha
  · rintro n c rfl
    exact hlab
  · rintro v blocking rfl
    cases he
    cases hf

/-- A cancel of commands that are no scans goes on, or ends where the rest of the
    frames looks at what is not held. -/
theorem cancelFrom_attended (hB : Base vdevs w frames) (r : CancelReq) (active stopped : Bool)
    (prev : Option ℕ) (left : ℕ)
    (ha : active = false → (cancelFrom w .nonScan r active stopped prev left).2 = [] →
      w.Attended others) :
    (cancelFrom w .nonScan r active stopped prev left).1.Attended
      ((cancelFrom w .nonScan r active stopped prev left).2 ++ others) := by
  have hidle : ∀ f ∈ ([] : List Frame), f.idle = true := by simp
  obtain ⟨lab, he, hlab⟩ := cancelFrom_effect hB .nonScan r active stopped prev left hidle
  revert he hlab ha
  generalize cancelFrom w .nonScan r active stopped prev left = res
  obtain ⟨w', fs'⟩ := res
  rintro ha he (⟨rfl, rfl⟩ | ⟨n, c, rfl, hk⟩)
  · cases active with
    | true => exact .of_passes (f := .reactivate) (by simp [cancelEnd]) rfl
    | false => exact (he.keeps hB.placed (by simp) (by simp)).attended (ha rfl rfl)
  · cases he with
    | cancel b n c r prev' left' hs =>
      refine .of_passes (f := .cancelOn c.kind r active c.vdev c.isBlocking prev' left')
        (by simp) ?_
      rw [hk]
      rfl

/-- **A section of a call** leaves what is pending held, or some frame to look at
    it. -/
theorem Frame.run_attended (hB : Base vdevs w (f :: others)) (hM : MarkedActive w (f :: others))
    (hW : WaitingCounted w (f :: others)) (hu : f.Unmarked w) (ok : Bool)
    (hr : (f.run w ok).2 = [] → f.cancelsNonScan = true →
      w.Settled ∨ ∃ g ∈ others, g.passes = true)
    (h : w.Attended (f :: others)) :
    (f.run w ok).1.Attended ((f.run w ok).2 ++ others) := by
  have hP := hB.placed
  -- where a cancel ends, the rest of the frames looks at what is not held
  have hend : (f.run w ok).2 = [] → f.cancelsNonScan = true → w.Attended others := fun hnil hc => by
    rcases hr hnil hc with hs | ⟨g, hg, hp⟩
    · exact .of_held fun v => hs.held hP
    · exact .of_passes hg hp
  have haside : (∀ v, w.examines v f = false) → f.passes = false →
      (f.run w ok).1.Attended ((f.run w ok).2 ++ others) := by
    intro hno hf
    have ha : w.Attended others := World.attended_iff.2 fun v hv => by
      refine (World.attended_iff.1 h v hv).imp_right ?_
      rintro ⟨g, hg, he⟩
      rcases List.mem_cons.1 hg with rfl | hg
      · simp [hno v] at he
      · exact ⟨g, hg, he⟩
    rcases Frame.run_effect hB ok with hturned | ⟨w₁, b, v, blocking, lab, hc, -⟩
    · exact hturned.attended hP hf ha
    · cases hc
      cases hf
  cases f with
  | move k vdev removed =>
    cases k with
    | scan => exact haside (fun _ => rfl) rfl
    | nonScan =>
      cases vdev with
      | none => exact movePass_attended hB hM
      | some v =>
        by_cases hm : (!removed && (w.pdevQ .nonScan).blockingCmdWaiting == 0) = true
        · rw [Bool.and_eq_true, Bool.not_eq_true', beq_iff_eq] at hm
          obtain ⟨rfl, hz⟩ := hm
          exact moveVdev_attended hB hM hW hu hz h
        · simp only [Frame.run, wlanSerMoveNonScanPendingToActive, hm, if_false, Bool.false_eq_true]
          exact movePass_attended hB hM
  | moveOn =>
    simp only [Frame.run]
    split
    · rename_i hb
      exact .of_held fun v _ => .inr (.inl hb)
    · exact movePass_attended hB hM
  | cancel k r active =>
    cases k with
    | scan => exact haside (fun _ => rfl) rfl
    | nonScan => exact cancelFrom_attended hB r active ok none _ fun _ hnil => hend hnil rfl
  | cancelOn k r active v blocking prev left =>
    cases k with
    | scan => exact haside (fun _ => rfl) rfl
    | nonScan =>
      have hclear : Effect vdevs w _ _ _ [] := clearCancelled_effect w r active v blocking prev left
      have hB' : Base vdevs _ ([] ++ others) := .effect hclear hB
      simp only [Frame.run, cancelResume] at hend ⊢
      split at hend
      · rename_i hone
        rw [if_pos hone]
        cases active with
        | true => exact .of_passes (f := .reactivate) (by simp [cancelEnd]) rfl
        | false => exact (hclear.keeps hP (by simp) (by simp)).attended (hend rfl rfl)
      · rename_i hmore
        rw [if_neg hmore]
        refine cancelFrom_attended hB' r active ok prev left fun hact hnil => ?_
        subst hact
        exact (hclear.keeps hP (by simp) (by simp)).attended (hend hnil rfl)
  | reactivate =>
    simp only [Frame.run] at hend ⊢
    split at hend
    · rename_i hempty
      rw [if_pos hempty]
      exact .of_passes (f := .move .nonScan none false) (by simp) rfl
    · rename_i hempty
      rw [if_neg hempty]
      exact hend rfl rfl
  | _ => exact haside (fun _ => rfl) rfl

/-! ## Scans -/

/-- What is active and what frames will move do not become fewer, or a frame is a
    cancel of active scans. -/
theorem World.ScansAttended.of_le (h : w.ScansAttended others)
    (hp : (w.pdevQ .scan).pendingList = [] → (w'.pdevQ .scan).pendingList = [])
    (hle : (w.pdevQ .scan).activeList.length + w.scansElsewhere ≤
      (w'.pdevQ .scan).activeList.length + w'.scansElsewhere + fs'.countP Frame.movesScan) :
    w'.ScansAttended (fs' ++ others) := by
  rcases h with h | h | ⟨f, hf, hc⟩
  · exact .inl (hp h)
  · refine .inr (.inl ?_)
    rw [List.countP_append]
    omega
  · exact .inr (.inr ⟨f, List.mem_append_right _ hf, hc⟩)

/-- The active scans that a shift leaves. -/
theorem Shift.scans {p p' : Place} (h : Shift w w' n c p p') :
    (w'.pdevQ .scan).activeList.length + (if c.kind = .scan ∧ p = .list true then 1 else 0) =
      (w.pdevQ .scan).activeList.length + (if c.kind = .scan ∧ p' = .list true then 1 else 0) := by
  have hlist : (w'.pdevQ .scan).activeList = _ := h.list .scan true
  rw [hlist]
  by_cases hk : c.kind = .scan
  · have hmem := h.mem
    rw [hk] at hmem
    simp only [hk, if_true, true_and]
    by_cases hp : p = .list true
    · subst hp
      have hmem : n ∈ (w.pdevQ .scan).list true := hmem
      rw [if_pos rfl, if_pos rfl, if_neg h.ne.symm, List.length_erase_of_mem hmem,
        Nat.sub_add_cancel (List.length_pos_of_mem hmem)]
      rfl
    · rw [if_neg (Ne.symm hp), if_neg hp]
      by_cases hp' : p' = .list true
      · subst hp'
        rw [if_pos rfl, if_pos rfl]
        cases hf : c.isHighPriority <;> simp [insertNode, PdevQueue.list]
      · rw [if_neg (Ne.symm hp'), if_neg hp']
        rfl
  · rw [if_neg (Ne.symm hk), if_neg fun h => hk h.1, if_neg fun h => hk h.1]
    rfl

theorem Shift.noScans {p p' : Place} (h : Shift w w' n c p p')
    (hc : c.kind = .scan → p' ≠ .list false) (hnil : (w.pdevQ .scan).pendingList = []) :
    (w'.pdevQ .scan).pendingList = [] := by
  have hlist : (w'.pdevQ .scan).pendingList = _ := h.list .scan false
  have hnil : (w.pdevQ .scan).list false = [] := hnil
  rw [hlist, hnil]
  by_cases hk : c.kind = .scan
  · rw [if_pos hk.symm, if_neg (Ne.symm (hc hk))]
    split <;> simp
  · rw [if_neg (Ne.symm hk)]

/-- **What an effect leaves of the pending scans**, but for a request that is one. -/
theorem Effect.scans (h : Effect vdevs w fs lab w' fs')
    (ha : ∀ n c, lab = .accept false n c → c.kind ≠ .scan) (hs : w.ScansAttended others) :
    w'.ScansAttended (fs' ++ others) := by
  have hrest : Rest w w' → w'.ScansAttended (fs' ++ others) := fun h => by
    have hp : (w'.pdevQ .scan).pendingList = (w.pdevQ .scan).pendingList := h.list .scan false
    have hact : (w'.pdevQ .scan).activeList = (w.pdevQ .scan).activeList := h.list .scan true
    refine hs.of_le (by rw [hp]; exact id) ?_
    rw [hact, h.elsewhere]
    exact Nat.le_add_right _ _
  cases h with
  | rest h | refuse _ h | clear _ _ _ _ _ _ h => exact hrest h
  | release req => exact hs
  | accept b n c h =>
    have hle := h.scans
    rw [if_neg (by simp)] at hle
    refine hs.of_le (h.noScans fun hk hp => ?_) ?_
    · cases hp
      exact ha n c rfl hk
    · rw [h.elsewhere]
      omega
  | move n c h =>
    have hle := h.scans
    rw [if_neg (by simp)] at hle
    refine hs.of_le (h.noScans (by simp)) ?_
    rw [h.elsewhere]
    omega
  | remove n c h =>
    have hle := h.scans
    refine hs.of_le (h.noScans (by simp)) ?_
    rw [h.elsewhere]
    by_cases hk : c.kind = .scan
    · simp only [hk, true_and, if_true, reduceCtorEq, if_false, List.countP_cons] at hle ⊢
      simp only [Frame.movesScan, if_true, List.countP_nil]
      omega
    · simp only [hk, false_and, if_false] at hle
      omega
  | cancel b n c r prev left h =>
    have hle := h.scans
    by_cases hk : c.kind = .scan ∧ b = true
    · refine .inr (.inr ⟨.cancelOn c.kind r b c.vdev c.isBlocking prev left, by simp, ?_⟩)
      rw [hk.1, hk.2]
      rfl
    · refine hs.of_le (h.noScans (by simp)) ?_
      rw [if_neg fun h => hk ⟨h.1, by simpa using h.2⟩] at hle
      rw [h.elsewhere]
      omega

theorem World.ScansSettled.attended (h : w.ScansSettled) : w.ScansAttended frames := by
  refine h.imp_right fun h => .inl ?_
  have := of_decide_eq_false h
  omega

/-- **The move of a pending scan.** -/
theorem moveScan_attended (hB : Base vdevs w (f :: others)) (hM : MarkedActive w frames)
    (hf : f.movesScan = true) (hc : f.cancelsScan = false) (h : w.ScansAttended (f :: others)) :
    (wlanSerMoveScanPendingToActive w).1.ScansAttended
      ((wlanSerMoveScanPendingToActive w).2 ++ others) := by
  rw [wlanSerMoveScanPendingToActive]
  cases hl : (w.pdevQ .scan).pendingList with
  | nil => exact .inl hl
  | cons n l =>
    have hmem : n ∈ (w.pdevQ .scan).list false := by
      rw [show (w.pdevQ .scan).list false = n :: l from hl]
      exact List.mem_cons_self
    obtain ⟨c, hcmd, hk, -⟩ := hB.placed.cmd .scan false n hmem
    simp only [hcmd]
    by_cases ha : isActiveScanCmdAllowed w = true
    · rw [if_pos ha]
      have hlen : ((w.pdevQ .scan).list true).length < Kind.scan.maxSize true := by
        have ha : (w.pdevQ .scan).activeList.length + w.scansElsewhere < maxActiveScans :=
          of_decide_eq_true ha
        exact lt_of_le_of_lt (Nat.le_add_right _ _) ha
      have hcase := moveToActive_case hB hmem hcmd (by simp) fun _ => hlen
      revert hcase
      generalize moveToActive w .scan c = res
      rintro (⟨w', m, hm, hmark⟩ | ⟨w', m, hs⟩)
      · exact absurd hmark (hM.not_pending hB.placed hm)
      · have hle := hs.scans
        simp only [hk, true_and, Place.list.injEq, Bool.false_eq_true, if_false, if_true] at hle
        rcases h with h | h | ⟨g, hg, hgc⟩
        · simp [h] at hl
        · refine .inr (.inl ?_)
          rw [List.countP_cons, if_pos hf] at h
          simp only [hs.elsewhere, List.countP_append]
          omega
        · refine .inr (.inr ⟨g, ?_, hgc⟩)
          rcases List.mem_cons.1 hg with rfl | hg
          · rw [hc] at hgc
            cases hgc
          · exact List.mem_append_right _ hg
    · rw [if_neg ha]
      exact World.ScansSettled.attended (.inr (by simpa using ha))

/-- A cancel of active scans goes on or is at its end. -/
theorem cancelFrom_scans (hB : Base vdevs w frames) (r : CancelReq) (stopped : Bool)
    (prev : Option ℕ) (left : ℕ) :
    (cancelFrom w .scan r true stopped prev left).2 = [] ∨
    ∃ g ∈ (cancelFrom w .scan r true stopped prev left).2, g.cancelsScan = true := by
  have hidle : ∀ f ∈ ([] : List Frame), f.idle = true := by simp
  obtain ⟨lab, he, hlab⟩ := cancelFrom_effect hB .scan r true stopped prev left hidle
  revert he hlab
  generalize cancelFrom w .scan r true stopped prev left = res
  obtain ⟨w', fs'⟩ := res
  rintro he (⟨rfl, rfl⟩ | ⟨n, c, rfl, hk⟩)
  · exact .inl rfl
  · cases he with
    | cancel b n c r prev' left' hs =>
      refine .inr ⟨.cancelOn c.kind r true c.vdev c.isBlocking prev' left', by simp, ?_⟩
      rw [hk]
      rfl

/-- **A section of a call** leaves the pending scans waiting for the active ones, or
    some frame to look at them. -/
theorem Frame.run_scans (hB : Base vdevs w (f :: others)) (hM : MarkedActive w (f :: others))
    (ok : Bool)
    (hr : (f.run w ok).2 = [] → f.cancelsScan = true →
      w.ScansSettled ∨ ∃ g ∈ others, g.cancelsScan = true)
    (h : w.ScansAttended (f :: others)) :
    (f.run w ok).1.ScansAttended ((f.run w ok).2 ++ others) := by
  have hrun : w.ScansAttended others →
      (f.run w ok).1.ScansAttended ((f.run w ok).2 ++ others) := by
    intro h
    rcases Frame.run_effect hB ok with ⟨lab, he, hlab⟩ | ⟨w₁, b, v, blocking, lab, hc, he, hlab⟩
    · refine he.scans ?_ h
      rintro n c rfl
      exact hlab.elim
    · refine he.scans ?_ (hc.scans (by simp) h)
      rintro n c rfl
      simp at hlab
  by_cases hmove : f.movesScan = true
  · cases f with
    | move k vdev removed =>
      cases k with
      | scan => exact moveScan_attended hB hM rfl rfl h
      | nonScan => cases hmove
    | _ => cases hmove
  · by_cases hcancel : f.cancelsScan = true
    · have hgo : (f.run w ok).2 = [] ∨ ∃ g ∈ (f.run w ok).2, g.cancelsScan = true := by
        cases f with
        | cancel k r active =>
          cases k <;> cases active <;> first
            | exact cancelFrom_scans hB r ok none _
            | cases hcancel
        | cancelOn k r active v blocking prev left =>
          cases k <;> cases active <;> first
            | exact cancelFrom_scans hB r ok prev left
            | cases hcancel
        | _ => cases hcancel
      rcases hgo with hnil | ⟨g, hg, hgc⟩
      · rcases hr hnil hcancel with hs | hg
        · exact hrun hs.attended
        · exact hrun (.inr (.inr hg))
      · exact .inr (.inr ⟨g, List.mem_append_left _ hg, hgc⟩)
    · refine hrun ?_
      rcases h with h | h | ⟨g, hg, hgc⟩
      · exact .inl h
      · rw [List.countP_cons, if_neg hmove] at h
        exact .inr (.inl h)
      · rcases List.mem_cons.1 hg with rfl | hg
        · exact absurd hgc hcancel
        · exact .inr (.inr ⟨g, hg, hgc⟩)

/-- **A request** leaves the pending scans so too. -/
theorem enqueue_scans {cmd : Command} (hB : Base vdevs w frames) (hv : cmd.vdev ∈ vdevs.ids)
    (h : w.ScansAttended frames) :
    (wlanSerializationEnqueueCmd w cmd).1.ScansAttended
      ((wlanSerializationEnqueueCmd w cmd).2 ++ frames) := by
  rcases enqueue_effect hB hv with ⟨-, n, he⟩ | ⟨-, lab, he, hlab⟩
  · by_cases hc : w.target cmd = false ∧ cmd.kind = .scan
    · obtain ⟨ht, hk⟩ := hc
      have hfull : maxActiveScans ≤ (w.pdevQ .scan).activeList.length + w.scansElsewhere +
          frames.countP Frame.movesScan ∨ ∃ f ∈ frames, f.cancelsScan = true := by
        rw [World.target, isActiveCmdAllowed, hk] at ht
        simp only [Bool.and_eq_false_iff] at ht
        rcases ht with ht | ht
        · have := of_decide_eq_false ht
          exact .inl (by omega)
        · exact h.resolve_left fun hnil => by simp [hnil] at ht
      rw [ht] at he
      revert he
      generalize (wlanSerializationEnqueueCmd w cmd).1 = w'
      generalize (wlanSerializationEnqueueCmd w cmd).2 = fs'
      intro he
      cases he with
      | accept b n c hs =>
        have hle := hs.scans
        rw [if_neg (by simp), if_neg (by simp)] at hle
        rcases hfull with hfull | ⟨f, hf, hfc⟩
        · refine .inr (.inl ?_)
          rw [hs.elsewhere, List.countP_append]
          omega
        · exact .inr (.inr ⟨f, List.mem_append_right _ hf, hfc⟩)
    · refine he.scans ?_ h
      rintro n c hlab
      simp only [Label.accept.injEq] at hlab
      obtain ⟨ht, -, rfl⟩ := hlab
      exact fun hk => hc ⟨ht, hk⟩
  · refine he.scans ?_ h
    rintro n c rfl
    simp at hlab

/-! ## Runs -/

/-- What is pending waits for what is active, or some frame will look at it. -/
def Served (w : World) (frames : List Frame) : Prop :=
  w.Attended frames ∧ w.ScansAttended frames

/-- What the invariants of the flags say. -/
structure Known (vdevs : Vdevs) (w : World) (frames : List Frame) : Prop where
  base : Base vdevs w frames
  marked : MarkedActive w frames
  counted : WaitingCounted w frames

theorem Known.perm (hp : fs.Perm fs') (h : Known vdevs w fs) : Known vdevs w fs' where
  base := (Base.kept .free).perm hp h.base
  marked := h.marked
  counted := (WaitingCounted.kept : Kept vdevs countedGuard WaitingCounted).perm hp h.counted

theorem Frame.run_todo (hB : Base vdevs w (f :: others)) (ok : Bool) :
    (f.run w ok).1.todo = w.todo := by
  rcases Frame.run_effect hB ok with ⟨lab, he, -⟩ | ⟨w₁, b, v, blocking, lab, hc, he, -⟩
  · exact he.todo
  · exact he.todo.trans hc.todo

theorem Served.perm (hp : fs.Perm fs') (h : Served w fs) : Served w fs' := by
  refine ⟨fun n hn c hc => ?_, ?_⟩
  · exact (h.1 n hn c hc).imp_right fun ⟨f, hf, he⟩ => ⟨f, hp.mem_iff.1 hf, he⟩
  · rw [World.ScansAttended, ← hp.countP_eq]
    exact h.2.imp_right (Or.imp_right fun ⟨f, hf, hc⟩ => ⟨f, hp.mem_iff.1 hf, hc⟩)

/-- The frames of all the calls, in whatever order. -/
theorem Served.withTodo {todo : List (List Frame)} (hp : fs.Perm todo.flatten) (h : Served w fs) :
    Served { w with todo := todo } ({ w with todo := todo } : World).frames :=
  h.perm hp

/-- The frames of a new call come last. -/
theorem Served.start (h : Served w' (fs' ++ w.frames)) (ht : w'.todo = w.todo) :
    Served (w'.start fs') (w'.start fs').frames := by
  refine h.withTodo ?_
  rw [ht, List.flatten_append, List.flatten_singleton]
  exact List.perm_append_comm

theorem Served.mono (h : Served w fs) : Served w (fs' ++ fs) := by
  refine ⟨fun n hn c hc => ?_, ?_⟩
  · exact (h.1 n hn c hc).imp_right fun ⟨f, hf, he⟩ => ⟨f, List.mem_append_right _ hf, he⟩
  · exact h.2.of_le id (by omega)

theorem Served.exec {op : Op} (ha : op.Allowed vdevs w) (hr : op.Reexamines w)
    (hu : op.Unmarked w) (hK : Known vdevs w w.frames) (h : Served w w.frames) :
    Served (op.exec w) (op.exec w).frames := by
  cases op with
  | request cmd =>
    have htodo : (wlanSerializationEnqueueCmd w cmd).1.todo = w.todo := by
      rcases enqueue_effect hK.base ha with ⟨-, n, he⟩ | ⟨-, lab, he, -⟩ <;> exact he.todo
    exact Served.start (w := w) ⟨enqueue_attended hK.base ha hK.counted h.1,
      enqueue_scans hK.base ha h.2⟩ htodo
  | call call => exact Served.start (w := w) h.mono rfl
  | go t ok =>
    obtain ⟨f, rest, ht⟩ := ha
    have hfr : w.frames.Perm (f :: (rest ++ (w.todo.eraseIdx t).flatten)) := flatten_perm ht
    have hK := hK.perm hfr
    have h := h.perm hfr
    have hnext : f ∈ (Op.go t ok).next w := by simp [Op.next, ht]
    have hleft : (Op.go t ok).left w = rest ++ (w.todo.eraseIdx t).flatten := by
      simp [Op.left, ht]
    have hr : (f.run w ok).2 = [] → _ := hr f hnext
    rw [hleft] at hr
    have hlt : t < w.todo.length := (List.getElem?_eq_some_iff.1 ht).1
    have hdone : Served (f.run w ok).1 ((f.run w ok).2 ++ (rest ++ (w.todo.eraseIdx t).flatten)) :=
      ⟨Frame.run_attended hK.base hK.marked hK.counted (hu f hnext) ok
        (fun hnil => (hr hnil).1) h.1,
        Frame.run_scans hK.base hK.marked ok (fun hnil => (hr hnil).2) h.2⟩
    simp only [Op.exec, ht]
    rw [World.setTodo, Frame.run_todo hK.base]
    refine hdone.withTodo ?_
    rw [← List.append_assoc]
    exact (flatten_set_perm hlt ((f.run w ok).2 ++ rest)).symm
  | disable v =>
    have he : Effect vdevs w [] .rest _ [] := disable_effect w v
    exact ⟨(he.keeps hK.base.placed (by simp) (by simp)).attended h.1, he.scans (by simp) h.2⟩
  | scansElsewhere count =>
    refine ⟨h.1, ?_⟩
    by_cases hlt : count < w.scansElsewhere
    · exact (hr hlt).attended
    · refine h.2.imp_right (Or.imp_left fun hle => hle.trans ?_)
      have : w.scansElsewhere ≤ count := Nat.not_lt.1 hlt
      show _ ≤ (w.pdevQ .scan).activeList.length + count + w.frames.countP Frame.movesScan
      omega

/-- What is held waits for something, as no call is in progress. -/
theorem World.Held.waits (hb : BitsHeld w []) (hf : FlagHeld w []) (h : w.Held v) :
    (∃ m ∈ (w.pdevQ .nonScan).activeList, (w.pdevQ .nonScan).ofVdev v m = true) ∨
    (∃ m ∈ (w.pdevQ .nonScan).activeList, (w.pdevQ .nonScan).isBlocking m = true) ∨
    ((∃ m ∈ (w.pdevQ .nonScan).pendingList, (w.pdevQ .nonScan).isBlocking m = true) ∧
      (w.pdevQ .nonScan).activeList ≠ []) := by
  have hactive : ∀ u ∈ w.flags.bits, ∃ m ∈ (w.pdevQ .nonScan).activeList,
      (w.pdevQ .nonScan).ofVdev u m = true := by
    intro u hu
    have hone : w.num .nonScan true (fun c => c.vdev == u) + 0 = 1 := (hb u).trans (if_pos hu)
    have hpos : 0 < w.num .nonScan true fun c => c.vdev == u := by omega
    exact List.countP_pos_iff.1 hpos
  rcases h with h | h | ⟨hw, hne⟩
  · exact .inl (hactive v h)
  · exact .inr (.inl (List.countP_pos_iff.1 (hf h)))
  · obtain ⟨u, hu⟩ := Finset.nonempty_iff_ne_empty.2 hne
    obtain ⟨m, hm, -⟩ := hactive u hu
    exact .inr (.inr ⟨World.waiters_ne_zero.1 hw, List.ne_nil_of_mem hm⟩)

/-- **Nobody is stranded.**  In a run that counts the waiting blocking commands as
    `waiting_count` has it, moves no command that a pass has left marked, and ends no
    cancel where a pending command could be moved, every pending command waits for
    an active one whenever no call is in progress. -/
theorem nobody_stranded (h : ReachableUnder
      (fun w op => op.InPlace w ∧ op.Counted w ∧ op.Reexamines w ∧ op.Unmarked w) vdevs w)
    (hq : w.frames = []) : NobodyStranded w := by
  have hcounted : ∀ w op, op.InPlace w ∧ op.Counted w ∧ op.Reexamines w ∧ op.Unmarked w →
      countedGuard.Allows w op := fun _ _ h => h.2.1.allows
  have hserved : Served w w.frames := by
    clear hq
    induction h with
    | init => exact ⟨fun n hn => absurd hn (by simp [World.init, PdevQueue.init]), .inl rfl⟩
    | step h ha hc ih =>
      have hK : Known vdevs _ _ :=
        { base := (WaitingCounted.kept.reachable hcounted h).1
          marked := (MarkedActive.kept.reachable hcounted h).2
          counted := (WaitingCounted.kept.reachable hcounted h).2 }
      exact ih.exec ha hc.2.2.1 hc.2.2.2 hK
  have hbase := (WaitingCounted.kept.reachable hcounted h).1
  have hflag := (FlagHeld.kept.reachable hcounted h).2
  rw [hq] at hserved hbase hflag
  refine ⟨fun n hn v hv => ?_, fun hne => ?_⟩
  · obtain ⟨c, hc, hcv⟩ := (Option.any_eq_true _ _).1 hv
    obtain rfl : c.vdev = v := by simpa using hcv
    rcases hserved.1 n hn c hc with hh | ⟨f, hf, -⟩
    · exact hh.waits hbase.bits hflag
    · cases hf
  · rcases hserved.2 with h | h | ⟨f, hf, -⟩
    · exact absurd h hne
    · exact h
    · cases hf

/-- Three commands of a vdev are requested, and the one that is active is
    cancelled. -/
def cancelOps : List Op :=
  [.request (command 7 1 false), .go 0 true, .go 0 true, .request (command 8 1 false),
    .request (command 9 1 false), .call (.cancelRequest ⟨5, 7, 1⟩ .nonScanCmd true false),
    .go 3 true, .go 3 true, .go 3 true, .go 3 true, .go 3 true, .go 3 true, .go 3 true, .go 3 true]

theorem nobody_stranded_cancelled : NobodyStranded (execAll .init cancelOps) := by
  have hrun : Steps (fun w op => op.InPlace w ∧ op.Counted w ∧ op.Reexamines w ∧ op.Unmarked w)
      twoVdevs .init cancelOps := by
    decide
  exact nobody_stranded (.execAll .init hrun) (by decide)

/-- **A command whose vdev is free, and nobody looks.**  Vdev 1 and vdev 2 have an
    active command each, and vdev 1 a pending one.  The active command of vdev 1 is
    cancelled: as that of vdev 2 is still in the active list, the cancel ends without
    going over the pending list. -/
theorem cancelled_beside_another : ¬∀ (vdevs : Vdevs) (w : World),
    ReachableUnder (fun _ _ => True) vdevs w → w.frames = [] → NobodyStranded w := by
  intro h
  have hrun : Steps (fun _ _ => True) twoVdevs .init
      [.request (command 7 1 false), .go 0 true, .go 0 true, .request (command 9 2 false),
        .go 1 true, .go 1 true, .request (command 8 1 false),
        .call (.cancelRequest ⟨5, 7, 1⟩ .nonScanCmd true false), .go 3 true, .go 3 true,
        .go 3 true, .go 3 true] := by
    decide
  have hS := h twoVdevs _ (.execAll .init hrun) (by decide)
  exact absurd (hS.nonScan 2 (by decide) 1 (by decide)) (by decide)

end Sm8850.Serialization
