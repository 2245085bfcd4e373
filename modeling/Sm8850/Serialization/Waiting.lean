/-
  The count of waiting blocking commands of the serialization engine.

  * The admission test raises the count before it is known what becomes of the
    request.  `Op.Counted` is that a blocking request is put into the pending list if
    and only if it was counted.
  * `waiting_count`: then the count is that of the blocking commands in the pending
    list, and of those that a cancel has taken out and not yet counted off.
-/
import Sm8850.Serialization.Exclusive

namespace Sm8850.Serialization

variable {w w' : World} {vdevs : Vdevs} {n : ℕ} {c : Command} {frames fs fs' others : List Frame}

/-! ## Statement -/

/-- A blocking request that would go to the pending list is accepted if and only if
    a vdev has an active command, which is when it is counted. -/
def Op.Counted (w : World) : Op → Prop
  | .request cmd => cmd.kind = .nonScan → cmd.isBlocking = true →
      (w.vdevQ cmd.vdev).queueDisable = false → w.target cmd = false →
      (w.Accepts cmd ↔ (w.pdevQ .nonScan).anyVdevCmdActive = true)
  | _ => True

instance (w : World) (op : Op) : Decidable (op.Counted w) :=
  match op with
  | .request cmd => inferInstanceAs (Decidable (cmd.kind = .nonScan → _ → _ → _ → (_ ↔ _)))
  | .go _ _ | .call _ | .disable _ | .scansElsewhere _ => isTrue trivial

/-- The blocking commands in the pending list. -/
def World.waiters (w : World) : ℕ :=
  (w.pdevQ .nonScan).pendingList.countP (w.pdevQ .nonScan).isBlocking

/-- The blocking commands that a cancel has taken out of the pending list and not
    yet counted off. -/
def World.leaving (w : World) : ℕ := w.frames.countP (Frame.clears false fun _ blocking => blocking)

/-- **The count is right, and holds nobody back** when no blocking command is queued. -/
structure WaitingExact (w : World) : Prop where
  count : (w.pdevQ .nonScan).blockingCmdWaiting = w.waiters
  free : w.waiters = 0 → (w.pdevQ .nonScan).blockingCmdActive = false →
    ∀ cmd : Command, cmd.isBlocking = false →
      ((isActiveNonScanCmdAllowed (w.pdevQ .nonScan) cmd).1 = true ↔
        cmd.vdev ∉ (w.pdevQ .nonScan).vdevActiveCmdBitmap)

/-! ## The invariant -/

/-- The count, as the source keeps it. -/
def WaitingCounted (w : World) (frames : List Frame) : Prop :=
  w.flags.waiting = w.occupied frames false (fun _ blocking => blocking) % 65536

theorem inc16_mod (n : ℕ) : inc16 (n % 65536) = (n + 1) % 65536 := by
  rw [inc16]
  omega

theorem dec16_mod (n : ℕ) : dec16 ((n + 1) % 65536) = n % 65536 := by
  rw [dec16]
  omega

theorem Flags.waiting_note (f : Flags) (v : ℕ) (blocking : Bool) :
    (f.note v blocking).waiting = f.waiting := rfl

theorem Flags.waiting_clear (f : Flags) (v : ℕ) (blocking : Bool) :
    (f.clear v blocking).waiting = f.waiting := rfl

/-- One fewer. -/
theorem Flags.waiting_unwait {f : Flags} {blocking : Bool} {k k' : ℕ} (hf : f.waiting = k % 65536)
    (h : k' + (if blocking then 1 else 0) = k) : (f.unwait blocking).waiting = k' % 65536 := by
  cases blocking with
  | true =>
    subst h
    rw [Flags.unwait, if_pos rfl]
    show dec16 f.waiting = _
    rw [hf]
    exact dec16_mod k'
  | false =>
    subst h
    simpa [Flags.unwait] using hf

/-- The guard of the effects: a blocking command is counted if it becomes pending. -/
def countedGuard : Guard where
  move _ _ := True
  accept w b c := b = false → c.kind = .nonScan → c.isBlocking = true → w.flags.bits ≠ ∅
  refuse w c := c.kind = .nonScan → c.isBlocking = true → w.flags.bits = ∅

theorem WaitingCounted.kept : Kept vdevs countedGuard WaitingCounted where
  init := rfl
  aside _ _ h := h
  perm {w fs fs'} hp h := by
    rw [WaitingCounted] at h ⊢
    rw [h]
    simp only [World.occupied, hp.countP_eq]
  effect {w w' fs fs' others lab} hB he hG h := by
    have hbal := he.balance hB.placed others false fun _ blocking => blocking
    rw [WaitingCounted] at h ⊢
    generalize w.occupied (fs ++ others) false (fun _ blocking => blocking) = k at hbal h
    generalize w'.occupied (fs' ++ others) false (fun _ blocking => blocking) = k' at hbal ⊢
    cases he with
    | rest h' hf | cancel b n c r prev left h' hf =>
      rw [hf, h]
      exact congrArg (· % 65536) hbal.symm
    | refuse c h' hf =>
      -- a request that is refused was not counted
      have : w.flags.wait c = w.flags := by
        rw [Flags.wait, if_neg]
        rintro ⟨hk, hb, hne⟩
        exact hne (hG hk hb)
      rw [hf, this, h]
      exact congrArg (· % 65536) hbal.symm
    | accept b n c h' hv hnew ha hf =>
      rw [hf]
      by_cases hc : b = true ∧ c.kind = .nonScan
      · rw [if_pos hc, Flags.waiting_note, h]
        simp [Label.loss, Label.gain, hc] at hbal
        rw [hbal]
      · rw [if_neg hc, Flags.wait]
        by_cases hw : c.kind = .nonScan ∧ c.isBlocking = true
        · have hb : b = false := by
            by_contra hb
            exact hc ⟨by simpa using hb, hw.1⟩
          have hne := hG hb hw.1 hw.2
          simp [Label.loss, Label.gain, hw, hb] at hbal
          simp only [hw, hne, ne_eq, not_false_iff, and_self, if_true]
          rw [h, inc16_mod, hbal]
        · have : ¬(c.kind = .nonScan ∧ b = false ∧ c.isBlocking = true) := fun h => hw ⟨h.1, h.2.2⟩
          simp [Label.loss, Label.gain, this] at hbal
          rw [if_neg fun h => hw ⟨h.1, h.2.1⟩, h, hbal]
    | move n c h' ha hf =>
      rw [hf]
      by_cases hk : c.kind = .nonScan
      · rw [if_pos hk]
        refine Flags.waiting_unwait h ?_
        simpa [Label.loss, Label.gain, hk] using hbal
      · simp [Label.loss, Label.gain, hk] at hbal
        rw [if_neg hk, h, hbal]
    | remove n c h' hf =>
      rw [hf]
      simp [Label.loss, Label.gain] at hbal
      split
      · rw [Flags.waiting_clear, h, hbal]
      · rw [h, hbal]
    | clear b r v blocking prev left h' hf =>
      rw [hf]
      cases b with
      | true =>
        simp [Label.loss, Label.gain] at hbal
        rw [if_pos rfl, Flags.waiting_clear, h, hbal]
      | false =>
        rw [if_neg (by simp)]
        refine Flags.waiting_unwait h ?_
        simpa [Label.loss, Label.gain] using hbal
    | release req =>
      refine h.trans ?_
      exact congrArg (· % 65536) hbal.symm

theorem Op.Counted.allows {op : Op} (h : op.Counted w) : countedGuard.Allows w op := by
  cases op with
  | request cmd =>
    rw [Guard.Allows]
    have hadm := (isActiveCmdAllowed_spec w cmd).2.2
    have hany : (w.pdevQ .nonScan).anyVdevCmdActive = true ↔ w.flags.bits ≠ ∅ :=
      decide_eq_true_iff
    split
    · rename_i hacc
      intro hb hk hblock
      exact hany.1 ((h hk hblock (hacc.1 hk) hb).1 hacc)
    · rename_i hacc
      intro hd hk hblock
      cases hb : w.target cmd with
      | true =>
        have := (hadm hb hk).1
        rwa [Flags.Admits, if_pos hblock] at this
      | false =>
        by_contra hne
        exact hacc ((h hk hblock (hd hk) hb).2 (hany.2 hne))
  | go t ok => exact fun _ _ _ _ _ => trivial
  | _ => trivial

/-! ## Results -/

/-- There are fewer nodes than the count has values. -/
theorem Placed.waiters_lt (h : Placed vdevs w) : w.waiters < 65536 := by
  have hsub : (w.pdevQ .nonScan).pendingList ⊆ List.range Kind.nonScan.poolSize := by
    intro n hn
    have hone := h.once .nonScan n
    have hpos : 0 < ((w.pdevQ .nonScan).held (.list false)).count n := List.count_pos_iff.2 hn
    rw [List.mem_range]
    by_contra hlt
    rw [if_neg hlt] at hone
    omega
  have hlen := ((h.nodup .nonScan (.list false)).subperm hsub).length_le
  have hle : w.waiters ≤ (w.pdevQ .nonScan).pendingList.length := List.countP_le_length
  calc w.waiters ≤ (List.range Kind.nonScan.poolSize).length := hle.trans hlen
    _ < 65536 := by
        rw [List.length_range]
        decide

/-- **The count of waiting commands.**  In a run that puts a blocking request into
    the pending list if and only if it was counted, the count is that of the
    blocking commands in the pending list and of those that a cancel has yet to
    count off; so it is right when there are none of these. -/
theorem waiting_count (h : ReachableUnder (fun w op => op.InPlace w ∧ op.Counted w) vdevs w) :
    (w.pdevQ .nonScan).blockingCmdWaiting = (w.waiters + w.leaving) % 65536 ∧
    (w.leaving = 0 → WaitingExact w) := by
  obtain ⟨hB, hW⟩ := WaitingCounted.kept.reachable (fun _ _ h => h.2.allows) h
  have hcount : (w.pdevQ .nonScan).blockingCmdWaiting = (w.waiters + w.leaving) % 65536 := hW
  refine ⟨hcount, fun hl => ?_⟩
  have hexact : (w.pdevQ .nonScan).blockingCmdWaiting = w.waiters := by
    rw [hcount, hl, Nat.add_zero]
    exact Nat.mod_eq_of_lt hB.placed.waiters_lt
  refine ⟨hexact, fun hz hact cmd hb => ?_⟩
  rw [isActiveNonScanCmdAllowed, if_neg (by simp [hb]), hexact, hz, if_neg (by simp [hact])]
  exact decide_eq_true_iff

theorem waiting_count_blocking :
    ((execAll .init blockingOps).pdevQ .nonScan).blockingCmdWaiting =
      ((execAll .init blockingOps).waiters + (execAll .init blockingOps).leaving) % 65536 ∧
    ((execAll .init blockingOps).leaving = 0 → WaitingExact (execAll .init blockingOps)) := by
  have hrun : Steps (fun w op => op.InPlace w ∧ op.Counted w) twoVdevs .init blockingOps := by
    decide
  exact waiting_count (.execAll .init hrun)

/-- **A blocking request that is refused stays counted.**  A blocking command waits
    for the active one of another vdev, and is requested a second time. -/
theorem refused_counted : ¬∀ (vdevs : Vdevs) (w : World), ReachableUnder (fun _ _ => True) vdevs w →
    (w.pdevQ .nonScan).blockingCmdWaiting = w.waiters := by
  intro h
  have hrun : Steps (fun _ _ => True) twoVdevs .init
      [.request (command 7 1 false), .request (command 8 2 true), .request (command 8 2 true)] := by
    decide
  exact absurd (h twoVdevs _ (.execAll .init hrun)) (by decide)

end Sm8850.Serialization
