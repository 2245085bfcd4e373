/-
  Which commands of the serialization engine are active together.

  * `Exclusive`: one active command a vdev, and a blocking one alone.
  * `FlagsExact`: the bitmap of active vdevs and the blocking flag say what is
    active.
  * A command moves from the pending to the active list in a section that does not
    test the blocking flag, as it is entered with the lock dropped after a removal.
    `Op.Orderly` is that what it moves may be active beside what is.
  * A cancel clears the flags of a command in the section after the one that takes
    it out, and the flags are exact but between the two.
-/
import Sm8850.Serialization.Custody

namespace Sm8850.Serialization

variable {w w' : World} {vdevs : Vdevs} {n m v : ℕ} {c : Command}
  {frames fs fs' others : List Frame}

/-! ## Statement -/

/-- **One active command a vdev, and a blocking one alone.** -/
structure Exclusive (w : World) : Prop where
  perVdev : ∀ v, ∀ n ∈ (w.pdevQ .nonScan).activeList, ∀ m ∈ (w.pdevQ .nonScan).activeList,
    (w.pdevQ .nonScan).ofVdev v n = true → (w.pdevQ .nonScan).ofVdev v m = true → n = m
  alone : ∀ n ∈ (w.pdevQ .nonScan).activeList, (w.pdevQ .nonScan).isBlocking n = true →
    (w.pdevQ .nonScan).activeList = [n]

/-- **The flags say what is active.** -/
structure FlagsExact (w : World) : Prop where
  bits : ∀ v, v ∈ (w.pdevQ .nonScan).vdevActiveCmdBitmap ↔
    ∃ n ∈ (w.pdevQ .nonScan).activeList, (w.pdevQ .nonScan).ofVdev v n = true
  blocking : (w.pdevQ .nonScan).blockingCmdActive = true ↔
    ∃ n ∈ (w.pdevQ .nonScan).activeList, (w.pdevQ .nonScan).isBlocking n = true

/-- A cancel has taken out an active command that is no scan, and has not cleared
    its flags. -/
def World.Clearing (w : World) : Prop := ∃ f ∈ w.frames, f.clears true (fun _ _ => true) = true

/-- The command may be active beside those that are. -/
def World.Orderly (w : World) (c : Command) : Prop :=
  if c.isBlocking then
    (w.pdevQ .nonScan).activeList = [] ∧ (w.pdevQ .nonScan).blockingCmdActive = false
  else ∀ n ∈ (w.pdevQ .nonScan).activeList, (w.pdevQ .nonScan).isBlocking n = false

/-- What the step picks to move to the active list may be active beside those that
    are. -/
def Op.Orderly (w : World) (op : Op) : Prop := ∀ f ∈ op.next w, ∀ c ∈ f.picks w, w.Orderly c

instance (w : World) (c : Command) : Decidable (w.Orderly c) :=
  inferInstanceAs (Decidable (if c.isBlocking then _ ∧ _ else ∀ n ∈ _, _))

instance (w : World) (op : Op) : Decidable (op.Orderly w) :=
  inferInstanceAs (Decidable (∀ f ∈ op.next w, ∀ c ∈ f.picks w, w.Orderly c))

/-! ## Counts -/

theorem World.num_mono {k : Kind} {b : Bool} {g g' : Command → Bool}
    (h : ∀ c, g c = true → g' c = true) : w.num k b g ≤ w.num k b g' := by
  refine List.countP_mono_left fun n _ hn => ?_
  cases hc : ((w.pdevQ k).nodes n).cmd with
  | none => simp [hc] at hn
  | some c =>
    rw [hc] at hn
    exact h c hn

/-- No bit, no command that counts. -/
theorem BitsHeld.occupied_eq_zero (h : BitsHeld w frames) (hb : w.flags.bits = ∅)
    (g : ℕ → Bool → Bool) : w.occupied frames true g = 0 := by
  have hz : ∀ v, w.occupied frames true (fun v' _ => v' == v) = 0 := fun v => by
    rw [h v, hb, if_neg (Finset.notMem_empty v)]
  rw [World.occupied, Nat.add_eq_zero_iff]
  constructor
  · refine List.countP_eq_zero.2 fun n hn hg => ?_
    cases hc : ((w.pdevQ .nonScan).nodes n).cmd with
    | none => simp [hc] at hg
    | some c =>
      have hv := hz c.vdev
      rw [World.occupied, Nat.add_eq_zero_iff] at hv
      exact List.countP_eq_zero.1 hv.1 n hn (by simp [hc])
  · refine List.countP_eq_zero.2 fun f hf hg => ?_
    cases f with
    | cancelOn k r b v blocking prev left =>
      have hv := hz v
      rw [World.occupied, Nat.add_eq_zero_iff] at hv
      refine List.countP_eq_zero.1 hv.2 _ hf ?_
      simp at hg ⊢
      exact hg.1
    | _ => cases hg

/-! ## The invariant -/

/-- How many blocking commands count as active. -/
abbrev World.blockers (w : World) (frames : List Frame) : ℕ :=
  w.occupied frames true fun _ blocking => blocking

/-- **One blocking command at most counts as active, the flag says whether, and it is
    alone in the active list.** -/
structure BlockerAlone (w : World) (frames : List Frame) : Prop where
  flag : w.blockers frames = if w.flags.blocking then 1 else 0
  alone : w.num .nonScan true Command.isBlocking = 0 ∨ w.num .nonScan true (fun _ => true) = 1

theorem World.num_le_blockers (w : World) (frames : List Frame) :
    w.num .nonScan true Command.isBlocking ≤ w.blockers frames :=
  Nat.le_add_right _ _

/-- A command leaves the active list. -/
theorem BlockerAlone.leave {p' : Place} (hP : Placed vdevs w) (h : Shift w w' n c (.list true) p')
    (hp' : p' ≠ .list true)
    (ha : w.num .nonScan true Command.isBlocking = 0 ∨ w.num .nonScan true (fun _ => true) = 1) :
    w'.num .nonScan true Command.isBlocking = 0 ∨ w'.num .nonScan true (fun _ => true) = 1 := by
  have h1 := h.num hP .nonScan true Command.isBlocking
  have h2 := h.num hP .nonScan true fun _ => true
  have hle : w'.num .nonScan true Command.isBlocking ≤ w'.num .nonScan true fun _ => true :=
    World.num_mono fun _ _ => rfl
  simp only [hp', and_false, false_and, if_false, true_and, and_true] at h1 h2
  by_cases hk : c.kind = .nonScan
  · simp only [hk, true_and, if_true] at h1 h2
    omega
  · simp only [Ne.symm hk, false_and, if_false] at h1 h2
    omega

/-- A command enters the active list: a blocking one if it is empty, another one if
    no blocking one is in it. -/
theorem BlockerAlone.enter {p : Place} (hP : Placed vdevs w) (h : Shift w w' n c p (.list true))
    (ha : w.num .nonScan true Command.isBlocking = 0 ∨ w.num .nonScan true (fun _ => true) = 1)
    (hc : c.kind = .nonScan → if c.isBlocking then w.num .nonScan true (fun _ => true) = 0
      else w.num .nonScan true Command.isBlocking = 0) :
    w'.num .nonScan true Command.isBlocking = 0 ∨ w'.num .nonScan true (fun _ => true) = 1 := by
  have h1 := h.num hP .nonScan true Command.isBlocking
  have h2 := h.num hP .nonScan true fun _ => true
  have hp : p ≠ .list true := h.ne
  simp only [hp, and_false, false_and, if_false, true_and, and_true] at h1 h2
  by_cases hk : c.kind = .nonScan
  · have hc := hc hk
    simp only [hk, true_and, if_true] at h1 h2
    cases hb : c.isBlocking <;> simp only [hb, if_true, Bool.false_eq_true, if_false] at h1 hc
    · omega
    · omega
  · simp only [Ne.symm hk, false_and, if_false] at h1 h2
    omega

/-- No other list matters. -/
theorem BlockerAlone.aside {p p' : Place} (hP : Placed vdevs w) (h : Shift w w' n c p p')
    (hp : p ≠ .list true) (hp' : p' ≠ .list true) (g : Command → Bool) :
    w'.num .nonScan true g = w.num .nonScan true g := by
  have := h.num hP .nonScan true g
  simpa only [hp, hp', and_false, false_and, if_false, Nat.add_zero] using this

theorem World.num_pos {k : Kind} {b : Bool} {g : Command → Bool} (hn : n ∈ (w.pdevQ k).list b)
    (h : ((w.pdevQ k).nodes n).cmd.any g = true) : 0 < w.num k b g :=
  List.countP_pos_iff.2 ⟨n, hn, h⟩

theorem World.Orderly.num (h : w.Orderly c) :
    if c.isBlocking then w.num .nonScan true (fun _ => true) = 0 ∧ w.flags.blocking = false
    else w.num .nonScan true Command.isBlocking = 0 := by
  rw [World.Orderly] at h
  cases hb : c.isBlocking <;> simp only [hb, if_true, if_false, Bool.false_eq_true] at h ⊢
  · refine List.countP_eq_zero.2 fun n hn => ?_
    have := h n hn
    simpa [PdevQueue.isBlocking] using this
  · refine ⟨?_, h.2⟩
    rw [World.num, show (w.pdevQ .nonScan).list true = [] from h.1, List.countP_nil]

/-- The flag after an effect. -/
theorem BlockerAlone.flag_effect {lab : Label} (hB : Base vdevs w (fs ++ others))
    (he : Effect vdevs w fs lab w' fs')
    (hG : ∀ n c, lab = .move n c → c.kind = .nonScan → w.Orderly c)
    (hflag : w.blockers (fs ++ others) = if w.flags.blocking then 1 else 0) :
    w'.blockers (fs' ++ others) = if w'.flags.blocking then 1 else 0 := by
  simp only [World.blockers] at hflag ⊢
  have hbal := he.balance hB.placed others true fun _ blocking => blocking
  rw [hflag] at hbal
  generalize w'.occupied (fs' ++ others) true (fun _ blocking => blocking) = k' at hbal ⊢
  cases he with
  | rest h hf | cancel b n c r prev left h hf => rw [hf]; exact hbal
  | refuse c h hf => rw [hf, (Flags.wait_frame _ _).2]; exact hbal
  | accept b n c h hv hnew ha hf =>
    rw [hf]
    by_cases hc : b = true ∧ c.kind = .nonScan
    · rw [if_pos hc]
      simp only [Label.loss, Label.gain, hc, true_and, Nat.add_zero] at hbal
      cases hb : c.isBlocking with
      | true =>
        -- nothing counts as active
        have hadm := ha hc.1 hc.2
        rw [Flags.Admits, if_pos hb] at hadm
        have hz := hB.bits.occupied_eq_zero hadm fun _ blocking => blocking
        simp only [hb, if_true] at hbal
        simp only [Flags.note, Bool.true_or, if_true]
        omega
      | false => simpa [hb, Flags.note] using hbal
    · rw [if_neg hc, (Flags.wait_frame _ _).2]
      have : ¬(c.kind = .nonScan ∧ b = true ∧ c.isBlocking = true) := fun h => hc ⟨h.2.1, h.1⟩
      simpa [Label.loss, Label.gain, this] using hbal
  | move n c h ha hf =>
    rw [hf]
    by_cases hk : c.kind = .nonScan
    · have hord := (hG n c rfl hk).num
      rw [if_pos hk, (Flags.unwait_frame _ _).2]
      simp only [Label.loss, Label.gain, hk, true_and, Nat.add_zero, reduceCtorEq, false_and,
        if_false] at hbal
      cases hb : c.isBlocking with
      | true =>
        rw [if_pos hb] at hord
        simp only [hb, hord.2, if_true, Bool.false_eq_true, if_false] at hbal
        simp only [Flags.note, Bool.true_or, if_true]
        exact hbal
      | false => simpa [hb, Flags.note] using hbal
    · simpa [Label.loss, Label.gain, hk] using hbal
  | remove n c h hf =>
    rw [hf]
    by_cases hk : c.kind = .nonScan
    · rw [if_pos hk]
      simp only [Label.loss, Label.gain, hk, true_and, Nat.add_zero] at hbal
      cases hb : c.isBlocking with
      | true =>
        simp only [hb, if_true] at hbal
        simp only [Flags.clear, Bool.not_true, Bool.false_and, Bool.false_eq_true, if_false]
        split at hbal <;> omega
      | false => simpa [hb, Flags.clear] using hbal
    · simpa [Label.loss, Label.gain, hk] using hbal
  | clear b r v blocking prev left h hf =>
    rw [hf]
    cases b with
    | false => simpa [Label.loss, Label.gain, (Flags.unwait_frame _ _).2] using hbal
    | true =>
      simp only [Label.loss, Label.gain, true_and, Nat.add_zero] at hbal
      cases blocking with
      | true =>
        simp only [if_true] at hbal ⊢
        simp only [Flags.clear, Bool.not_true, Bool.false_and, Bool.false_eq_true, if_false]
        split at hbal <;> omega
      | false => simpa [Flags.clear] using hbal
  | release req => exact hbal

/-- The active list after an effect. -/
theorem BlockerAlone.alone_effect {lab : Label} (hB : Base vdevs w (fs ++ others))
    (he : Effect vdevs w fs lab w' fs')
    (hG : ∀ n c, lab = .move n c → c.kind = .nonScan → w.Orderly c)
    (h : BlockerAlone w (fs ++ others)) :
    w'.num .nonScan true Command.isBlocking = 0 ∨ w'.num .nonScan true (fun _ => true) = 1 := by
  have hle := w.num_le_blockers (fs ++ others)
  cases he with
  | rest h' | refuse _ h' | clear _ _ _ _ _ _ h' => rw [h'.num, h'.num]; exact h.alone
  | accept b n c h' hv hnew ha =>
    cases b with
    | false =>
      rw [aside hB.placed h' (by simp) (by simp), aside hB.placed h' (by simp) (by simp)]
      exact h.alone
    | true =>
      refine enter hB.placed h' h.alone fun hk => ?_
      have hadm := ha rfl hk
      rw [Flags.Admits] at hadm
      cases hb : c.isBlocking <;> simp only [hb, if_true, if_false, Bool.false_eq_true] at hadm ⊢
      · have hflag := h.flag
        rw [hadm.1, if_neg (by simp)] at hflag
        omega
      · have hz := hB.bits.occupied_eq_zero hadm fun _ _ => true
        rw [World.occupied] at hz
        omega
  | move n c h' ha hf =>
    refine enter hB.placed h' h.alone fun hk => ?_
    have hord := (hG n c rfl hk).num
    split at hord
    · rename_i hb
      rw [if_pos hb]
      exact hord.1
    · rename_i hb
      rw [if_neg hb]
      exact hord
  | remove n c h' => exact leave hB.placed h' (by simp) h.alone
  | cancel b n c r prev left h' =>
    cases b with
    | false =>
      rw [aside hB.placed h' (by simp) (by simp), aside hB.placed h' (by simp) (by simp)]
      exact h.alone
    | true => exact leave hB.placed h' (by simp) h.alone
  | release req => exact h.alone

theorem BlockerAlone.kept :
    Kept vdevs ⟨World.Orderly, fun _ _ _ => True, fun _ _ => True⟩ BlockerAlone where
  init := ⟨rfl, .inl rfl⟩
  aside _ _ h := ⟨h.flag, h.alone⟩
  perm {w fs fs'} hp h := by
    refine ⟨?_, h.alone⟩
    rw [← h.flag]
    simp only [World.occupied, hp.countP_eq]
  effect {w w' fs fs' others lab} hB he hG h := by
    have hG : ∀ n c, lab = .move n c → c.kind = .nonScan → w.Orderly c := by
      rintro n c rfl
      exact hG
    exact ⟨flag_effect hB he hG h.flag, alone_effect hB he hG h⟩

/-! ## Results -/

theorem Base.exclusive_of_alone (hB : Base vdevs w frames) (h : BlockerAlone w frames) :
    Exclusive w where
  perVdev v n hn m hm hnv hmv := by
    have hle := hB.placed.vsize v true
    exact countP_le_one_unique hle hn hm hnv hmv
  alone n hn hb := by
    have hpos : 0 < w.num .nonScan true Command.isBlocking := World.num_pos hn hb
    have hone : w.num .nonScan true (fun _ => true) = 1 := h.alone.resolve_left (by omega)
    have hlen : (w.pdevQ .nonScan).activeList.length = 1 := by
      rw [← hone, World.num]
      refine (List.countP_eq_length.2 fun m hm => ?_).symm
      obtain ⟨c, hc, -⟩ := hB.placed.cmd .nonScan true m hm
      simp [hc]
    obtain ⟨m, hm⟩ := List.length_eq_one_iff.1 hlen
    rw [hm, List.mem_singleton] at hn
    rw [hm, hn]

/-- What counts as active, is: no cancel is between its sections. -/
theorem World.occupied_of_not_clearing (h : ¬w.Clearing) (g : ℕ → Bool → Bool) :
    w.occupied w.frames true g = w.num .nonScan true fun c => g c.vdev c.isBlocking := by
  rw [World.occupied, List.countP_eq_zero.2, Nat.add_zero]
  intro f hf hg
  refine h ⟨f, hf, ?_⟩
  cases f with
  | cancelOn k r b v blocking prev left =>
    simp at hg ⊢
    exact hg.1
  | _ => cases hg

theorem Base.flagsExact (hB : Base vdevs w w.frames) (h : BlockerAlone w w.frames) :
    FlagsExact w ↔ ¬w.Clearing := by
  constructor
  · -- the bit of a command that is being cancelled is set
    rintro hE ⟨f, hf, hclear⟩
    cases f with
    | cancelOn k r b v blocking prev left =>
      have hbit := hB.bits v
      have hpos : 0 < w.frames.countP (Frame.clears true fun v' _ => v' == v) := by
        refine List.countP_pos_iff.2 ⟨_, hf, ?_⟩
        simp at hclear ⊢
        exact hclear
      rw [World.occupied] at hbit
      have hmem : v ∈ w.flags.bits := by
        by_contra hv
        rw [if_neg hv] at hbit
        omega
      obtain ⟨n, hn, hv⟩ := (hE.bits v).1 hmem
      have : 0 < w.num .nonScan true (·.vdev == v) := World.num_pos hn hv
      rw [if_pos hmem] at hbit
      omega
    | _ => cases hclear
  · intro hnc
    constructor
    · intro v
      have hbit := hB.bits v
      rw [World.occupied_of_not_clearing hnc] at hbit
      change _ = if v ∈ (w.pdevQ .nonScan).vdevActiveCmdBitmap then 1 else 0 at hbit
      constructor
      · intro hv
        rw [if_pos hv] at hbit
        have hpos : 0 < w.num .nonScan true (·.vdev == v) := by omega
        exact List.countP_pos_iff.1 hpos
      · rintro ⟨n, hn, hv⟩
        have hpos : 0 < w.num .nonScan true (·.vdev == v) := World.num_pos hn hv
        by_contra hv'
        rw [if_neg hv'] at hbit
        omega
    · have hflag := h.flag
      rw [World.blockers, World.occupied_of_not_clearing hnc] at hflag
      change w.num .nonScan true Command.isBlocking =
        if (w.pdevQ .nonScan).blockingCmdActive then 1 else 0 at hflag
      constructor
      · intro hb
        rw [if_pos hb] at hflag
        have hpos : 0 < w.num .nonScan true Command.isBlocking := by omega
        exact List.countP_pos_iff.1 hpos
      · rintro ⟨n, hn, hb⟩
        have hpos : 0 < w.num .nonScan true Command.isBlocking := World.num_pos hn hb
        by_contra hb'
        rw [if_neg hb'] at hflag
        omega

/-- **Who is active.**  In a run that moves no command beside one that it may not be
    active with, the active commands are one a vdev, a blocking one is alone, and
    the flags say what is active but while a cancel is between its two sections. -/
theorem exclusive (h : ReachableUnder (fun w op => op.InPlace w ∧ op.Orderly w) vdevs w) :
    Exclusive w ∧ (FlagsExact w ↔ ¬w.Clearing) := by
  have hC : ∀ w op, Op.InPlace w op ∧ Op.Orderly w op → Guard.Allows
      ⟨World.Orderly, fun _ _ _ => True, fun _ _ => True⟩ w op := by
    rintro w op ⟨-, ho⟩
    cases op with
    | request cmd => rw [Guard.Allows]; split <;> simp
    | go t ok =>
      intro f rest ht c hc
      exact ho f (by simp [Op.next, ht]) c hc
    | _ => trivial
  obtain ⟨hB, hA⟩ := BlockerAlone.kept.reachable hC h
  exact ⟨hB.exclusive_of_alone hA, hB.flagsExact hA⟩

/-- A blocking command waits for the active one, and is moved when that is removed. -/
def blockingOps : List Op :=
  [.request (command 7 1 false), .go 0 true, .go 0 true, .request (command 8 2 true),
    .call (.removeCmd ⟨5, 7, 1⟩), .go 2 true, .go 2 true]

theorem exclusive_blocking : Exclusive (execAll .init blockingOps) ∧
    (FlagsExact (execAll .init blockingOps) ↔ ¬(execAll .init blockingOps).Clearing) := by
  have hrun : Steps (fun w op => op.InPlace w ∧ op.Orderly w) twoVdevs .init blockingOps := by
    decide
  exact exclusive (.execAll .init hrun)

/-- **The race of a removal and a request.**  A command of vdev 1 is removed while
    another one of vdev 1 is pending; before the call that removes it goes on, a
    blocking command of vdev 2 is requested, and is active as nothing else is; then
    the call moves the pending command beside it. -/
theorem blocking_not_alone : ¬∀ (vdevs : Vdevs) (w : World),
    ReachableUnder (fun _ _ => True) vdevs w → Exclusive w ∧ FlagsExact w := by
  intro h
  have hrun : Steps (fun _ _ => True) twoVdevs .init
      [.request (command 7 1 false), .go 0 true, .go 0 true, .request (command 8 1 false),
        .call (.removeCmd ⟨5, 7, 1⟩), .go 2 true, .request (command 9 2 true), .go 2 true] := by
    decide
  obtain ⟨hE, -⟩ := h twoVdevs _ (.execAll .init hrun)
  exact absurd (hE.alone 2 (by decide) (by decide)) (by decide)

end Sm8850.Serialization
