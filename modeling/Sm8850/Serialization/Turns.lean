/-
  Every section of the serialization engine is one of the effects.

  * `enqueue_effect`, `dequeue_effect`, `move_effect`, `cancelFrom_effect`: one
    lemma for each section.
  * `Frame.run_effect` puts them together: a section is one effect, but for the
    going on of a cancel, which clears the flags first.
-/
import Sm8850.Serialization.Effects

namespace Sm8850.Serialization

variable {w w' w₁ : World} {k k' : Kind} {b b' : Bool} {n m v : ℕ} {c cmd : Command} {vdevs : Vdevs}
  {q q' : PdevQueue} {fs fs' others frames : List Frame}

/-! ## Marks -/

/-- Only the marks of nodes differ. -/
structure Marked (q q' : PdevQueue) : Prop where
  pool : q'.cmdPoolList = q.cmdPoolList
  list : ∀ b, q'.list b = q.list b
  flags : q'.flags = q.flags
  cmd : ∀ n, (q'.nodes n).cmd = (q.nodes n).cmd
  marked : ∀ n, (q'.nodes n).inUse.markedForActivation = true →
    (q.nodes n).inUse.markedForActivation = true

theorem Marked.refl (q : PdevQueue) : Marked q q :=
  ⟨rfl, fun _ => rfl, rfl, fun _ => rfl, fun _ => id⟩

theorem Marked.trans {q'' : PdevQueue} (h : Marked q q') (h' : Marked q' q'') : Marked q q'' where
  pool := h'.pool.trans h.pool
  list b := (h'.list b).trans (h.list b)
  flags := h'.flags.trans h.flags
  cmd n := (h'.cmd n).trans (h.cmd n)
  marked n hn := h.marked n (h'.marked n hn)

theorem Marked.setNode {node : Node} (h : node.cmd = (q.nodes n).cmd)
    (hm : node.inUse.markedForActivation = true → (q.nodes n).inUse.markedForActivation = true) :
    Marked q (q.setNode n node) where
  pool := rfl
  list _ := PdevQueue.list_setNode
  flags := rfl
  cmd m := by
    by_cases hm : m = n
    · subst hm
      simpa using h
    · simp [hm]
  marked m := by
    by_cases hmn : m = n
    · subst hmn
      simpa using hm
    · simp [hmn]

theorem Rest.refl (w : World) : Rest w w :=
  ⟨fun _ => .rfl, fun _ _ => rfl, fun _ _ => rfl, fun _ _ => rfl, fun _ _ => id, rfl, rfl, rfl, rfl⟩

theorem Rest.trans {w'' : World} (h : Rest w w') (h' : Rest w' w'') : Rest w w'' where
  pool k := (h'.pool k).trans (h.pool k)
  list k b := (h'.list k b).trans (h.list k b)
  vdev v b := (h'.vdev v b).trans (h.vdev v b)
  cmd k m := (h'.cmd k m).trans (h.cmd k m)
  marked k m hm := h.marked k m (h'.marked k m hm)
  nextReq := h'.nextReq.trans h.nextReq
  todo := h'.todo.trans h.todo
  elsewhere := h'.elsewhere.trans h.elsewhere
  released := h'.released.trans h.released

theorem Rest.setQ (hp : q'.cmdPoolList.Perm (w.pdevQ k).cmdPoolList)
    (hl : ∀ b, q'.list b = (w.pdevQ k).list b)
    (hc : ∀ n, (q'.nodes n).cmd = ((w.pdevQ k).nodes n).cmd)
    (hm : ∀ n, (q'.nodes n).inUse.markedForActivation = true → w.Marked k n) :
    Rest w (w.setQ k q') where
  pool k' := by
    by_cases hk : k' = k
    · subst hk
      simpa using hp
    · simp [hk]
  list k' b := by
    by_cases hk : k' = k
    · subst hk
      simpa using hl b
    · simp [hk]
  vdev _ _ := rfl
  cmd k' m := by
    by_cases hk : k' = k
    · subst hk
      simpa using hc m
    · simp [hk]
  marked k' m := by
    by_cases hk : k' = k
    · subst hk
      simpa [World.Marked] using hm m
    · simp [World.Marked, hk]
  nextReq := rfl
  todo := rfl
  elsewhere := rfl
  released := rfl

theorem Marked.rest (h : Marked (w.pdevQ k) q') :
    Rest w (w.setQ k q') ∧ (w.setQ k q').flags = w.flags := by
  refine ⟨.setQ (.of_eq h.pool) h.list h.cmd h.marked, ?_⟩
  cases k with
  | scan => simp
  | nonScan =>
    rw [World.setQ_frame.2.2.2.2.2.2, if_pos rfl]
    exact h.flags

/-- A shift after sections that leave the nodes where they are. -/
theorem Shift.of_rest {p p' : Place} (h : Rest w w₁) (h' : Shift w₁ w' n c p p') :
    Shift w w' n c p p' where
  ne := h'.ne
  mem := by
    have hmem := h'.mem
    cases p with
    | pool => exact (h.pool _).mem_iff.1 hmem
    | list b => simpa only [PdevQueue.held_list, h.list] using hmem
  pool k := by
    refine (h'.pool k).trans ?_
    split
    · exact (h.pool k).erase n
    · split
      · exact (h.pool k).cons n
      · exact h.pool k
  list k b := by rw [h'.list, h.list]
  vdev v b := by rw [h'.vdev, h.vdev]
  before hp := h.cmd _ _ ▸ h'.before hp
  cmd k m := by rw [h'.cmd, h.cmd]
  marked k m hm := (h'.marked k m hm).imp (And.imp_left (h.marked k m)) id
  room b hp hk := h.num .nonScan b _ ▸ h'.room b hp hk
  nextReq := by rw [h'.nextReq, h.nextReq]
  req hp := by rw [h'.req hp, h.nextReq]
  todo := h'.todo.trans h.todo
  elsewhere := h'.elsewhere.trans h.elsewhere
  released := h'.released.trans h.released

/-- And before the command is marked. -/
theorem Shift.then_mark {p : Place} {q' : PdevQueue} (h : Shift w w₁ n c p (.list true))
    (hp : q'.cmdPoolList = (w₁.pdevQ c.kind).cmdPoolList)
    (hl : ∀ b, q'.list b = (w₁.pdevQ c.kind).list b)
    (hc : ∀ m, (q'.nodes m).cmd = ((w₁.pdevQ c.kind).nodes m).cmd)
    (hm : ∀ m, m ≠ n → (q'.nodes m).inUse.markedForActivation = true → w₁.Marked c.kind m) :
    Shift w (w₁.setQ c.kind q') n c p (.list true) where
  ne := h.ne
  mem := h.mem
  pool k := by
    refine .trans (.of_eq ?_) (h.pool k)
    by_cases hk : k = c.kind
    · subst hk
      simpa using hp
    · simp [hk]
  list k b := by
    rw [← h.list]
    by_cases hk : k = c.kind
    · subst hk
      simpa using hl b
    · simp [hk]
  vdev := h.vdev
  before := h.before
  cmd k m := by
    rw [← h.cmd]
    by_cases hk : k = c.kind
    · subst hk
      simpa using hc m
    · simp [hk]
  marked k m hmk := by
    by_cases hk : k = c.kind
    · subst hk
      by_cases hmn : m = n
      · exact .inr ⟨rfl, hmn, rfl⟩
      · exact h.marked c.kind m (hm m hmn (by simpa [World.Marked] using hmk))
    · exact h.marked k m (by simpa [World.Marked, hk] using hmk)
  room := h.room
  nextReq := h.nextReq
  req := h.req
  todo := h.todo
  elsewhere := h.elsewhere
  released := h.released

/-! ## Lists and places -/

/-- A command that is taken out of the pending lists and put into the active ones. -/
theorem Shift.of_links (hk : c.kind = k) (hu : Unlinks w w₁ k false n c) (hl : Links w₁ w' true n c)
    (hroom : c.kind = .nonScan → w.num .nonScan true (·.vdev == c.vdev) < vdevMaxSize true) :
    Shift w w' n c (.list false) (.list true) where
  ne := by simp
  mem := hk ▸ hu.mem
  pool k' := by simp [hl.pool, hu.pool]
  list k' b := by
    subst hk
    by_cases hk' : k' = c.kind
    · subst hk'
      cases b <;> simp [hl.list, hu.list]
    · simp [hl.list, hu.list, hk']
  vdev v b := by
    subst hk
    cases b <;> simp [hl.vdev, hu.vdev]
  before _ := hk ▸ hu.cmd
  cmd k' m := by
    subst hk
    rw [hl.nodes, hu.nodes]
    by_cases hm : k' = c.kind ∧ m = n
    · obtain ⟨rfl, rfl⟩ := hm
      simpa using hu.cmd
    · rw [if_neg hm]
  marked k' m hm := by
    rw [World.Marked, hl.nodes, hu.nodes] at hm
    exact .inl ⟨hm, by simp⟩
  room b hb := by
    cases b with
    | false => simp at hb
    | true => exact hroom
  nextReq := by simp [hl.nextReq, hu.nextReq]
  req h := by simp at h
  todo := hl.todo.trans hu.todo
  elsewhere := hl.elsewhere.trans hu.elsewhere
  released := hl.released.trans hu.released

/-- A command that is taken out of its lists and given back to the pool. -/
theorem Shift.of_unlinks (hk : c.kind = k) (hu : Unlinks w w₁ k b n c) :
    Shift w (w₁.setQ k (((w₁.pdevQ k).setNode n .free).toPool n)) n c (.list b) .pool where
  ne := by simp
  mem := hk ▸ hu.mem
  pool k' := by
    subst hk
    by_cases hk' : k' = c.kind
    · subst hk'
      simp [hu.pool]
    · simp [hk', hu.pool]
  list k' b' := by
    subst hk
    by_cases hk' : k' = c.kind
    · subst hk'
      cases b <;> cases b' <;> simp [hu.list]
    · simp [hk', hu.list]
  vdev v b' := by
    subst hk
    by_cases hb : b' = b
    · simp [hu.vdev, hb]
    · simp [hu.vdev, hb]
  before _ := hk ▸ hu.cmd
  cmd k' m := by
    subst hk
    by_cases hk' : k' = c.kind
    · subst hk'
      by_cases hm : m = n
      · subst hm
        simp [Node.free]
      · simp [hu.nodes, hm]
    · simp [hk', hu.nodes]
  marked k' m hm := by
    subst hk
    by_cases hk' : k' = c.kind
    · subst hk'
      by_cases hmn : m = n
      · subst hmn
        simp [World.Marked, Node.free, InUse.zero] at hm
      · exact .inl ⟨by simpa [World.Marked, hmn, hu.nodes] using hm, by simp [hmn]⟩
    · exact .inl ⟨by simpa [World.Marked, hk', hu.nodes] using hm, by simp [hk']⟩
  room b hb := by simp at hb
  nextReq := by simp [hu.nextReq]
  req h := by simp at h
  todo := hu.todo
  elsewhere := hu.elsewhere
  released := hu.released

/-- A command that a cancel takes out of its lists. -/
theorem cancelTake_shift (hk : c.kind = k) (hn : n ∈ (w.pdevQ k).list b)
    (hc : ((w.pdevQ k).nodes n).cmd = some c) :
    Shift w (cancelTake w k b n c) n c (.list b) .pool ∧
      (cancelTake w k b n c).flags = w.flags := by
  subst hk
  constructor
  · exact
      { ne := by simp
        mem := hn
        pool := fun k' => by cases hk : c.kind <;> cases k' <;> simp [cancelTake]
        list := fun k' b' => by
          cases hk : c.kind <;> cases k' <;> cases b <;> cases b' <;> simp [cancelTake]
        vdev := fun v b' => by
          cases hk : c.kind with
          | scan => simp [cancelTake]
          | nonScan =>
            by_cases hv : v = c.vdev
            · subst hv
              cases b <;> cases b' <;> simp [cancelTake]
            · simp [cancelTake, hv]
        before := fun _ => hc
        cmd := fun k' m => by
          by_cases hm : m = n
          · subst hm
            cases hk : c.kind <;> cases k' <;> simp [cancelTake, Node.free]
          · cases hk : c.kind <;> cases k' <;> simp [cancelTake, hm]
        marked := fun k' m hm => by
          refine .inl ?_
          by_cases hmn : m = n
          · subst hmn
            cases hk : c.kind <;> cases k' <;>
              simp [World.Marked, cancelTake, hk, Node.free, InUse.zero] at hm ⊢ <;> exact hm
          · cases hk : c.kind <;> cases k' <;> simpa [World.Marked, cancelTake, hk, hmn] using hm
        room := fun b' hb => by simp at hb
        nextReq := by cases hk : c.kind <;> simp [cancelTake]
        req := fun h => by simp at h
        todo := by cases hk : c.kind <;> simp [cancelTake]
        elsewhere := by cases hk : c.kind <;> simp [cancelTake]
        released := by cases hk : c.kind <;> simp [cancelTake] }
  · cases hk : c.kind <;> simp [cancelTake, World.flags]

/-! ## Moving -/

theorem countP_le_one_unique {l : List ℕ} {p : ℕ → Bool} (h : l.countP p ≤ 1) (hn : n ∈ l)
    (hm : m ∈ l) (hpn : p n = true) (hpm : p m = true) : n = m := by
  by_contra hne
  have hadd := countP_erase_add hn p
  have hmem : m ∈ l.erase n := (List.mem_erase_of_ne (Ne.symm hne)).2 hm
  have := List.countP_pos_iff.2 ⟨m, hmem, hpm⟩
  rw [if_pos hpn] at hadd
  omega

/-- A pending command is the only one with its key. -/
theorem PendingDistinct.unique (h : PendingDistinct w) (hn : n ∈ (w.pdevQ k).list false)
    (hm : m ∈ (w.pdevQ k).list false) (hc : ((w.pdevQ k).nodes n).cmd = some c)
    (hc' : ((w.pdevQ k).nodes m).cmd = some cmd) (hkey : c.toCmdKey = cmd.toCmdKey) : n = m :=
  countP_le_one_unique (h k c.toCmdKey) hn hm (by simp [hc]) (by simp [hc', hkey])

/-- The vdev of no bit has no active command. -/
theorem BitsHeld.num_eq_zero (h : BitsHeld w frames) (hv : v ∉ w.flags.bits) :
    w.num .nonScan true (·.vdev == v) = 0 := by
  have := h v
  rw [if_neg hv, World.occupied] at this
  omega

theorem PdevQueue.flags_unwait {blocking : Bool} :
    ({ q with
        blockingCmdWaiting :=
          if blocking then dec16 q.blockingCmdWaiting else q.blockingCmdWaiting } :
      PdevQueue).flags = q.flags.unwait blocking := by
  cases blocking <;> simp [PdevQueue.flags, Flags.unwait]

/-- What comes of moving a pending command to the active lists. -/
inductive MoveCase (w : World) (c : Command) : World × List Frame → Prop
  | held (w' : World) (n : ℕ) (hn : n ∈ (w.pdevQ c.kind).list false)
      (hm : ((w.pdevQ c.kind).nodes n).inUse.markedForActivation = true) (h : Rest w w')
      (hf : w'.flags = w.flags) : MoveCase w c (w', [])
  | moved (w' : World) (n : ℕ) (h : Shift w w' n c (.list false) (.list true))
      (hf : w'.flags =
        if c.kind = .nonScan then (w.flags.note c.vdev c.isBlocking).unwait c.isBlocking
        else w.flags) : MoveCase w c (w', [.activate c.kind n])

theorem moveToActive_case (hB : Base vdevs w frames) (hn : n ∈ (w.pdevQ k).list false)
    (hc : ((w.pdevQ k).nodes n).cmd = some c) (hbit : k = .nonScan → c.vdev ∉ w.flags.bits)
    (hscan : k = .scan → ((w.pdevQ .scan).list true).length < Kind.scan.maxSize true) :
    MoveCase w c (moveToActive w k c) := by
  obtain rfl : c.kind = k := by
    obtain ⟨c', hc', hk, -⟩ := hB.placed.cmd k false n hn
    rwa [show c = c' by simpa [hc] using hc']
  rw [moveToActive]
  have hcase := wlanSerRemoveCmd_case hB.placed.synced c.kind c.toCmdKey false
  revert hcase
  generalize wlanSerRemoveCmd w c.kind c.toCmdKey false = res
  rintro (h | ⟨n', h, hm⟩ | ⟨w₁, n', c', hu, hkey⟩)
  · exact absurd rfl (h n hn c hc)
  · have hmark : Marked (w.pdevQ c.kind) ((w.pdevQ c.kind).markForRemoval n') := .setNode rfl id
    exact .held _ n' h hm hmark.rest.1 hmark.rest.2
  · obtain rfl : n' = n := hB.pending.unique hu.mem hn hu.cmd hc hkey
    obtain rfl : c' = c := by simpa [hu.cmd] using hc
    have hnum := fun hk => hB.bits.num_eq_zero (hbit hk)
    have hlen : ∀ hk : c'.kind = .nonScan, ((w.vdevQ c'.vdev).list true).length = 0 := fun hk => by
      rw [length_vdev_list hB.placed.synced, hnum hk]
    obtain ⟨cmd, hcmd, -, hid⟩ := hB.placed.cmd c'.kind false n' hn
    obtain rfl : c' = cmd := by simpa [hc] using hcmd
    have hadd := wlanSerAddCmd_case (w := w₁) true n' (c := c') fun hk h => by
      rw [hu.list, if_neg (by simp)]
      exact hB.placed.room hid (by rw [hlen hk]; decide)
    simp only [hu.nodes, hc]
    revert hadd
    generalize wlanSerAddCmd w₁ c'.kind n' c' true = res'
    rintro (⟨w₂, h, hs, hv⟩ | ⟨w₂, h⟩)
    · -- there is room in the active lists
      cases hk : c'.kind with
      | scan =>
        have := hscan hk
        have hfull := hs hk
        rw [hu.list, if_neg (by simp)] at hfull
        omega
      | nonScan =>
        have hfull := hv hk
        rw [hu.vdev, if_neg (by simp), hlen hk] at hfull
        cases hfull
    · have hshift : Shift w w₂ n' c' (.list false) (.list true) :=
        .of_links rfl hu h fun hk => by rw [hnum hk]; decide
      refine .moved _ n' (hshift.then_mark rfl ?_ ?_ ?_) ?_
      · intro b
        cases b <;> rfl
      · intro m
        by_cases hm : m = n'
        · subst hm
          simp [PdevQueue.markForActivation]
        · simp [PdevQueue.markForActivation, hm]
      · intro m hm hmark
        simpa [PdevQueue.markForActivation, World.Marked, hm] using hmark
      · have hfl : w₂.flags =
            if c'.kind = .nonScan then w.flags.note c'.vdev c'.isBlocking else w.flags := by
          simpa [hu.flags] using h.flags
        cases hk : c'.kind with
        | scan => simpa [hk] using hfl
        | nonScan =>
          simp only [hk, if_true, true_and] at hfl ⊢
          rw [World.setQ_frame.2.2.2.2.2.2, if_pos rfl, PdevQueue.flags_unwait, ← hfl]
          rfl

theorem markNext_marked (q : PdevQueue) (l : List ℕ) : Marked q (q.markNext l) := by
  cases l with
  | nil => exact .refl q
  | cons n l => exact .setNode rfl id

/-- The pass over the list of the pdev changes marks only, and what it picks is of
    a vdev with no active command; a blocking one, of a pdev with none. -/
theorem pickFromPdev_spec (q : PdevQueue) (l : List ℕ) :
    Marked q (pickFromPdev q l).1 ∧ ∀ n c, (pickFromPdev q l).2 = some (n, c) →
      n ∈ l ∧ (q.nodes n).cmd = some c ∧ c.vdev ∉ q.flags.bits ∧
      (c.isBlocking = true → q.flags.bits = ∅) := by
  induction l generalizing q with
  | nil => exact ⟨.refl q, by simp [pickFromPdev]⟩
  | cons n l ih =>
    rw [pickFromPdev]
    cases hc : (q.nodes n).cmd with
    | none => exact ⟨.refl q, by simp⟩
    | some c =>
      simp only
      have hnext := markNext_marked q l
      by_cases hb : c.isBlocking = true ∧ q.anyVdevCmdActive = true
      · rw [if_pos hb]
        exact ⟨.refl q, by simp⟩
      · rw [if_neg hb]
        split
        · -- its vdev is busy: the pass goes on
          have hmark : Marked q ((q.markNext l).markForMovement n false) :=
            hnext.trans (.setNode rfl id)
          obtain ⟨hm, hpick⟩ := ih ((q.markNext l).markForMovement n false)
          refine ⟨hmark.trans hm, fun m c' h => ?_⟩
          have h := hpick m c' h
          rw [hmark.cmd, hmark.flags] at h
          exact ⟨List.mem_cons_of_mem _ h.1, h.2⟩
        · rename_i hv
          refine ⟨hnext, fun m c' h => ?_⟩
          simp only [Option.some.injEq, Prod.mk.injEq] at h
          obtain ⟨rfl, rfl⟩ := h
          have hbits : (q.markNext l).vdevActiveCmdBitmap = q.flags.bits :=
            congrArg Flags.bits hnext.flags
          rw [hbits] at hv
          refine ⟨List.mem_cons_self, hc, hv, fun hblock => ?_⟩
          by_contra hne
          exact hb ⟨hblock, by simpa [PdevQueue.anyVdevCmdActive, PdevQueue.flags] using hne⟩

theorem pickFromVdev_spec {l : List ℕ} (h : pickFromVdev q l = some (n, c)) :
    n ∈ l ∧ (q.nodes n).cmd = some c ∧ c.vdev ∉ q.flags.bits := by
  cases l with
  | nil => simp [pickFromVdev] at h
  | cons m l =>
    rw [pickFromVdev] at h
    cases hc : (q.nodes m).cmd with
    | none => simp [hc] at h
    | some c' =>
      simp only [hc] at h
      split at h
      · cases h
      · rename_i hv
        simp only [Option.some.injEq, Prod.mk.injEq] at h
        obtain ⟨rfl, rfl⟩ := h
        exact ⟨List.mem_cons_self, hc, fun h => hv (.inl h)⟩

/-- The command that a section is about to move to the active list. -/
def Frame.picks (w : World) : Frame → Option Command
  | .move .nonScan (some v) removed =>
    let q := w.pdevQ .nonScan
    if !removed && q.blockingCmdWaiting == 0 then
      (pickFromVdev q (w.vdevQ v).pendingList).map Prod.snd
    else (pickFromPdev q q.pendingList).2.map Prod.snd
  | .move .nonScan none _ =>
    (pickFromPdev (w.pdevQ .nonScan) (w.pdevQ .nonScan).pendingList).2.map Prod.snd
  | .moveOn =>
    if (w.pdevQ .nonScan).blockingCmdActive then none
    else (pickFromPdev (w.pdevQ .nonScan) (w.pdevQ .nonScan).pendingList).2.map Prod.snd
  | _ => none

/-- What the effect of a section of a call may be: a command that is no scan is
    moved only if it is the one that is picked. -/
def Label.Of (w : World) (f : Frame) : Label → Prop
  | .refuse _ | .accept _ _ _ => False
  | .move _ c => c.kind = .nonScan → f.picks w = some c
  | _ => True

/-- The section is one effect. -/
def Turned (vdevs : Vdevs) (w : World) (f : Frame) (res : World × List Frame) : Prop :=
  ∃ lab : Label, Effect vdevs w [f] lab res.1 res.2 ∧ lab.Of w f

theorem Turned.rest {f : Frame} (h : Rest w w') (hf : w'.flags = w.flags) (hi : f.idle = true)
    (hi' : ∀ f ∈ fs', f.idle = true) : Turned vdevs w f (w', fs') :=
  ⟨.rest, .rest h hf (by simpa using hi) hi', trivial⟩

theorem MoveCase.turned {f : Frame} {res : World × List Frame} (hr : Rest w w₁)
    (hf : w₁.flags = w.flags) (hv : c.kind = .nonScan → c.vdev ∉ w.flags.bits)
    (h : MoveCase w₁ c res) (hi : f.idle = true) (hmore : ∀ f ∈ others, f.idle = true)
    (hp : c.kind = .nonScan → f.picks w = some c) :
    Turned vdevs w f (res.1, if res.2 = [] then [] else res.2 ++ others) := by
  cases h with
  | held w' n hn hm h hf' => exact .rest (hr.trans h) (hf'.trans hf) hi (by simp)
  | moved w' n h hf' =>
    refine ⟨.move n c, .move n c (h.of_rest hr) hv (hf ▸ hf') (by simpa using hi) ?_, hp⟩
    simpa using ⟨rfl, hmore⟩

theorem movePass_turned {f : Frame} (hB : Base vdevs w frames) (hi : f.idle = true)
    (hp : ∀ n c, (pickFromPdev (w.pdevQ .nonScan) (w.pdevQ .nonScan).pendingList).2 = some (n, c) →
      f.picks w = some c) : Turned vdevs w f (movePass w) := by
  rw [movePass]
  obtain ⟨hm, hpick⟩ := pickFromPdev_spec (w.pdevQ .nonScan) (w.pdevQ .nonScan).pendingList
  revert hp hm hpick
  generalize pickFromPdev (w.pdevQ .nonScan) (w.pdevQ .nonScan).pendingList = res
  rintro hp hm hpick
  obtain ⟨q', _ | ⟨n, c⟩⟩ := res
  · exact .rest hm.rest.1 hm.rest.2 hi (by simp)
  · obtain ⟨hn, hc, hv, -⟩ := hpick n c rfl
    obtain ⟨hr, hf⟩ := hm.rest
    have hrest : Effect vdevs w [] .rest (w.setQ .nonScan q') [] := .rest hr hf (by simp) (by simp)
    have hB' : Base vdevs (w.setQ .nonScan q') ([] ++ frames) := .effect hrest hB
    have hcase : MoveCase (w.setQ .nonScan q') c (moveToActive (w.setQ .nonScan q') .nonScan c) :=
      moveToActive_case hB' (hr.list .nonScan false ▸ hn) (hr.cmd .nonScan n ▸ hc)
        (fun _ => hf ▸ hv) (by simp)
    have hone : ∀ f ∈ [Frame.moveOn], f.idle = true := by simp [Frame.idle]
    have hturned : Turned vdevs w f _ :=
      hcase.turned hr hf (fun _ => hv) hi hone fun _ => hp n c rfl
    revert hturned
    simp only
    generalize moveToActive (w.setQ .nonScan q') .nonScan c = res
    obtain ⟨w', _ | ⟨f', fs⟩⟩ := res <;> exact id

theorem moveNonScan_turned (hB : Base vdevs w frames) (vdev : Option ℕ) (removed : Bool) :
    Turned vdevs w (.move .nonScan vdev removed)
      (wlanSerMoveNonScanPendingToActive w vdev removed) := by
  cases vdev with
  | none =>
    refine movePass_turned hB rfl fun n c h => ?_
    simp [Frame.picks, h]
  | some v =>
    rw [wlanSerMoveNonScanPendingToActive]
    by_cases hm : (!removed && (w.pdevQ .nonScan).blockingCmdWaiting == 0) = true
    · simp only [hm, if_true]
      cases hpick : pickFromVdev (w.pdevQ .nonScan) (w.vdevQ v).pendingList with
      | none => exact .rest (.refl w) rfl rfl (by simp)
      | some p =>
        obtain ⟨n, c⟩ := p
        obtain ⟨hn, hc, hv⟩ := pickFromVdev_spec hpick
        have hmem : n ∈ (w.pdevQ .nonScan).list false := by
          have hn : n ∈ (w.vdevQ v).list false := hn
          rw [hB.placed.synced] at hn
          exact List.mem_of_mem_filter hn
        have hcase := moveToActive_case hB hmem hc (fun _ => hv) (by simp)
        have hnone : ∀ f ∈ ([] : List Frame), f.idle = true := by simp
        have hturned : Turned vdevs w (.move .nonScan (some v) removed) _ :=
          hcase.turned (.refl w) rfl (fun _ => hv) rfl hnone
            fun _ => by simp only [Frame.picks, hm, if_true, hpick, Option.map_some]
        revert hturned
        simp only
        generalize moveToActive w .nonScan c = res
        obtain ⟨w', _ | ⟨f', fs⟩⟩ := res <;> simp
    · simp only [hm, if_false, Bool.false_eq_true]
      refine movePass_turned hB rfl fun n c h => ?_
      simp only [Frame.picks, hm, if_false, Bool.false_eq_true, h, Option.map_some]

theorem moveOn_turned (hB : Base vdevs w frames) :
    Turned vdevs w .moveOn
      (if (w.pdevQ .nonScan).blockingCmdActive then (w, []) else movePass w) := by
  split
  · exact .rest (.refl w) rfl rfl (by simp)
  · rename_i hb
    refine movePass_turned hB rfl fun n c h => ?_
    simp [Frame.picks, hb, h]

theorem moveScan_turned (hB : Base vdevs w frames) (vdev : Option ℕ) (removed : Bool) :
    Turned vdevs w (.move .scan vdev removed) (wlanSerMoveScanPendingToActive w) := by
  rw [wlanSerMoveScanPendingToActive]
  cases hl : (w.pdevQ .scan).pendingList with
  | nil => exact .rest (.refl w) rfl rfl (by simp)
  | cons n l =>
    cases hc : ((w.pdevQ .scan).nodes n).cmd with
    | none => simp only [hc]; exact .rest (.refl w) rfl rfl (by simp)
    | some c =>
      simp only [hc]
      by_cases ha : isActiveScanCmdAllowed w = true
      · rw [if_pos ha]
        have hmem : n ∈ (w.pdevQ .scan).list false := by
          rw [show (w.pdevQ .scan).list false = n :: l from hl]
          exact List.mem_cons_self
        have hlen : ((w.pdevQ .scan).list true).length < Kind.scan.maxSize true := by
          have ha : (w.pdevQ .scan).activeList.length + w.scansElsewhere < maxActiveScans :=
            of_decide_eq_true ha
          rw [maxActiveScans] at ha
          show (w.pdevQ .scan).activeList.length < 8
          omega
        obtain ⟨c', hc', hk, -⟩ := hB.placed.cmd .scan false n hmem
        obtain rfl : c = c' := by simpa [hc] using hc'
        have hcase := moveToActive_case hB hmem hc (by simp) fun _ => hlen
        have hnone : ∀ f ∈ ([] : List Frame), f.idle = true := by simp
        have hturned : Turned vdevs w (.move .scan vdev removed) _ :=
          hcase.turned (.refl w) rfl (by simp [hk]) rfl hnone (by simp [hk])
        revert hturned
        generalize moveToActive w .scan c = res
        obtain ⟨w', _ | ⟨f', fs⟩⟩ := res <;> simp
      · rw [if_neg ha]
        exact .rest (.refl w) rfl rfl (by simp)

/-! ## Removing and cancelling -/

theorem dequeue_turned {f : Frame} (hB : Base vdevs w frames) (key : CmdKey) (hi : f.idle = true) :
    Turned vdevs w f (wlanSerializationDequeueCmd w key) := by
  rw [wlanSerializationDequeueCmd]
  have hcase := wlanSerRemoveCmd_case hB.placed.synced key.kind key true
  revert hcase
  generalize wlanSerRemoveCmd w key.kind key true = res
  rintro (h | ⟨n, h, hm⟩ | ⟨w₁, n, c, hu, rfl⟩)
  · exact .rest (.refl w) rfl hi (by simp)
  · have hmark : Marked (w.pdevQ key.kind) ((w.pdevQ key.kind).markForRemoval n) := .setNode rfl id
    exact .rest hmark.rest.1 hmark.rest.2 hi (by simp)
  · simp only [hu.nodes, hu.cmd]
    refine ⟨.remove n c, .remove n c (.of_unlinks rfl hu) ?_ (by simpa using hi), trivial⟩
    have hfl := hu.flags
    simp only [and_true] at hfl
    rw [← hfl]
    cases hk : c.kind with
    | scan => simp
    | nonScan => simp [World.flags]

/-- What the loop of a cancel finds: marks have changed only, and the command is
    in the list. -/
theorem cancelLoop_spec (q : PdevQueue) (k : Kind) (r : CancelReq) (active stopped : Bool)
    (left : ℕ) (node prev : Option ℕ) :
    Marked q (cancelLoop q k r active stopped left node prev).1 ∧
      ∀ n c p l, (cancelLoop q k r active stopped left node prev).2 = some (n, c, p, l) →
        n ∈ q.list active ∧ (q.nodes n).cmd = some c := by
  induction left generalizing q node prev with
  | zero => exact ⟨.refl q, by simp [cancelLoop]⟩
  | succ left ih =>
    rw [cancelLoop]
    cases hget : getCmdFromQueue (q.list active) node with
    | none => exact ⟨.refl q, by simp⟩
    | some n =>
      have hn : n ∈ q.list active := by
        cases node with
        | none => exact List.mem_of_mem_head? hget
        | some m =>
          exact (List.dropWhile_suffix _).subset (List.mem_of_getElem? hget)
      simp only
      cases hc : (q.nodes n).cmd with
      | none => exact ih q (some n) (some n)
      | some c =>
        simp only
        split
        · exact ih q (some n) (some n)
        · split
          · have hmark : Marked q (q.markForCancel n) := .setNode rfl id
            obtain ⟨hm, hfound⟩ := ih (q.markForCancel n) (some n) prev
            refine ⟨hmark.trans hm, fun m c' p l h => ?_⟩
            have h := hfound m c' p l h
            rwa [hmark.cmd, hmark.list] at h
          · split
            · exact ⟨.refl q, by simp⟩
            · refine ⟨.refl q, fun m c' p l h => ?_⟩
              simp only [Option.some.injEq, Prod.mk.injEq] at h
              obtain ⟨rfl, rfl, -⟩ := h
              exact ⟨hn, hc⟩

theorem cancelEnd_idle (k : Kind) (active : Bool) : ∀ f ∈ cancelEnd k active, f.idle = true := by
  rw [cancelEnd]
  split <;> simp [Frame.idle]

theorem cancelFrom_effect (hB : Base vdevs w frames) (k : Kind) (r : CancelReq)
    (active stopped : Bool) (prev : Option ℕ) (left : ℕ) (hi : ∀ f ∈ fs, f.idle = true) :
    ∃ lab, Effect vdevs w fs lab (cancelFrom w k r active stopped prev left).1
      (cancelFrom w k r active stopped prev left).2 ∧
      (lab = .rest ∧ (cancelFrom w k r active stopped prev left).2 = cancelEnd k active ∨
        ∃ n c, lab = .cancel active n c ∧ c.kind = k) := by
  rw [cancelFrom]
  obtain ⟨hm, hfound⟩ := cancelLoop_spec (w.pdevQ k) k r active stopped left prev prev
  revert hm hfound
  generalize cancelLoop (w.pdevQ k) k r active stopped left prev prev = res
  rintro hm hfound
  obtain ⟨hr, hf⟩ := hm.rest
  obtain ⟨q', _ | ⟨n, c, prev', left'⟩⟩ := res
  · exact ⟨.rest, .rest hr hf hi (cancelEnd_idle k active), .inl ⟨rfl, rfl⟩⟩
  · obtain ⟨hn, hc⟩ := hfound n c prev' left' rfl
    obtain ⟨c', hc', hk, -⟩ := hB.placed.cmd k active n hn
    obtain rfl : c = c' := by simpa [hc] using hc'
    obtain ⟨hs, hf'⟩ := cancelTake_shift (w := w.setQ k q') (b := active) hk
      (hr.list k active ▸ hn) (hr.cmd k n ▸ hc)
    refine ⟨.cancel active n c, ?_, .inr ⟨n, c, rfl, hk⟩⟩
    have : Effect vdevs w fs (.cancel active n c) _ _ :=
      .cancel active n c r prev' left' (hs.of_rest hr) (hf'.trans hf) hi
    rwa [hk] at this

/-! ## Requesting -/

/-- The list that a request would go to. -/
def World.target (w : World) (cmd : Command) : Bool := (isActiveCmdAllowed w cmd).2

/-- The list that a request would go to has room. -/
def World.HasRoom (w : World) (cmd : Command) (b : Bool) : Prop :=
  (cmd.kind = .scan → ((w.pdevQ .scan).list b).length ≠ Kind.scan.maxSize b) ∧
  (cmd.kind = .nonScan → ((w.vdevQ cmd.vdev).list b).length ≠ vdevMaxSize b)

/-- **A request is accepted**: its vdev takes requests, the list that it would go to
    has no command with its key and has room, and there is a free node. -/
def World.Accepts (w : World) (cmd : Command) : Prop :=
  (cmd.kind = .nonScan → (w.vdevQ cmd.vdev).queueDisable = false) ∧
  isCmdPresentQueue w cmd.toCmdKey (w.target cmd) = false ∧
  (w.pdevQ cmd.kind).cmdPoolList ≠ [] ∧ w.HasRoom cmd (w.target cmd)

instance (w : World) (cmd : Command) (b : Bool) : Decidable (w.HasRoom cmd b) :=
  inferInstanceAs (Decidable (_ ∧ _))

instance (w : World) (cmd : Command) : Decidable (w.Accepts cmd) :=
  inferInstanceAs (Decidable (_ ∧ _ ∧ _ ∧ _))

/-- A command that is to be active at once does not wait. -/
theorem Flags.Admits.wait {f : Flags} (h : f.Admits c) : f.wait c = f := by
  rw [Flags.Admits] at h
  rw [Flags.wait, if_neg]
  rintro ⟨-, hb, hne⟩
  rw [if_pos hb] at h
  exact hne h

/-- The admission test changes the count of waiting commands only, and a command
    that is to be active at once passes it. -/
theorem isActiveCmdAllowed_spec (w : World) (cmd : Command) :
    (∃ x, (isActiveCmdAllowed w cmd).1 =
      w.setQ cmd.kind { w.pdevQ cmd.kind with blockingCmdWaiting := x }) ∧
    (isActiveCmdAllowed w cmd).1.flags = w.flags.wait cmd ∧
    (w.target cmd = true → cmd.kind = .nonScan →
      w.flags.Admits cmd ∧ (w.vdevQ cmd.vdev).pendingList = []) := by
  rw [World.target, isActiveCmdAllowed]
  cases hk : cmd.kind with
  | scan =>
    refine ⟨⟨(w.pdevQ .scan).blockingCmdWaiting, ?_⟩, by simp [Flags.wait, hk], by simp⟩
    simp [World.setQ]
  | nonScan =>
    refine ⟨⟨_, rfl⟩, ?_, fun h _ => ?_⟩
    · rw [World.setQ_frame.2.2.2.2.2.2, if_pos rfl, isActiveNonScanCmdAllowed, Flags.wait]
      by_cases hb : cmd.isBlocking = true
      · rw [show (w.pdevQ .nonScan).anyVdevCmdActive = decide (w.flags.bits ≠ ∅) from rfl]
        by_cases ha : w.flags.bits = ∅
        · simp [hb, ha]
          rfl
        · simp [hb, ha, hk]
          rfl
      · simp only [hb, if_false, Bool.false_eq_true, false_and, and_false]
        split <;> rfl
    · simp only [Bool.and_eq_true, List.isEmpty_iff] at h
      refine ⟨?_, h.2⟩
      have h := h.1
      rw [isActiveNonScanCmdAllowed] at h
      rw [Flags.Admits]
      by_cases hb : cmd.isBlocking = true
      · rw [if_pos hb] at h ⊢
        split at h
        · cases h
        · rename_i ha
          rw [show (w.pdevQ .nonScan).anyVdevCmdActive = decide (w.flags.bits ≠ ∅) from rfl] at ha
          simpa using ha
      · rw [if_neg hb] at h ⊢
        split at h
        · cases h
        · rename_i ha
          simp only [not_or, Bool.not_eq_true, ne_eq, not_not] at ha
          exact ⟨ha.1, ha.2, of_decide_eq_true h⟩

theorem isCmdPresentQueue_eq (w : World) (cmd : Command) (b : Bool) (x : ℕ) :
    isCmdPresentQueue (w.setQ cmd.kind { w.pdevQ cmd.kind with blockingCmdWaiting := x })
      cmd.toCmdKey b = isCmdPresentQueue w cmd.toCmdKey b := by
  rw [isCmdPresentQueue, isCmdPresentQueue]
  cases hk : cmd.kind <;> cases b <;> simp [PdevQueue.findCmd, PdevQueue.list]

theorem findCmd_none_iff {q : PdevQueue} {l : List ℕ} {key : CmdKey} :
    (q.findCmd l key).isSome = false ↔
      l.countP (fun n => (q.nodes n).cmd.any (·.toCmdKey == key)) = 0 := by
  rw [Option.isSome_eq_false_iff, Option.isNone_iff_eq_none, PdevQueue.findCmd,
    List.find?_eq_none, List.countP_eq_zero]
  refine forall₂_congr fun n _ => ?_
  cases (q.nodes n).cmd <;> simp

/-- The duplicate check. -/
theorem isCmdPresentQueue_false (hs : Synced w) (cmd : Command) (b : Bool) :
    isCmdPresentQueue w cmd.toCmdKey b = false ↔
      w.num cmd.kind b (·.toCmdKey == cmd.toCmdKey) = 0 := by
  rw [isCmdPresentQueue, World.num]
  cases hk : cmd.kind with
  | scan => simpa only [hk] using findCmd_none_iff
  | nonScan =>
    simp only
    rw [hs, PdevQueue.findCmd_ofVdev]
    exact findCmd_none_iff

/-- The command gets the first node of the pool. -/
structure Pops (w w' : World) (n : ℕ) (c : Command) : Prop where
  mem : n ∈ (w.pdevQ c.kind).cmdPoolList
  pool : ∀ k, (w'.pdevQ k).cmdPoolList.Perm
    (if k = c.kind then (w.pdevQ k).cmdPoolList.erase n else (w.pdevQ k).cmdPoolList)
  list : ∀ k b, (w'.pdevQ k).list b = (w.pdevQ k).list b
  vdev : ∀ v b, (w'.vdevQ v).list b = (w.vdevQ v).list b
  cmd : ∀ k m, ((w'.pdevQ k).nodes m).cmd =
    if k = c.kind ∧ m = n then some c else ((w.pdevQ k).nodes m).cmd
  marked : ∀ k m, w'.Marked k m → w.Marked k m
  nextReq : w'.nextReq = w.nextReq
  todo : w'.todo = w.todo
  elsewhere : w'.scansElsewhere = w.scansElsewhere
  released : w'.released = w.released

theorem Pops.of_rest {pool : List ℕ} (h : Rest w w₁)
    (hpool : (w₁.pdevQ c.kind).cmdPoolList = (w.pdevQ c.kind).cmdPoolList)
    (hl : (w₁.pdevQ c.kind).cmdPoolList = n :: pool) {inUse : InUse}
    (hu : inUse = ((w₁.pdevQ c.kind).nodes n).inUse) :
    Pops w ((w₁.setQ c.kind { w₁.pdevQ c.kind with cmdPoolList := pool }).setQ c.kind
      (((w₁.setQ c.kind { w₁.pdevQ c.kind with cmdPoolList := pool }).pdevQ c.kind).setNode n
        ⟨some c, inUse⟩)) n c where
  mem := by
    rw [← hpool, hl]
    exact List.mem_cons_self
  pool k := by
    by_cases hk : k = c.kind
    · subst hk
      simp [← hpool, hl]
    · simpa [hk] using h.pool k
  list k b := by
    rw [← h.list]
    by_cases hk : k = c.kind
    · subst hk
      cases b <;> simp [PdevQueue.list, PdevQueue.setNode]
    · simp [hk]
  vdev := h.vdev
  cmd k m := by
    rw [← h.cmd]
    by_cases hk : k = c.kind
    · subst hk
      by_cases hm : m = n
      · subst hm
        simp
      · simp [hm]
    · simp [hk]
  marked k m hm := by
    refine h.marked k m ?_
    by_cases hk : k = c.kind
    · subst hk
      by_cases hmn : m = n
      · subst hmn
        simpa [World.Marked, hu] using hm
      · simpa [World.Marked, hmn] using hm
    · simpa [World.Marked, hk] using hm
  nextReq := h.nextReq
  todo := h.todo
  elsewhere := h.elsewhere
  released := h.released

/-- The node is given back: the lists cannot take its command. -/
theorem Pops.giveBack (hP : Placed vdevs w) (h : Pops w w₁ n c) (h' : Still w₁ w') :
    Rest w (w'.setQ c.kind (((w'.pdevQ c.kind).setNode n .free).toPool n)) where
  pool k := by
    have hpool := h.pool k
    by_cases hk : k = c.kind
    · subst hk
      rw [if_pos rfl] at hpool
      have := (hpool.cons n).trans (List.perm_cons_erase h.mem).symm
      simpa [h'.pool] using (List.perm_append_singleton n _).trans this
    · rw [if_neg hk] at hpool
      simpa [hk, h'.pool] using hpool
  list k b := by
    by_cases hk : k = c.kind
    · subst hk
      simp [h'.list, h.list]
    · simp [hk, h'.list, h.list]
  vdev v b := by simp [h'.vdev, h.vdev]
  cmd k m := by
    by_cases hk : k = c.kind
    · subst hk
      by_cases hm : m = n
      · subst hm
        simp [Node.free, hP.free c.kind m h.mem]
      · simp [hm, h'.nodes, h.cmd]
    · simp [hk, h'.nodes, h.cmd]
  marked k m hm := by
    refine h.marked k m ?_
    rw [World.Marked, ← h'.nodes]
    by_cases hk : k = c.kind
    · subst hk
      by_cases hmn : m = n
      · subst hmn
        simp [World.Marked, Node.free, InUse.zero] at hm
      · simpa [World.Marked, hmn] using hm
    · simpa [World.Marked, hk] using hm
  nextReq := by simp [h'.nextReq, h.nextReq]
  todo := by simp [h'.todo, h.todo]
  elsewhere := by simp [h'.elsewhere, h.elsewhere]
  released := by simp [h'.released, h.released]

/-- The command is put into lists. -/
theorem Pops.link (hP : Placed vdevs w) (h : Pops w w₁ n c) (h' : Links w₁ w' b n c)
    (hreq : c.req = w.nextReq) :
    Shift w { w' with nextReq := w'.nextReq + 1 } n c .pool (.list b) where
  ne := by simp
  mem := h.mem
  pool k := by
    simpa only [h'.pool, and_true, reduceCtorEq, and_false, if_false] using h.pool k
  list k b' := by
    by_cases hk : k = c.kind
    · subst hk
      simp [h'.list, h.list]
    · simp [hk, h'.list, h.list]
  vdev v b' := by
    simp only [h'.vdev, h.vdev, reduceCtorEq, if_false, Place.list.injEq]
    by_cases hv : c.kind = .nonScan ∧ v = c.vdev
    · simp [hv]
    · rw [if_neg hv, if_neg fun h => hv ⟨h.1, h.2.1⟩]
  before hp := absurd rfl hp
  cmd k m := by simp [h'.nodes, h.cmd]
  marked k m hm := by
    refine .inl ⟨h.marked k m ?_, by simp⟩
    rwa [World.Marked, ← h'.nodes]
  room b' hb hk := by
    cases hb
    rw [← length_vdev_list hP.synced]
    have hroom := h'.room hk
    have hle := hP.vsize c.vdev b
    rw [← length_vdev_list hP.synced] at hle
    rw [h.vdev] at hroom
    omega
  nextReq := by simp [h'.nextReq, h.nextReq]
  req _ := hreq
  todo := h'.todo.trans h.todo
  elsewhere := h'.elsewhere.trans h.elsewhere
  released := h'.released.trans h.released

theorem enqueueNode_case (hP : Placed vdevs w) (hv : c.vdev ∈ vdevs.ids) (hreq : c.req = w.nextReq)
    (h : Pops w (w₁.setQ c.kind ((w₁.pdevQ c.kind).setNode n
      ⟨some c, ((w₁.pdevQ c.kind).nodes n).inUse⟩)) n c) (b : Bool) :
    (w.HasRoom c b ∧ Shift w (enqueueNode w₁ n c b).1 n c .pool (.list b) ∧
      (enqueueNode w₁ n c b).1.flags =
        (if b = true ∧ c.kind = .nonScan then w₁.flags.note c.vdev c.isBlocking else w₁.flags) ∧
      ∀ f ∈ (enqueueNode w₁ n c b).2, f.idle = true) ∨
    (¬w.HasRoom c b ∧ Rest w (enqueueNode w₁ n c b).1 ∧
      (enqueueNode w₁ n c b).1.flags = w₁.flags ∧ (enqueueNode w₁ n c b).2 = []) := by
  rw [enqueueNode]
  have hfl : (w₁.setQ c.kind ((w₁.pdevQ c.kind).setNode n
      ⟨some c, ((w₁.pdevQ c.kind).nodes n).inUse⟩)).flags = w₁.flags := by
    cases hk : c.kind <;> simp [World.flags]
  revert h hfl
  generalize w₁.setQ c.kind ((w₁.pdevQ c.kind).setNode n
      ⟨some c, ((w₁.pdevQ c.kind).nodes n).inUse⟩) = w₂
  rintro h hfl
  have hadd := wlanSerAddCmd_case (w := w₂) b n (c := c) fun _ => by
    rw [h.list, h.vdev]
    exact hP.room hv
  revert hadd
  simp only
  generalize wlanSerAddCmd w₂ c.kind n c b = res
  rintro (⟨w₃, hstill, hs, hn⟩ | ⟨w₃, hl⟩)
  · refine .inr ⟨?_, h.giveBack hP hstill, ?_, rfl⟩
    · rintro ⟨hs', hn'⟩
      rw [h.list] at hs
      rw [h.vdev] at hn
      cases hk : c.kind with
      | scan => exact hs' hk (hs hk)
      | nonScan => exact hn' hk (hn hk)
    · rw [← hfl, ← hstill.flags]
      cases hk : c.kind <;> simp [World.flags]
  · refine .inl ⟨⟨fun hk => ?_, fun hk => ?_⟩, ?_⟩
    · have := hl.pdevRoom hk
      rwa [h.list] at this
    · have := hl.room hk
      rwa [h.vdev] at this
    · have hshift := h.link hP hl hreq
      rw [← hfl]
      cases b with
      | false => exact ⟨hshift, (show w₃.flags = _ from by simpa using hl.flags), by simp⟩
      | true =>
        refine ⟨hshift.then_mark rfl (fun b => ?_) (fun m => ?_) fun m hmn hm => ?_, ?_,
          by simp [Frame.idle]⟩
        · cases b <;> rfl
        · by_cases hm : m = n
          · subst hm
            simp [PdevQueue.markForActivation]
          · simp [PdevQueue.markForActivation, hm]
        · simpa [PdevQueue.markForActivation, World.Marked, hmn] using hm
        · have hl := hl.flags
          simp only [and_true] at hl
          simp only [true_and]
          rw [← hl]
          cases hk : c.kind <;> rfl

/-- The admission test leaves everything but the count of waiting commands. -/
theorem admission_spec (w : World) (cmd : Command) :
    ∃ w₀, isActiveCmdAllowed w cmd = (w₀, w.target cmd) ∧ Rest w w₀ ∧
      (w₀.pdevQ cmd.kind).cmdPoolList = (w.pdevQ cmd.kind).cmdPoolList ∧
      w₀.flags = w.flags.wait cmd ∧
      ∀ b, isCmdPresentQueue w₀ cmd.toCmdKey b = isCmdPresentQueue w cmd.toCmdKey b := by
  obtain ⟨⟨x, hx⟩, hfl, -⟩ := isActiveCmdAllowed_spec w cmd
  rw [hx] at hfl
  refine ⟨w.setQ cmd.kind { w.pdevQ cmd.kind with blockingCmdWaiting := x }, Prod.ext hx rfl,
    .setQ .rfl (fun b => ?_) (fun _ => rfl) fun _ => id, by simp, hfl,
    fun b => isCmdPresentQueue_eq w cmd b x⟩
  cases b <;> rfl

theorem enqueue_effect (hB : Base vdevs w frames) (hv : cmd.vdev ∈ vdevs.ids) :
    (w.Accepts cmd ∧ ∃ n, Effect vdevs w []
      (.accept (w.target cmd) n { cmd with req := w.nextReq })
      (wlanSerializationEnqueueCmd w cmd).1 (wlanSerializationEnqueueCmd w cmd).2) ∨
    (¬w.Accepts cmd ∧ ∃ lab, Effect vdevs w [] lab
      (wlanSerializationEnqueueCmd w cmd).1 (wlanSerializationEnqueueCmd w cmd).2 ∧
      (lab = .rest ∧ ¬(cmd.kind = .nonScan → (w.vdevQ cmd.vdev).queueDisable = false) ∨
        lab = .refuse cmd ∧ (cmd.kind = .nonScan → (w.vdevQ cmd.vdev).queueDisable = false))) := by
  rw [wlanSerializationEnqueueCmd, World.Accepts]
  by_cases hd : cmd.kind = .nonScan ∧ (w.vdevQ cmd.vdev).queueDisable = true
  · rw [if_pos hd]
    have hdis : ¬(cmd.kind = .nonScan → (w.vdevQ cmd.vdev).queueDisable = false) := fun h => by
      simp [h hd.1] at hd
    exact .inr ⟨fun h => hdis h.1, .rest, .rest (.refl w) rfl (by simp) (by simp), .inl ⟨rfl, hdis⟩⟩
  · have hd' : cmd.kind = .nonScan → (w.vdevQ cmd.vdev).queueDisable = false := fun hk => by
      simpa [hk] using hd
    rw [if_neg hd]
    obtain ⟨w₀, hcall, hrest, hpool, hfl, hpres⟩ := admission_spec w cmd
    have hadm := (isActiveCmdAllowed_spec w cmd).2.2
    simp only [hcall, hpres]
    by_cases hp : isCmdPresentQueue w cmd.toCmdKey (w.target cmd) = true
    · rw [if_pos hp]
      exact .inr ⟨fun h => by simp [hp] at h, .refuse cmd, .refuse cmd hrest hfl, .inr ⟨rfl, hd'⟩⟩
    · rw [if_neg hp, ← hpool]
      have hnew : isCmdPresentQueue w cmd.toCmdKey (w.target cmd) = false := by simpa using hp
      cases hl : (w₀.pdevQ cmd.kind).cmdPoolList with
      | nil =>
        exact .inr ⟨fun h => by simp at h, .refuse cmd, .refuse cmd hrest hfl, .inr ⟨rfl, hd'⟩⟩
      | cons n pool =>
        simp only
        have hnode : ((w₀.pdevQ cmd.kind).nodes n).inUse = (((w₀.setQ cmd.kind
            { w₀.pdevQ cmd.kind with cmdPoolList := pool }).pdevQ cmd.kind).nodes n).inUse := by
          simp
        have hpops := Pops.of_rest (c := { cmd with req := w₀.nextReq }) hrest hpool hl hnode.symm
        have hcase := enqueueNode_case (c := { cmd with req := w₀.nextReq }) hB.placed hv
          hrest.nextReq hpops (w.target cmd)
        have hflags : (w₀.setQ cmd.kind { w₀.pdevQ cmd.kind with cmdPoolList := pool }).flags =
            w.flags.wait cmd := by
          rw [← hfl]
          cases cmd.kind <;> rfl
        rw [hflags] at hcase
        rcases hcase with ⟨hroom, hs, hfl', hidle⟩ | ⟨hroom, hr, hfl', hnil⟩
        · refine .inl ⟨⟨hd', hnew, by simp, hroom⟩, n, ?_⟩
          rw [← hrest.nextReq]
          refine .accept _ n _ hs hv ((isCmdPresentQueue_false hB.placed.synced cmd _).1 hnew)
            (fun ht hk => (hadm ht hk).1) ?_ hidle
          rw [hfl']
          split
          · rename_i ht
            rw [(hadm ht.1 ht.2).1.wait]
          · rfl
        · refine .inr ⟨fun h => hroom h.2.2.2, .refuse cmd, ?_, .inr ⟨rfl, hd'⟩⟩
          rw [hnil]
          exact .refuse cmd hr hfl'

/-! ## Sections -/

theorem cancelFrom_turned {f : Frame} (hB : Base vdevs w frames) (k : Kind) (r : CancelReq)
    (active stopped : Bool) (prev : Option ℕ) (left : ℕ) (hi : f.idle = true) :
    Turned vdevs w f (cancelFrom w k r active stopped prev left) := by
  have hi : ∀ f' ∈ [f], f'.idle = true := by simpa using hi
  obtain ⟨lab, h, hlab⟩ := cancelFrom_effect hB k r active stopped prev left hi
  refine ⟨lab, h, ?_⟩
  rcases hlab with ⟨rfl, -⟩ | ⟨n, c, rfl, -⟩ <;> trivial

/-- The flags of a cancelled command are cleared. -/
theorem clearCancelled_effect (w : World) (r : CancelReq) (active : Bool) (v : ℕ) (blocking : Bool)
    (prev : Option ℕ) (left : ℕ) :
    Effect vdevs w [.cancelOn .nonScan r active v blocking prev left] (.clear active v blocking)
      (w.setQ .nonScan ((w.pdevQ .nonScan).clearCancelled active v blocking)) [] := by
  refine .clear active r v blocking prev left (.setQ ?_ (fun b => ?_) (fun n => ?_)
    fun n hn => ?_) ?_
  · cases active <;> exact .rfl
  · cases active <;> cases b <;> rfl
  · cases active <;> rfl
  · cases active <;> exact hn
  · rw [World.setQ_frame.2.2.2.2.2.2, if_pos rfl, PdevQueue.clearCancelled]
    cases active with
    | true => exact PdevQueue.clearActive_frame.2.2
    | false => exact PdevQueue.flags_unwait

/-- **A section of a call is one effect**, or the clearing of the flags of a
    cancelled command and then one effect that goes on with the cancel. -/
theorem Frame.run_effect {f : Frame} (hB : Base vdevs w (f :: others)) (ok : Bool) :
    Turned vdevs w f (f.run w ok) ∨
    ∃ w₁ b v blocking lab, Effect vdevs w [f] (.clear b v blocking) w₁ [] ∧
      Effect vdevs w₁ [] lab (f.run w ok).1 (f.run w ok).2 ∧
      (lab = .rest ∨ ∃ n c, lab = .cancel b n c) := by
  cases f with
  | activate k n =>
    have hmark : Marked (w.pdevQ k) ((w.pdevQ k).setNode n { (w.pdevQ k).nodes n with
        inUse := { ((w.pdevQ k).nodes n).inUse with
          markedForActivation := false, isActive := true } }) :=
      .setNode rfl (by simp)
    exact .inl (.rest hmark.rest.1 hmark.rest.2 rfl (by simp [Frame.idle]))
  | activated k n ok' =>
    refine .inl ?_
    simp only [Frame.run]
    split
    · exact .rest (.refl w) rfl rfl (by simp [Frame.idle])
    · split <;> exact .rest (.refl w) rfl rfl (by simp [Frame.idle])
  | dequeue key => exact .inl (dequeue_turned hB key rfl)
  | dequeueNode k n =>
    refine .inl ?_
    simp only [Frame.run]
    split
    · exact .rest (.refl w) rfl rfl (by simp)
    · exact dequeue_turned hB _ rfl
  | move k vdev removed =>
    refine .inl ?_
    cases k with
    | scan => exact moveScan_turned hB vdev removed
    | nonScan => exact moveNonScan_turned hB vdev removed
  | moveOn => exact .inl (moveOn_turned hB)
  | release req => exact .inl ⟨.release req, .release req, trivial⟩
  | cancel k r active => exact .inl (cancelFrom_turned hB k r active ok none _ rfl)
  | cancelNode k n =>
    refine .inl ?_
    simp only [Frame.run]
    split
    · exact .rest (.refl w) rfl rfl (by simp)
    · exact cancelFrom_turned hB _ _ true ok none _ rfl
  | cancelOn k r active v blocking prev left =>
    cases k with
    | scan => exact .inl (cancelFrom_turned hB .scan r active ok prev left rfl)
    | nonScan =>
      have hclear : Effect vdevs w _ _ _ [] := clearCancelled_effect w r active v blocking prev left
      simp only [Frame.run, cancelResume]
      split
      · exact .inr ⟨_, active, v, blocking, .rest, hclear,
          .rest (.refl _) rfl (by simp) (cancelEnd_idle _ _), .inl rfl⟩
      · have hB' : Base vdevs _ ([] ++ others) := .effect hclear hB
        have hi : ∀ f ∈ ([] : List Frame), f.idle = true := by simp
        obtain ⟨lab, h, hlab⟩ := cancelFrom_effect hB' .nonScan r active ok prev left hi
        exact .inr ⟨_, active, v, blocking, lab, hclear, h,
          hlab.imp And.left fun ⟨n, c, hl, _⟩ => ⟨n, c, hl⟩⟩
  | reactivate =>
    refine .inl ?_
    simp only [Frame.run]
    split <;> exact .rest (.refl w) rfl rfl (by simp [Frame.idle])

end Sm8850.Serialization
