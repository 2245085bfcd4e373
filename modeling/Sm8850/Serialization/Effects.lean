/-
  What a section of the serialization engine can do, said once.

  * `Effect` lists the effects.  Four of them put a node from one place into
    another (`Shift`): a request is admitted, a pending command becomes active, a
    command is removed, a command is cancelled.  The others leave the nodes where
    they are (`Rest`).
  * `World.num` counts the commands of a list; `Shift.num` says how a shift changes
    every such count, and the invariants are equations between these counts.
  * `Placed` is what the engine keeps of its lists under every effect.
-/
import Mathlib.Algebra.GroupWithZero.Nat
import Mathlib.Data.List.Perm.Basic
import Mathlib.Algebra.Order.BigOperators.Group.List
import Mathlib.Algebra.Order.Group.Nat
import Sm8850.Serialization.Sections

namespace Sm8850.Serialization

variable {w w' : World} {k k' : Kind} {b b' : Bool} {n m v : ℕ} {c : Command} {vdevs : Vdevs}

/-! ## Places -/

/-- Where a node is: in the pool, or in the active or the pending list. -/
inductive Place where
  | pool
  | list (active : Bool)
  deriving DecidableEq

/-- The nodes in a place. -/
def PdevQueue.held (q : PdevQueue) : Place → List ℕ
  | .pool => q.cmdPoolList
  | .list b => q.list b

@[simp] theorem PdevQueue.held_pool (q : PdevQueue) : q.held .pool = q.cmdPoolList := rfl

@[simp] theorem PdevQueue.held_list (q : PdevQueue) (b : Bool) : q.held (.list b) = q.list b := rfl

/-- The command in a node is about to be activated. -/
def World.Marked (w : World) (k : Kind) (n : ℕ) : Prop :=
  ((w.pdevQ k).nodes n).inUse.markedForActivation = true

/-- How many commands of a list have a property. -/
def World.num (w : World) (k : Kind) (b : Bool) (g : Command → Bool) : ℕ :=
  ((w.pdevQ k).list b).countP fun n => ((w.pdevQ k).nodes n).cmd.any g

/-- The node `n` with the command `c` is put from one place into another. -/
structure Shift (w w' : World) (n : ℕ) (c : Command) (p p' : Place) : Prop where
  ne : p ≠ p'
  mem : n ∈ (w.pdevQ c.kind).held p
  pool : ∀ k, (w'.pdevQ k).cmdPoolList.Perm
    (if k = c.kind ∧ p = .pool then (w.pdevQ k).cmdPoolList.erase n
    else if k = c.kind ∧ p' = .pool then n :: (w.pdevQ k).cmdPoolList
    else (w.pdevQ k).cmdPoolList)
  list : ∀ k b, (w'.pdevQ k).list b =
    if k = c.kind then
      if .list b = p then ((w.pdevQ k).list b).erase n
      else if .list b = p' then insertNode c.isHighPriority n ((w.pdevQ k).list b)
      else (w.pdevQ k).list b
    else (w.pdevQ k).list b
  vdev : ∀ v b, (w'.vdevQ v).list b =
    if c.kind = .nonScan ∧ v = c.vdev then
      if .list b = p then ((w.vdevQ v).list b).erase n
      else if .list b = p' then insertNode c.isHighPriority n ((w.vdevQ v).list b)
      else (w.vdevQ v).list b
    else (w.vdevQ v).list b
  before : p ≠ .pool → ((w.pdevQ c.kind).nodes n).cmd = some c
  cmd : ∀ k m, ((w'.pdevQ k).nodes m).cmd =
    if k = c.kind ∧ m = n then if p' = .pool then none else some c else ((w.pdevQ k).nodes m).cmd
  marked : ∀ k m, w'.Marked k m →
    (w.Marked k m ∧ ¬(k = c.kind ∧ m = n ∧ p' = .pool)) ∨ (k = c.kind ∧ m = n ∧ p' = .list true)
  room : ∀ b, p' = .list b → c.kind = .nonScan →
    w.num .nonScan b (·.vdev == c.vdev) < vdevMaxSize b
  nextReq : w'.nextReq = if p = .pool then w.nextReq + 1 else w.nextReq
  req : p = .pool → c.req = w.nextReq
  todo : w'.todo = w.todo
  elsewhere : w'.scansElsewhere = w.scansElsewhere
  released : w'.released = w.released

/-- Every node stays where it is, with its command. -/
structure Rest (w w' : World) : Prop where
  pool : ∀ k, (w'.pdevQ k).cmdPoolList.Perm (w.pdevQ k).cmdPoolList
  list : ∀ k b, (w'.pdevQ k).list b = (w.pdevQ k).list b
  vdev : ∀ v b, (w'.vdevQ v).list b = (w.vdevQ v).list b
  cmd : ∀ k m, ((w'.pdevQ k).nodes m).cmd = ((w.pdevQ k).nodes m).cmd
  marked : ∀ k m, w'.Marked k m → w.Marked k m
  nextReq : w'.nextReq = w.nextReq
  todo : w'.todo = w.todo
  elsewhere : w'.scansElsewhere = w.scansElsewhere
  released : w'.released = w.released

/-! ## What holds of the lists -/

/-- **The nodes are where they should be**: each in one place of its kind, the
    queued ones with a command of a vdev of the pdev and the others with none, and
    the lists of the vdevs are parts of the lists of the pdev that keep to their
    size. -/
structure Placed (vdevs : Vdevs) (w : World) : Prop where
  once : ∀ k n, ((w.pdevQ k).held (.list true)).count n + ((w.pdevQ k).held (.list false)).count n +
    ((w.pdevQ k).held .pool).count n = if n < k.poolSize then 1 else 0
  cmd : ∀ k b n, n ∈ (w.pdevQ k).list b →
    ∃ c, ((w.pdevQ k).nodes n).cmd = some c ∧ c.kind = k ∧ c.vdev ∈ vdevs.ids
  free : ∀ k n, n ∈ (w.pdevQ k).cmdPoolList → ((w.pdevQ k).nodes n).cmd = none
  synced : Synced w
  vsize : ∀ v b, w.num .nonScan b (·.vdev == v) ≤ vdevMaxSize b

theorem Placed.count_le (h : Placed vdevs w) (k : Kind) (p : Place) (n : ℕ) :
    ((w.pdevQ k).held p).count n ≤ 1 := by
  have := h.once k n
  rcases p with _ | b
  · split at this <;> omega
  · cases b <;> split at this <;> omega

theorem Placed.nodup (h : Placed vdevs w) (k : Kind) (p : Place) : ((w.pdevQ k).held p).Nodup :=
  List.nodup_iff_count_le_one.2 (h.count_le k p)

/-- A node is in one place only. -/
theorem Placed.notMem (h : Placed vdevs w) {p p' : Place} (hn : n ∈ (w.pdevQ k).held p)
    (hne : p ≠ p') : n ∉ (w.pdevQ k).held p' := by
  intro hn'
  have h1 := List.count_pos_iff.2 hn
  have h2 := List.count_pos_iff.2 hn'
  have := h.once k n
  rcases p with _ | b <;> rcases p' with _ | b'
  · exact hne rfl
  · cases b' <;> split at this <;> omega
  · cases b <;> split at this <;> omega
  · cases b <;> cases b' <;> first | exact hne rfl | (split at this <;> omega)

theorem mem_insertNode {front : Bool} {l : List ℕ} : m ∈ insertNode front n l ↔ m = n ∨ m ∈ l := by
  cases front <;> simp [insertNode, or_comm]

theorem countP_insertNode {front : Bool} {l : List ℕ} (g : ℕ → Bool) :
    (insertNode front n l).countP g = l.countP g + if g n then 1 else 0 := by
  cases front <;> simp [insertNode, List.countP_cons]

theorem filter_insertNode {front : Bool} {l : List ℕ} (g : ℕ → Bool) :
    (insertNode front n l).filter g =
      if g n then insertNode front n (l.filter g) else l.filter g := by
  cases front <;> by_cases h : g n = true <;> simp [insertNode, h]

theorem countP_erase_add {l : List ℕ} (h : n ∈ l) (g : ℕ → Bool) :
    (l.erase n).countP g + (if g n then 1 else 0) = l.countP g := by
  rw [(List.perm_cons_erase h).countP_eq, List.countP_cons]

/-- **What a shift does to the number of commands with a property.** -/
theorem Shift.num {p p' : Place} (hP : Placed vdevs w) (h : Shift w w' n c p p') (k : Kind)
    (b : Bool) (g : Command → Bool) :
    w'.num k b g + (if k = c.kind ∧ p = .list b ∧ g c then 1 else 0) =
      w.num k b g + (if k = c.kind ∧ p' = .list b ∧ g c then 1 else 0) := by
  -- the commands of the nodes but `n` are the same
  have hcongr : ∀ l : List ℕ, (k = c.kind → n ∉ l) →
      l.countP (fun m => ((w'.pdevQ k).nodes m).cmd.any g) =
        l.countP (fun m => ((w.pdevQ k).nodes m).cmd.any g) := by
    intro l hl
    refine List.countP_congr fun m hm => ?_
    rw [h.cmd, if_neg]
    rintro ⟨hk, rfl⟩
    exact hl hk hm
  rw [World.num, h.list, World.num]
  by_cases hk : k = c.kind
  · subst hk
    by_cases hp : p = .list b
    · subst hp
      have hnot : n ∉ ((w.pdevQ c.kind).list b).erase n := (hP.nodup c.kind (.list b)).not_mem_erase
      have hcmd : ((w.pdevQ c.kind).nodes n).cmd = some c := h.before (by simp)
      have := countP_erase_add h.mem fun m => ((w.pdevQ c.kind).nodes m).cmd.any g
      simp only [hcmd, PdevQueue.held_list] at this
      have hne : p' ≠ .list b := h.ne.symm
      simp only [if_true, true_and, hcongr _ fun _ => hnot, hne, false_and, if_false]
      simpa using this
    · have hnot : n ∉ (w.pdevQ c.kind).list b := hP.notMem h.mem hp
      by_cases hp' : p' = .list b
      · subst hp'
        have hcmd : ((w'.pdevQ c.kind).nodes n).cmd = some c := by simp [h.cmd]
        simp only [if_true, true_and, hp, Ne.symm hp, false_and, if_false, countP_insertNode,
          hcongr _ fun _ => hnot, hcmd]
        simp
      · simp only [if_true, true_and, hp, Ne.symm hp, hp', Ne.symm hp', false_and, if_false,
          hcongr _ fun _ => hnot]
  · simp only [hk, false_and, if_false, hcongr _ fun h => absurd h hk]

theorem Rest.num (h : Rest w w') (k : Kind) (b : Bool) (g : Command → Bool) :
    w'.num k b g = w.num k b g := by
  simp only [World.num, h.list, h.cmd]

theorem count_insertNode {front : Bool} {l : List ℕ} :
    (insertNode front n l).count m = l.count m + if n = m then 1 else 0 := by
  simp [List.count, countP_insertNode]

theorem count_erase_add {l : List ℕ} (h : n ∈ l) :
    (l.erase n).count m + (if n = m then 1 else 0) = l.count m := by
  have := countP_erase_add h (· == m)
  simpa [List.count] using this

/-- A shift keeps each node in one place. -/
theorem Shift.once {p p' : Place} (hP : Placed vdevs w) (h : Shift w w' n c p p') (k : Kind)
    (m : ℕ) :
    ((w'.pdevQ k).held (.list true)).count m + ((w'.pdevQ k).held (.list false)).count m +
      ((w'.pdevQ k).held .pool).count m = if m < k.poolSize then 1 else 0 := by
  rw [← hP.once k m]
  simp only [PdevQueue.held_list, PdevQueue.held_pool, h.list, (h.pool k).count_eq]
  by_cases hk : k = c.kind
  · subst hk
    have hmem := count_erase_add (m := m) h.mem
    have hne := h.ne
    rcases p with _ | b <;> rcases p' with _ | b'
    · exact absurd rfl hne
    · cases b' <;> simp [count_insertNode] at hmem ⊢ <;> omega
    · cases b <;> simp [List.count_cons] at hmem ⊢ <;> omega
    · cases b <;> cases b' <;> first
        | exact absurd rfl hne
        | (simp [count_insertNode] at hmem ⊢; omega)
  · simp only [hk, false_and, if_false]

theorem Shift.synced {p p' : Place} (hP : Placed vdevs w) (h : Shift w w' n c p p') :
    Synced w' := by
  intro v b
  -- a node but `n` is of the vdev as it was
  have hcongr : ∀ l : List ℕ, (c.kind = .nonScan → n ∉ l) →
      l.filter ((w'.pdevQ .nonScan).ofVdev v) = l.filter ((w.pdevQ .nonScan).ofVdev v) := by
    intro l hl
    refine List.filter_congr fun m hm => ?_
    rw [PdevQueue.ofVdev, PdevQueue.ofVdev, h.cmd, if_neg]
    rintro ⟨hk, rfl⟩
    exact hl hk.symm hm
  rw [h.list, h.vdev]
  by_cases hk : c.kind = .nonScan
  · have hmem := h.mem
    have hn : ((w.pdevQ .nonScan).list b).Nodup := hP.nodup .nonScan (.list b)
    simp only [hk, if_true, true_and]
    by_cases hp : Place.list b = p
    · subst hp
      have hof : (w.pdevQ .nonScan).ofVdev v n = (c.vdev == v) := by
        rw [PdevQueue.ofVdev, ← hk, h.before (by simp)]
        rfl
      rw [if_pos rfl, if_pos rfl, hcongr _ fun _ => hn.not_mem_erase, hP.synced,
        hn.erase_eq_filter, (hn.filter _).erase_eq_filter, List.filter_filter, List.filter_filter]
      split
      · exact List.filter_congr fun m _ => Bool.and_comm _ _
      · rename_i hv
        refine List.filter_congr fun m _ => ?_
        by_cases hm : m = n
        · subst hm
          simp [hof, Ne.symm hv]
        · simp [hm]
    · have hnot : n ∉ (w.pdevQ .nonScan).list b := hk ▸ hP.notMem hmem (Ne.symm hp)
      rw [if_neg hp, if_neg hp]
      by_cases hp' : Place.list b = p'
      · subst hp'
        have hof : (w'.pdevQ .nonScan).ofVdev v n = (c.vdev == v) := by
          simp [PdevQueue.ofVdev, h.cmd, hk]
        rw [if_pos rfl, if_pos rfl, filter_insertNode, hcongr _ fun _ => hnot, hof,
          hP.synced]
        by_cases hv : v = c.vdev
        · simp [hv]
        · simp [hv, Ne.symm hv]
      · rw [if_neg hp', if_neg hp', ite_self, hP.synced, hcongr _ fun _ => hnot]
  · have hk' : ¬Kind.nonScan = c.kind := fun h => hk h.symm
    simp only [hk, hk', false_and, if_false]
    rw [hP.synced, hcongr _ fun h => absurd h hk]

/-- **A shift of a command of a vdev of the pdev keeps the lists as they should
    be.** -/
theorem Placed.shift {p p' : Place} (hP : Placed vdevs w) (h : Shift w w' n c p p')
    (hc : c.vdev ∈ vdevs.ids) : Placed vdevs w' where
  once := h.once hP
  cmd k b m hm := by
    rw [h.list] at hm
    rw [h.cmd]
    by_cases hk : k = c.kind
    · subst hk
      simp only [if_true, true_and] at hm ⊢
      by_cases hmn : m = n
      · subst hmn
        have hp' : p' ≠ .pool := by
          rintro rfl
          split at hm
          · rename_i hp
            subst hp
            exact (hP.nodup c.kind (.list b)).not_mem_erase hm
          · rename_i hp
            exact hP.notMem h.mem (Ne.symm hp) hm
        exact ⟨c, by simp [hp'], rfl, hc⟩
      · rw [if_neg hmn]
        refine hP.cmd c.kind b m ?_
        split at hm
        · exact List.mem_of_mem_erase hm
        · split at hm
          · rename_i hp
            subst hp
            exact (mem_insertNode.1 hm).resolve_left hmn
          · exact hm
    · simp only [hk, if_false, false_and] at hm ⊢
      exact hP.cmd k b m hm
  free k m hm := by
    rw [h.cmd]
    split
    · rename_i hc
      obtain ⟨rfl, rfl⟩ := hc
      -- a node that has left the pool is not in it
      rw [if_pos]
      by_contra hp'
      have hm := (h.pool c.kind).mem_iff.1 hm
      simp only [true_and, hp', if_false] at hm
      split at hm
      · exact (hP.nodup c.kind .pool).not_mem_erase hm
      · rename_i hp
        exact hP.notMem h.mem hp hm
    · rename_i hc
      refine hP.free k m ?_
      have hm := (h.pool k).mem_iff.1 hm
      split at hm
      · exact List.mem_of_mem_erase hm
      · split at hm
        · rename_i hk
          exact (List.mem_cons.1 hm).resolve_left fun h => hc ⟨hk.1, h⟩
        · exact hm
  synced := h.synced hP
  vsize v b := by
    have hnum := h.num hP .nonScan b (·.vdev == v)
    have hle := hP.vsize v b
    by_cases hcase : Kind.nonScan = c.kind ∧ p' = .list b ∧ (c.vdev == v) = true
    · obtain ⟨hk, hp', hv⟩ := hcase
      have hroom := h.room b hp' hk.symm
      rw [beq_iff_eq] at hv
      subst hv
      split at hnum <;> split at hnum <;> omega
    · rw [if_neg hcase] at hnum
      omega

theorem Placed.rest (hP : Placed vdevs w) (h : Rest w w') : Placed vdevs w' where
  once k n := by
    rw [← hP.once k n]
    simp only [PdevQueue.held_list, PdevQueue.held_pool, h.list, (h.pool k).count_eq]
  cmd k b n hn := by
    rw [h.list] at hn
    rw [h.cmd]
    exact hP.cmd k b n hn
  free k n hn := by
    rw [h.cmd]
    exact hP.free k n ((h.pool k).mem_iff.1 hn)
  synced v b := by
    have hof : (w'.pdevQ .nonScan).ofVdev v = (w.pdevQ .nonScan).ofVdev v := by
      funext n
      rw [PdevQueue.ofVdev, h.cmd, PdevQueue.ofVdev]
    rw [h.vdev, h.list, hof]
    exact hP.synced v b
  vsize v b := by rw [h.num]; exact hP.vsize v b

/-! ## Room -/

theorem length_vdev_list (hs : Synced w) (v : ℕ) (b : Bool) :
    ((w.vdevQ v).list b).length = w.num .nonScan b (·.vdev == v) := by
  rw [hs, ← List.countP_eq_length_filter]
  rfl

theorem length_le_sum_countP {ids l : List ℕ} {p : ℕ → ℕ → Bool}
    (h : ∀ n ∈ l, ∃ v ∈ ids, p v n = true) :
    l.length ≤ (ids.map fun v => l.countP (p v)).sum := by
  induction l with
  | nil => simp
  | cons n l ih =>
    have ih := ih fun m hm => h m (List.mem_cons_of_mem _ hm)
    obtain ⟨v, hv, hp⟩ := h n List.mem_cons_self
    have hone : 1 ≤ (ids.map fun v => if p v n = true then 1 else 0).sum := by
      refine List.single_le_sum (by simp) 1 (List.mem_map.2 ⟨v, hv, by simp [hp]⟩)
    simp only [List.countP_cons, List.sum_map_add, List.length_cons]
    omega

/-- If there is room in the list of a vdev, there is room in that of the pdev. -/
theorem Placed.room (hP : Placed vdevs w) (hv : v ∈ vdevs.ids)
    (h : ((w.vdevQ v).list b).length ≠ vdevMaxSize b) :
    ((w.pdevQ .nonScan).list b).length ≠ Kind.nonScan.maxSize b := by
  rw [length_vdev_list hP.synced] at h
  have hlt := lt_of_le_of_ne (hP.vsize v b) h
  have hmax : Kind.nonScan.maxSize b = maxVdevs * vdevMaxSize b := by cases b <;> rfl
  refine ne_of_lt ?_
  calc ((w.pdevQ .nonScan).list b).length
      ≤ (vdevs.ids.map fun v => w.num .nonScan b (·.vdev == v)).sum := by
        refine length_le_sum_countP (p := fun v n =>
          ((w.pdevQ .nonScan).nodes n).cmd.any (·.vdev == v)) fun n hn => ?_
        obtain ⟨c, hc, -, hid⟩ := hP.cmd .nonScan b n hn
        exact ⟨c.vdev, hid, by simp [hc]⟩
    _ < (vdevs.ids.map fun _ => vdevMaxSize b).sum :=
        List.sum_lt_sum _ _ (fun v _ => hP.vsize v b) ⟨v, hv, hlt⟩
    _ = vdevs.ids.length * vdevMaxSize b := by simp
    _ ≤ Kind.nonScan.maxSize b := by
        rw [hmax]
        exact Nat.mul_le_mul_right _ vdevs.le

/-! ## Effects -/

/-- The frame neither calls back nor clears flags. -/
def Frame.idle : Frame → Bool
  | .release _ | .cancelOn .nonScan _ _ _ _ _ _ => false
  | _ => true

/-- The frame is that of a cancelled command whose flags are to be cleared: it was
    active or pending, of one of the vdevs, blocking or not. -/
def Frame.clears (b : Bool) (g : ℕ → Bool → Bool) : Frame → Bool
  | .cancelOn .nonScan _ b' v blocking _ _ => b' == b && g v blocking
  | _ => false

/-- The count that the admission test raises for a command. -/
def Flags.wait (f : Flags) (c : Command) : Flags :=
  if c.kind = .nonScan ∧ c.isBlocking ∧ f.bits ≠ ∅ then { f with waiting := inc16 f.waiting } else f

/-- A blocking command waits no more. -/
def Flags.unwait (f : Flags) (blocking : Bool) : Flags :=
  if blocking then { f with waiting := dec16 f.waiting } else f

/-- What the admission test asks before a command is active at once. -/
def Flags.Admits (f : Flags) (c : Command) : Prop :=
  if c.isBlocking then f.bits = ∅
  else f.blocking = false ∧ f.waiting % 256 = 0 ∧ c.vdev ∉ f.bits

/-- The effects. -/
inductive Label where
  | rest
  | refuse (c : Command)
  | accept (b : Bool) (n : ℕ) (c : Command)
  | move (n : ℕ) (c : Command)
  | remove (n : ℕ) (c : Command)
  | cancel (b : Bool) (n : ℕ) (c : Command)
  | clear (b : Bool) (v : ℕ) (blocking : Bool)
  | release (req : ℕ)

/-- **What a section can do**: it takes the frames `fs` from a call and leaves
    `fs'`. -/
inductive Effect (vdevs : Vdevs) (w : World) : List Frame → Label → World → List Frame → Prop
  | rest {w' : World} {fs fs' : List Frame} (h : Rest w w') (hf : w'.flags = w.flags)
      (hi : ∀ f ∈ fs, f.idle)
      (hi' : ∀ f ∈ fs', f.idle) : Effect vdevs w fs .rest w' fs'
  | refuse {w' : World} (c : Command) (h : Rest w w') (hf : w'.flags = w.flags.wait c) :
      Effect vdevs w [] (.refuse c) w' []
  | accept {w' : World} {fs' : List Frame} (b : Bool) (n : ℕ) (c : Command)
      (h : Shift w w' n c .pool (.list b))
      (hv : c.vdev ∈ vdevs.ids) (hnew : w.num c.kind b (·.toCmdKey == c.toCmdKey) = 0)
      (ha : b = true → c.kind = .nonScan → w.flags.Admits c)
      (hf : w'.flags =
        if b = true ∧ c.kind = .nonScan then w.flags.note c.vdev c.isBlocking else w.flags.wait c)
      (hi' : ∀ f ∈ fs', f.idle) : Effect vdevs w [] (.accept b n c) w' fs'
  | move {w' : World} {fs fs' : List Frame} (n : ℕ) (c : Command)
      (h : Shift w w' n c (.list false) (.list true))
      (ha : c.kind = .nonScan → c.vdev ∉ w.flags.bits)
      (hf : w'.flags =
        if c.kind = .nonScan then (w.flags.note c.vdev c.isBlocking).unwait c.isBlocking
        else w.flags)
      (hi : ∀ f ∈ fs, f.idle) (hi' : ∀ f ∈ fs', f.idle) : Effect vdevs w fs (.move n c) w' fs'
  | remove {w' : World} {fs : List Frame} (n : ℕ) (c : Command)
      (h : Shift w w' n c (.list true) .pool)
      (hf : w'.flags = if c.kind = .nonScan then w.flags.clear c.vdev c.isBlocking else w.flags)
      (hi : ∀ f ∈ fs, f.idle) :
      Effect vdevs w fs (.remove n c) w'
        [.move c.kind (some c.vdev) (c.kind = .nonScan ∧ c.isBlocking), .release c.req]
  | cancel {w' : World} {fs : List Frame} (b : Bool) (n : ℕ) (c : Command) (r : CancelReq)
      (prev : Option ℕ) (left : ℕ)
      (h : Shift w w' n c (.list b) .pool) (hf : w'.flags = w.flags) (hi : ∀ f ∈ fs, f.idle) :
      Effect vdevs w fs (.cancel b n c) w'
        [.release c.req, .cancelOn c.kind r b c.vdev c.isBlocking prev left]
  | clear {w' : World} (b : Bool) (r : CancelReq) (v : ℕ) (blocking : Bool) (prev : Option ℕ)
      (left : ℕ)
      (h : Rest w w')
      (hf : w'.flags = if b then w.flags.clear v blocking else w.flags.unwait blocking) :
      Effect vdevs w [.cancelOn .nonScan r b v blocking prev left] (.clear b v blocking) w' []
  | release (req : ℕ) :
      Effect vdevs w [.release req] (.release req) { w with released := w.released ++ [req] } []

/-- A property of the frames that no idle frame has. -/
def Counted (p : Frame → Bool) : Prop := ∀ f, f.idle = true → p f = false

theorem Counted.countP {p : Frame → Bool} (hp : Counted p) {fs : List Frame}
    (h : ∀ f ∈ fs, f.idle = true) : fs.countP p = 0 :=
  List.countP_eq_zero.2 fun f hf => by simp [hp f (h f hf)]

theorem counted_release (r : ℕ) : Counted (· == .release r) := by
  rintro (_ | _ | _ | _ | _ | _ | _ | _ | _ | _ | _) h
  all_goals first | rfl | cases h

theorem counted_clears (b : Bool) (g : ℕ → Bool → Bool) : Counted (Frame.clears b g) := by
  rintro (_ | _ | _ | _ | _ | _ | _ | _ | _ | ⟨k, _⟩ | _) h
  all_goals try rfl
  cases k
  · rfl
  · cases h

/-! ## Requests -/

/-- The commands of a request that are queued. -/
def World.queuedReq (w : World) (r : ℕ) : ℕ :=
  w.num .scan true (·.req == r) + w.num .scan false (·.req == r) +
    w.num .nonScan true (·.req == r) + w.num .nonScan false (·.req == r)

/-- **Each accepted request is in one place**: its command is queued, its release
    callback is about to be called, or has been. -/
def OncePerReq (w : World) (frames : List Frame) : Prop :=
  ∀ r, w.queuedReq r + frames.countP (· == .release r) + w.released.count r =
    if r < w.nextReq then 1 else 0

theorem Shift.queuedReq {p p' : Place} (hP : Placed vdevs w) (h : Shift w w' n c p p') (r : ℕ) :
    w'.queuedReq r + (if p ≠ .pool ∧ c.req = r then 1 else 0) =
      w.queuedReq r + (if p' ≠ .pool ∧ c.req = r then 1 else 0) := by
  -- the one list that the place is
  have hsum : ∀ p : Place, (if p ≠ .pool ∧ c.req = r then 1 else 0) =
      (if Kind.scan = c.kind ∧ p = .list true ∧ (c.req == r) = true then 1 else 0) +
      (if Kind.scan = c.kind ∧ p = .list false ∧ (c.req == r) = true then 1 else 0) +
      (if Kind.nonScan = c.kind ∧ p = .list true ∧ (c.req == r) = true then 1 else 0) +
      (if Kind.nonScan = c.kind ∧ p = .list false ∧ (c.req == r) = true then 1 else 0) := by
    intro p
    rcases p with _ | b
    · simp
    · cases b <;> cases c.kind <;> simp
  have h1 := h.num hP .scan true (·.req == r)
  have h2 := h.num hP .scan false (·.req == r)
  have h3 := h.num hP .nonScan true (·.req == r)
  have h4 := h.num hP .nonScan false (·.req == r)
  rw [hsum p, hsum p', World.queuedReq, World.queuedReq]
  omega

/-! ## What every effect keeps -/

variable {fs fs' others : List Frame} {lab : Label}

/-- The command of a queued node is one of a vdev of the pdev. -/
theorem Shift.vdev_mem {p' : Place} (hP : Placed vdevs w) (h : Shift w w' n c (.list b) p') :
    c.vdev ∈ vdevs.ids := by
  obtain ⟨c', hc', -, hv⟩ := hP.cmd c.kind b n h.mem
  rw [h.before (by simp)] at hc'
  cases hc'
  exact hv

theorem Effect.placed (hP : Placed vdevs w) (h : Effect vdevs w fs lab w' fs') :
    Placed vdevs w' := by
  cases h with
  | rest h | refuse _ h | clear _ _ _ _ _ _ h => exact hP.rest h
  | accept _ _ _ h hv => exact hP.shift h hv
  | move _ _ h | remove _ _ h | cancel _ _ _ _ _ _ h => exact hP.shift h (h.vdev_mem hP)
  | release req =>
    exact ⟨hP.once, hP.cmd, hP.free, hP.synced, hP.vsize⟩

@[simp] theorem Frame.clears_cancelOn {g : ℕ → Bool → Bool} {r : CancelReq} {blocking : Bool}
    {prev : Option ℕ} {left : ℕ} :
    (Frame.cancelOn k r b' v blocking prev left).clears b g =
      (decide (k = .nonScan) && b' == b && g v blocking) := by
  cases k <;> rfl

@[simp] theorem Frame.clears_release {g : ℕ → Bool → Bool} {r : ℕ} :
    (Frame.release r).clears b g = false := rfl

/-- How many commands that are no scans have a property of their vdev and of
    whether they block: those of a list, and those that a cancel has taken out of it
    whose flags are still to be cleared. -/
def World.occupied (w : World) (frames : List Frame) (b : Bool) (g : ℕ → Bool → Bool) : ℕ :=
  w.num .nonScan b (fun c => g c.vdev c.isBlocking) + frames.countP (Frame.clears b g)

/-- What an effect adds to such a number. -/
def Label.gain (b : Bool) (g : ℕ → Bool → Bool) : Label → ℕ
  | .accept b' _ c => if c.kind = .nonScan ∧ b' = b ∧ g c.vdev c.isBlocking then 1 else 0
  | .move _ c => if c.kind = .nonScan ∧ b = true ∧ g c.vdev c.isBlocking then 1 else 0
  | _ => 0

/-- What an effect takes from it. -/
def Label.loss (b : Bool) (g : ℕ → Bool → Bool) : Label → ℕ
  | .move _ c => if c.kind = .nonScan ∧ b = false ∧ g c.vdev c.isBlocking then 1 else 0
  | .remove _ c => if c.kind = .nonScan ∧ b = true ∧ g c.vdev c.isBlocking then 1 else 0
  | .clear b' v blocking => if b' = b ∧ g v blocking then 1 else 0
  | _ => 0

/-- **The balance of an effect.**  A command that is cancelled keeps counting until
    its flags are cleared. -/
theorem Effect.balance (hP : Placed vdevs w) (h : Effect vdevs w fs lab w' fs')
    (others : List Frame) (b : Bool) (g : ℕ → Bool → Bool) :
    w'.occupied (fs' ++ others) b g + lab.loss b g =
      w.occupied (fs ++ others) b g + lab.gain b g := by
  have hcount := counted_clears b g
  simp only [World.occupied, List.countP_append]
  cases h with
  | rest h hf hi hi' =>
    rw [hcount.countP hi, hcount.countP hi', h.num]
    rfl
  | refuse c h hf =>
    rw [h.num]
    rfl
  | accept b' n c h hv hnew ha hf hi' =>
    have hnum := h.num hP .nonScan b fun c => g c.vdev c.isBlocking
    simp only [reduceCtorEq, false_and, and_false, if_false, Place.list.injEq,
      @eq_comm _ Kind.nonScan]
      at hnum
    rw [hcount.countP hi']
    simp only [Label.loss, Label.gain, List.countP_nil]
    omega
  | move n c h ha hf hi hi' =>
    have hnum := h.num hP .nonScan b fun c => g c.vdev c.isBlocking
    simp only [Place.list.injEq, @eq_comm _ Kind.nonScan, @eq_comm _ _ b] at hnum
    rw [hcount.countP hi, hcount.countP hi']
    simp only [Label.loss, Label.gain]
    omega
  | remove n c h hf hi =>
    have hnum := h.num hP .nonScan b fun c => g c.vdev c.isBlocking
    simp only [reduceCtorEq, false_and, and_false, if_false, Place.list.injEq,
      @eq_comm _ Kind.nonScan, @eq_comm _ _ b] at hnum
    rw [hcount.countP hi]
    simp only [Label.loss, Label.gain, List.countP_cons, hcount (.move _ _ _) rfl,
      Frame.clears_release, List.countP_nil]
    simp only [Bool.false_eq_true, if_false]
    omega
  | cancel b' n c r prev left h hf hi =>
    have hnum := h.num hP .nonScan b fun c => g c.vdev c.isBlocking
    simp only [reduceCtorEq, false_and, and_false, if_false, Place.list.injEq,
      @eq_comm _ Kind.nonScan] at hnum
    rw [hcount.countP hi]
    simp only [Label.loss, Label.gain, List.countP_cons, Frame.clears_release,
      Frame.clears_cancelOn, List.countP_nil, Bool.and_eq_true, decide_eq_true_eq, beq_iff_eq,
      and_assoc]
    simp only [Bool.false_eq_true, if_false]
    omega
  | clear b' r v blocking prev left h hf =>
    rw [h.num]
    simp only [Label.loss, Label.gain, List.countP_cons, Frame.clears_cancelOn, List.countP_nil,
      Bool.and_eq_true, decide_true, true_and, beq_iff_eq]
    omega
  | release req => simp [Label.loss, Label.gain, World.num]

/-! ## Flags -/

/-- **The bitmap holds the vdevs of the active commands and of the cancels between
    their two sections**, one of them at most for a vdev. -/
def BitsHeld (w : World) (frames : List Frame) : Prop :=
  ∀ v, w.occupied frames true (fun v' _ => v' == v) = if v ∈ w.flags.bits then 1 else 0

theorem Flags.wait_frame (f : Flags) (c : Command) :
    (f.wait c).bits = f.bits ∧ (f.wait c).blocking = f.blocking := by
  rw [Flags.wait]
  split <;> exact ⟨rfl, rfl⟩

theorem Flags.unwait_frame (f : Flags) (blocking : Bool) :
    (f.unwait blocking).bits = f.bits ∧ (f.unwait blocking).blocking = f.blocking := by
  cases blocking <;> simp [unwait]

theorem Flags.Admits.notMem {f : Flags} (h : f.Admits c) : c.vdev ∉ f.bits := by
  rw [Flags.Admits] at h
  split at h
  · rw [h]
    exact Finset.notMem_empty _
  · exact h.2.2

theorem BitsHeld.effect (hP : Placed vdevs w) (h : Effect vdevs w fs lab w' fs')
    (hb : BitsHeld w (fs ++ others)) : BitsHeld w' (fs' ++ others) := by
  intro v
  have hbal := h.balance hP others true fun v' _ => v' == v
  rw [hb v] at hbal
  cases h with
  | rest h hf | cancel b n c r prev left h hf =>
    rw [hf]
    exact hbal
  | refuse c h hf =>
    rw [hf, (Flags.wait_frame _ _).1]
    exact hbal
  | release req => exact hbal
  | accept b n c h hv hnew ha hf =>
    rw [hf]
    by_cases hc : b = true ∧ c.kind = .nonScan
    · have hnot := (ha hc.1 hc.2).notMem
      simp only [Label.loss, Label.gain, hc, and_self, if_true, Flags.note, Finset.mem_insert,
        true_and, beq_iff_eq] at hbal ⊢
      by_cases hv : v = c.vdev
      · subst hv
        simpa [hnot] using hbal
      · simpa [hv, Ne.symm hv] using hbal
    · rw [if_neg hc, (Flags.wait_frame _ _).1]
      have : ¬(c.kind = .nonScan ∧ b = true ∧ c.vdev = v) := fun h => hc ⟨h.2.1, h.1⟩
      simpa [Label.loss, Label.gain, this] using hbal
  | move n c h ha hf =>
    rw [hf]
    by_cases hk : c.kind = .nonScan
    · have hnot := ha hk
      simp only [Label.loss, Label.gain, hk, if_true, (Flags.unwait_frame _ _).1, Flags.note,
        Finset.mem_insert, true_and, beq_iff_eq] at hbal ⊢
      by_cases hv : v = c.vdev
      · subst hv
        simpa [hnot] using hbal
      · simpa [hv, Ne.symm hv] using hbal
    · simpa [Label.loss, Label.gain, hk] using hbal
  | remove n c h hf =>
    rw [hf]
    by_cases hk : c.kind = .nonScan
    · simp only [Label.loss, Label.gain, hk, if_true, Flags.clear, Finset.mem_erase, true_and,
        beq_iff_eq] at hbal ⊢
      by_cases hv : v = c.vdev
      · subst hv
        by_cases hm : c.vdev ∈ w.flags.bits <;> simp [hm] at hbal ⊢
        omega
      · simpa [hv, Ne.symm hv] using hbal
    · simpa [Label.loss, Label.gain, hk] using hbal
  | clear b r v' blocking prev left h hf =>
    rw [hf]
    cases b with
    | true =>
      simp only [Label.loss, Label.gain, if_true, Flags.clear, Finset.mem_erase, true_and,
        beq_iff_eq] at hbal ⊢
      by_cases hv : v = v'
      · subst hv
        by_cases hm : v ∈ w.flags.bits <;> simp [hm] at hbal ⊢
        omega
      · simpa [hv, Ne.symm hv] using hbal
    | false =>
      simp only [Bool.false_eq_true, if_false, (Flags.unwait_frame _ _).1]
      simpa [Label.loss, Label.gain] using hbal

/-! ## Requests and keys -/

theorem Rest.queuedReq (h : Rest w w') (r : ℕ) : w'.queuedReq r = w.queuedReq r := by
  simp only [World.queuedReq, h.num]

theorem OncePerReq.effect (hP : Placed vdevs w) (h : Effect vdevs w fs lab w' fs')
    (ho : OncePerReq w (fs ++ others)) : OncePerReq w' (fs' ++ others) := by
  intro r
  have hor := ho r
  have hcount := counted_release r
  rw [List.countP_append] at hor ⊢
  cases h with
  | rest h hf hi hi' =>
    rw [hcount.countP hi] at hor
    rw [hcount.countP hi', h.queuedReq, h.nextReq, h.released]
    exact hor
  | refuse c h hf =>
    rw [h.queuedReq, h.nextReq, h.released]
    exact hor
  | accept b n c h hv hnew ha hf hi' =>
    have hnum := h.queuedReq hP r
    have hreq := h.req rfl
    rw [List.countP_nil] at hor
    rw [hcount.countP hi', h.nextReq, h.released, if_pos rfl]
    by_cases hr : c.req = r
    · have h1 : ¬r < w.nextReq := by omega
      have h2 : r < w.nextReq + 1 := by omega
      simp only [ne_eq, not_true, false_and, if_false, reduceCtorEq, not_false_iff, true_and,
        hr, if_true, h1, h2] at hnum hor ⊢
      omega
    · have h1 : r < w.nextReq + 1 ↔ r < w.nextReq := by omega
      simp only [hr, and_false, if_false, h1] at hnum hor ⊢
      omega
  | move n c h ha hf hi hi' =>
    have hnum := h.queuedReq hP r
    simp only [ne_eq, reduceCtorEq, not_false_iff, true_and, Nat.add_right_cancel_iff] at hnum
    rw [hcount.countP hi] at hor
    rw [hcount.countP hi', h.nextReq, h.released, hnum]
    exact hor
  | remove n c h hf hi =>
    have hnum := h.queuedReq hP r
    simp only [ne_eq, reduceCtorEq, not_false_iff, true_and, not_true, false_and, if_false] at hnum
    rw [hcount.countP hi] at hor
    have hf' := fun k vdev removed => hcount (.move k vdev removed) rfl
    simp only at hf'
    rw [h.nextReq, h.released, List.countP_cons, List.countP_singleton, hf']
    simp only [beq_iff_eq, Frame.release.injEq, reduceCtorEq, if_false, Bool.false_eq_true]
      at hor ⊢
    omega
  | cancel b n c req prev left h hf hi =>
    have hnum := h.queuedReq hP r
    simp only [ne_eq, reduceCtorEq, not_false_iff, true_and, not_true, false_and, if_false] at hnum
    rw [hcount.countP hi] at hor
    rw [h.nextReq, h.released, List.countP_cons, List.countP_singleton]
    simp only [beq_iff_eq, Frame.release.injEq, reduceCtorEq, if_false] at hor ⊢
    omega
  | clear b req v blocking prev left h hf =>
    rw [h.queuedReq, h.nextReq, h.released]
    simpa only [List.countP_cons, beq_iff_eq, reduceCtorEq, if_false, Nat.add_zero] using hor
  | release req =>
    simp only [List.countP_cons, List.countP_nil, beq_iff_eq, Frame.release.injEq] at hor ⊢
    rw [List.count_append, List.count_singleton]
    simp only [beq_iff_eq]
    have : ({ w with released := w.released ++ [req] } : World).queuedReq r = w.queuedReq r := rfl
    omega

/-- No two pending commands of a kind have the same key. -/
def PendingDistinct (w : World) : Prop := ∀ k key, w.num k false (·.toCmdKey == key) ≤ 1

theorem PendingDistinct.effect (hP : Placed vdevs w) (h : Effect vdevs w fs lab w' fs')
    (hd : PendingDistinct w) : PendingDistinct w' := by
  intro k key
  have hdk := hd k key
  have hshift : ∀ {n : ℕ} {c : Command} {p p' : Place}, Shift w w' n c p p' → p' ≠ .list false →
      w'.num k false (·.toCmdKey == key) ≤ 1 := by
    intro n c p p' h hp'
    have hnum := h.num hP k false (·.toCmdKey == key)
    have : ¬(k = c.kind ∧ p' = .list false ∧ (c.toCmdKey == key) = true) := fun hc => hp' hc.2.1
    rw [if_neg this] at hnum
    omega
  cases h with
  | rest h | refuse _ h | clear _ _ _ _ _ _ h => rw [h.num]; exact hdk
  | accept b n c h hv hnew =>
    cases b with
    | true => exact hshift h (by simp)
    | false =>
      have hnum := h.num hP k false (·.toCmdKey == key)
      by_cases hc : k = c.kind ∧ c.toCmdKey = key
      · obtain ⟨rfl, rfl⟩ := hc
        simp [hnew] at hnum
        omega
      · have : ¬(k = c.kind ∧ Place.list false = .list false ∧ (c.toCmdKey == key) = true) :=
          fun h => hc ⟨h.1, by simpa using h.2.2⟩
        rw [if_neg this] at hnum
        omega
  | move _ _ h | remove _ _ h | cancel _ _ _ _ _ _ h => exact hshift h (by simp)
  | release req => exact hdk

/-- **What every effect keeps.** -/
structure Base (vdevs : Vdevs) (w : World) (frames : List Frame) : Prop where
  placed : Placed vdevs w
  bits : BitsHeld w frames
  reqs : OncePerReq w frames
  pending : PendingDistinct w

theorem Base.effect (h : Effect vdevs w fs lab w' fs') (hB : Base vdevs w (fs ++ others)) :
    Base vdevs w' (fs' ++ others) where
  placed := h.placed hB.placed
  bits := hB.bits.effect hB.placed h
  reqs := hB.reqs.effect hB.placed h
  pending := hB.pending.effect hB.placed h

end Sm8850.Serialization
