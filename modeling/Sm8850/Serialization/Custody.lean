/-
  The nodes of the serialization engine, over whole runs.

  * `Conserved`: each node is in one place, the lists of the vdevs are parts of
    those of the pdev, and each accepted request has its release callback once.
    This holds in every run.
  * `Distinct`: no two queued commands have the same key.  The duplicate check
    looks at the list that a request is about to enter only, so this takes that the
    other list has none (`Op.Fresh`).
-/
import Sm8850.Serialization.Runs

namespace Sm8850.Serialization

variable {w w' : World} {vdevs : Vdevs} {C : World → Op → Prop}

/-! ## Conditions of a step -/

/-- The node that a cancel goes on from is still in its list: else the code follows
    the links of whatever list it is in. -/
def Frame.InPlace (w : World) : Frame → Prop
  | .cancelOn k _ active _ _ prev _ => ∀ n ∈ prev, n ∈ (w.pdevQ k).list active
  | _ => True

/-- A cancel that goes on in this step finds the node that it goes on from. -/
def Op.InPlace (w : World) (op : Op) : Prop := ∀ f ∈ op.next w, f.InPlace w

/-- A request that is accepted has no command with its key in the list that it does
    not enter. -/
def Op.Fresh (w : World) : Op → Prop
  | .request cmd => w.Accepts cmd → isCmdPresentQueue w cmd.toCmdKey (!w.target cmd) = false
  | _ => True

instance (w : World) (f : Frame) : Decidable (f.InPlace w) :=
  match f with
  | .cancelOn _ _ _ _ _ _ _ => inferInstanceAs (Decidable (∀ n ∈ _, _))
  | .activate _ _ | .activated _ _ _ | .dequeue _ | .dequeueNode _ _ | .move _ _ _ | .moveOn
  | .release _ | .cancel _ _ _ | .cancelNode _ _ | .reactivate => isTrue trivial

instance (w : World) (op : Op) : Decidable (op.InPlace w) :=
  inferInstanceAs (Decidable (∀ f ∈ op.next w, f.InPlace w))

instance (w : World) (op : Op) : Decidable (op.Fresh w) :=
  match op with
  | .request cmd => inferInstanceAs (Decidable (w.Accepts cmd → _))
  | .go _ _ | .call _ | .disable _ | .scansElsewhere _ => isTrue trivial

/-! ## Conservation -/

/-- **The nodes, the lists of the vdevs and the release callbacks.** -/
structure Conserved (w : World) : Prop where
  /-- each node of the pool of a kind is in one of its three lists, once -/
  nodes : ∀ k, ((w.pdevQ k).activeList ++ (w.pdevQ k).pendingList ++
    (w.pdevQ k).cmdPoolList).Perm (List.range k.poolSize)
  /-- the list of a vdev has the commands of the vdev, in the order of the pdev -/
  vdevs : ∀ v b, (w.vdevQ v).list b =
    ((w.pdevQ .nonScan).list b).filter ((w.pdevQ .nonScan).ofVdev v)
  /-- the command of an accepted request is queued once, or its release callback is
      called once or about to be -/
  released : ∀ r < w.nextReq,
    w.queuedReq r + (w.frames.countP (· == .release r) + w.released.count r) = 1
  /-- nothing else is released -/
  accepted : ∀ r ∈ w.released, r < w.nextReq

/-- No two queued commands have the same key. -/
def Distinct (w : World) : Prop :=
  ∀ k b b', ∀ n ∈ (w.pdevQ k).list b, ∀ m ∈ (w.pdevQ k).list b', ∀ c c',
    ((w.pdevQ k).nodes n).cmd = some c → ((w.pdevQ k).nodes m).cmd = some c' →
    c.toCmdKey = c'.toCmdKey → n = m

theorem Base.conserved (h : Base vdevs w w.frames) : Conserved w where
  nodes k := by
    rw [List.perm_iff_count]
    intro n
    have := h.placed.once k n
    simp only [List.count_append]
    rw [List.count_range]
    exact this
  vdevs := h.placed.synced
  released r hr := by
    have := h.reqs r
    rw [if_pos hr] at this
    omega
  accepted r hr := by
    by_contra hlt
    have hpos := List.count_pos_iff.2 hr
    have := h.reqs r
    rw [if_neg hlt] at this
    omega

/-- **Nodes and callbacks are conserved in every run.** -/
theorem conserved (h : ReachableUnder (fun w op => op.InPlace w) vdevs w) : Conserved w :=
  ((Base.kept .free).reachable (fun w op _ => Guard.free_allows w op) h).1.conserved

/-! ## Keys -/

/-- No two commands of the lists of a kind have the same key. -/
def KeysOnce (w : World) (_ : List Frame) : Prop :=
  ∀ k key, w.num k true (·.toCmdKey == key) + w.num k false (·.toCmdKey == key) ≤ 1

theorem KeysOnce.kept : Kept vdevs
    ⟨fun _ _ => True, fun w b c => isCmdPresentQueue w c.toCmdKey (!b) = false, fun _ _ => True⟩
    KeysOnce where
  init k key := Nat.zero_le _
  aside _ _ h := h
  perm _ h := h
  effect {w w' fs fs' others lab} hB he hG h := by
    intro k key
    have hk := h k key
    have hshift : ∀ {n : ℕ} {c : Command} {p p' : Place}, Shift w w' n c p p' →
        w'.num k true (·.toCmdKey == key) + w'.num k false (·.toCmdKey == key) +
          (if k = c.kind ∧ p ≠ .pool ∧ c.toCmdKey = key then 1 else 0) =
        w.num k true (·.toCmdKey == key) + w.num k false (·.toCmdKey == key) +
          (if k = c.kind ∧ p' ≠ .pool ∧ c.toCmdKey = key then 1 else 0) := by
      intro n c p p' h
      have h1 := h.num hB.placed k true (·.toCmdKey == key)
      have h2 := h.num hB.placed k false (·.toCmdKey == key)
      rcases p with _ | b <;> rcases p' with _ | b' <;> (try cases b) <;> (try cases b') <;>
        simp at h1 h2 ⊢ <;> omega
    cases he with
    | rest h | refuse _ h | clear _ _ _ _ _ _ h => rw [h.num, h.num]; exact hk
    | accept b n c h hv hnew =>
      have hsum := hshift h
      have hother := (isCmdPresentQueue_false hB.placed.synced c _).1 hG
      by_cases hc : k = c.kind ∧ c.toCmdKey = key
      · obtain ⟨rfl, rfl⟩ := hc
        cases b <;> simp [hnew] at hsum hother ⊢ <;> omega
      · have : ¬(k = c.kind ∧ Place.list b ≠ .pool ∧ c.toCmdKey = key) := fun h => hc ⟨h.1, h.2.2⟩
        rw [if_neg this] at hsum
        simp at hsum
        omega
    | move n c h =>
      have hsum := hshift h
      simp at hsum
      omega
    | remove n c h =>
      have hsum := hshift h
      simp at hsum
      omega
    | cancel b n c r prev left h =>
      have hsum := hshift h
      simp at hsum
      omega
    | release req => exact hk

theorem KeysOnce.distinct {frames : List Frame} (h : KeysOnce w frames) : Distinct w := by
  intro k b b' n hn m hm c c' hc hc' hkey
  have hk := h k c.toCmdKey
  have hpos : ∀ {b n c'}, n ∈ (w.pdevQ k).list b → ((w.pdevQ k).nodes n).cmd = some c' →
      c.toCmdKey = c'.toCmdKey → 0 < w.num k b (·.toCmdKey == c.toCmdKey) := by
    intro b n c' hn hc' hkey
    exact List.countP_pos_iff.2 ⟨n, hn, by simp [hc', hkey]⟩
  by_cases hb : b = b'
  · subst hb
    have hone : w.num k b (·.toCmdKey == c.toCmdKey) ≤ 1 := by cases b <;> omega
    exact countP_le_one_unique hone hn hm (by simp [hc]) (by simp [hc', hkey])
  · have h1 := hpos hn hc rfl
    have h2 := hpos hm hc' hkey
    cases b <;> cases b' <;> first | exact absurd rfl hb | omega

/-- **Custody of the nodes.**  In a run whose requests find no command with their
    key in the list they do not enter, nodes and callbacks are conserved and no two
    queued commands have the same key. -/
theorem custody (h : ReachableUnder (fun w op => op.InPlace w ∧ op.Fresh w) vdevs w) :
    Conserved w ∧ Distinct w := by
  have hC : ∀ w op, Op.InPlace w op ∧ Op.Fresh w op → Guard.Allows
      ⟨fun _ _ => True, fun w b c => isCmdPresentQueue w c.toCmdKey (!b) = false,
        fun _ _ => True⟩ w op := by
    rintro w op ⟨-, hf⟩
    cases op with
    | request cmd =>
      rw [Guard.Allows]
      split
      · rename_i ha
        exact hf ha
      · exact fun _ => trivial
    | go t ok => exact fun _ _ _ _ _ => trivial
    | _ => trivial
  obtain ⟨hB, hK⟩ := KeysOnce.kept.reachable hC h
  exact ⟨hB.conserved, hK.distinct⟩

/-- Two vdevs. -/
def twoVdevs : Vdevs := ⟨[1, 2], by decide⟩

/-- A command that is no scan. -/
def command (id vdev : ℕ) (blocking : Bool) : Command :=
  ⟨⟨5, id, vdev⟩, false, blocking, false, 0⟩

/-- A command is requested, activated and removed while another one waits. -/
def removeOps : List Op :=
  [.request (command 7 1 false), .go 0 true, .go 0 true, .request (command 8 1 false),
    .call (.removeCmd ⟨5, 7, 1⟩), .go 2 true, .go 2 true, .go 2 true]

theorem custody_removed :
    Conserved (execAll .init removeOps) ∧ Distinct (execAll .init removeOps) := by
  have hrun : Steps (fun w op => op.InPlace w ∧ op.Fresh w) twoVdevs .init removeOps := by decide
  exact custody (.execAll .init hrun)

/-- **A command that is active is requested again**: the pending list has no command
    with its key, and the request is accepted. -/
theorem requested_twice : ¬∀ (vdevs : Vdevs) (w : World),
    ReachableUnder (fun _ _ => True) vdevs w → Conserved w ∧ Distinct w := by
  intro h
  have hrun : Steps (fun _ _ => True) twoVdevs .init
      [.request (command 7 1 false), .request (command 7 1 false)] := by decide
  obtain ⟨-, hd⟩ := h twoVdevs _ (.execAll .init hrun)
  exact absurd (hd .nonScan true false 0 (by decide) 1 (by decide) _ _ rfl rfl rfl) (by decide)

end Sm8850.Serialization
