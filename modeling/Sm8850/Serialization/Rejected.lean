/-
  What a rejected request leaves behind in the serialization engine.

  * `Unchanged`: the lists of the pdev and of its vdevs, the commands in the nodes,
    the pool, the flags and the disable flags of the vdevs are as they were.
  * The admission test counts a blocking command as waiting before it is known
    whether the request is taken (`World.Counts`), and the queue of a vdev is
    disabled for a command that its list has no room for (`World.Disables`).
  * `rejected_unchanged_iff`: a rejected request changes something in these two
    cases and in no other.
-/
import Sm8850.Serialization.Exclusive

namespace Sm8850.Serialization

variable {w w' : World} {vdevs : Vdevs} {n v : ℕ} {k : Kind} {b : Bool} {cmd c : Command}
  {frames : List Frame}

/-! ## Statement -/

/-- **The engine is as it was.**  A node that was taken from the pool and given back
    may stand elsewhere in it. -/
structure Unchanged (w w' : World) : Prop where
  list : ∀ k b, (w'.pdevQ k).list b = (w.pdevQ k).list b
  vdevList : ∀ v b, (w'.vdevQ v).list b = (w.vdevQ v).list b
  cmd : ∀ k n, ((w'.pdevQ k).nodes n).cmd = ((w.pdevQ k).nodes n).cmd
  pool : ∀ k, (w'.pdevQ k).cmdPoolList.Perm (w.pdevQ k).cmdPoolList
  flags : ∀ k, (w'.pdevQ k).flags = (w.pdevQ k).flags
  queueDisable : ∀ v, (w'.vdevQ v).queueDisable = (w.vdevQ v).queueDisable

/-- The request is rejected: it gets no number. -/
def World.Rejects (w : World) (cmd : Command) : Prop :=
  (wlanSerializationEnqueueCmd w cmd).1.nextReq = w.nextReq

/-- The request gets to the admission test. -/
def World.Tests (w : World) (cmd : Command) : Prop :=
  cmd.kind = .nonScan → (w.vdevQ cmd.vdev).queueDisable = false

/-- The request gets to the lists: it is no duplicate, and there is a free node. -/
def World.Reaches (w : World) (cmd : Command) : Prop :=
  w.Tests cmd ∧ isCmdPresentQueue w cmd.toCmdKey (w.target cmd) = false ∧
  (w.pdevQ cmd.kind).cmdPoolList ≠ []

/-- The admission test counts the command as waiting: it is a blocking one, and a
    vdev has an active command. -/
def World.Counts (w : World) (cmd : Command) : Prop :=
  w.Tests cmd ∧ cmd.kind = .nonScan ∧ cmd.isBlocking = true ∧
  (w.pdevQ .nonScan).anyVdevCmdActive = true

/-- The queue of the vdev is disabled behind the command. -/
def World.Disables (w : World) (cmd : Command) : Prop :=
  w.Reaches cmd ∧ cmd.kind = .nonScan ∧ cmd.queueDisable = true

instance (w : World) (cmd : Command) : Decidable (w.Tests cmd) :=
  inferInstanceAs (Decidable (_ → _))

instance (w : World) (cmd : Command) : Decidable (w.Reaches cmd) :=
  inferInstanceAs (Decidable (_ ∧ _ ∧ _))

instance (w : World) (cmd : Command) : Decidable (w.Counts cmd) :=
  inferInstanceAs (Decidable (_ ∧ _ ∧ _ ∧ _))

instance (w : World) (cmd : Command) : Decidable (w.Disables cmd) :=
  inferInstanceAs (Decidable (_ ∧ _ ∧ _))

instance (w : World) (cmd : Command) : Decidable (w.Rejects cmd) :=
  inferInstanceAs (Decidable (_ = _))

/-! ## What an enqueue does to the vdevs and to the flags of the scans -/

/-- The queue of a vdev is disabled with the command, whether its list has room or
    not. -/
theorem addCmdToVdevQueue_disable (w : World) (n : ℕ) (cmd : Command) (b : Bool) (v : ℕ) :
    ((addCmdToVdevQueue w n cmd b).1.vdevQ v).queueDisable = true ↔
      (v = cmd.vdev ∧ cmd.queueDisable = true) ∨ (w.vdevQ v).queueDisable = true := by
  rw [addCmdToVdevQueue]
  by_cases hv : v = cmd.vdev
  · subst hv
    cases b <;> simp [VdevQueue.setList]
  · simp [hv]

/-- The queues of the vdevs and the flags of the scans but for the list that the
    command is taken from. -/
theorem removeCmdFromVdevQueue_leaves (w : World) (key : CmdKey) (b : Bool) :
    (∀ v, ((removeCmdFromVdevQueue w key b).1.vdevQ v).queueDisable = (w.vdevQ v).queueDisable) ∧
    ((removeCmdFromVdevQueue w key b).1.pdevQ .scan).flags = (w.pdevQ .scan).flags := by
  rw [removeCmdFromVdevQueue]
  split
  · exact ⟨fun _ => rfl, rfl⟩
  · split
    · exact ⟨fun _ => rfl, by simp⟩
    · refine ⟨fun v => ?_, rfl⟩
      by_cases hv : v = key.vdev
      · subst hv
        cases b <;> simp [VdevQueue.setList]
      · simp [hv]

theorem addCmdToPdevQueue_leaves (w : World) (k : Kind) (n : ℕ) (cmd : Command) (b : Bool) :
    (addCmdToPdevQueue w k n cmd b).1.vdevQ = w.vdevQ ∧
    ∀ k', ((addCmdToPdevQueue w k n cmd b).1.pdevQ k').flags = (w.pdevQ k').flags := by
  rw [addCmdToPdevQueue]
  split
  · exact ⟨rfl, fun _ => rfl⟩
  · refine ⟨rfl, fun k' => ?_⟩
    by_cases hk : k' = k
    · subst hk
      simp
    · simp [hk]

/-- Adding a command disables its vdev if it asks for that, and leaves the flags of
    the scans alone. -/
theorem wlanSerAddCmd_leaves (w : World) (k : Kind) (n : ℕ) (cmd : Command) (b : Bool) :
    (∀ v, ((wlanSerAddCmd w k n cmd b).1.vdevQ v).queueDisable = true ↔
      (k = .nonScan ∧ v = cmd.vdev ∧ cmd.queueDisable = true) ∨
        (w.vdevQ v).queueDisable = true) ∧
    ((wlanSerAddCmd w k n cmd b).1.pdevQ .scan).flags = (w.pdevQ .scan).flags := by
  cases k with
  | scan =>
    obtain ⟨hv, hf⟩ := addCmdToPdevQueue_leaves w .scan n cmd b
    exact ⟨fun v => by simp [wlanSerAddCmd, hv], hf .scan⟩
  | nonScan =>
    have hdis := addCmdToVdevQueue_disable w n cmd b
    have hpdev : (addCmdToVdevQueue w n cmd b).1.pdevQ = w.pdevQ := rfl
    rw [wlanSerAddCmd, wlanSerAddNonScanCmd]
    revert hdis hpdev
    rcases addCmdToVdevQueue w n cmd b with ⟨w₁, _ | _⟩ <;> intro hdis hpdev
    · exact ⟨fun v => by simpa using hdis v, by simp only [← hpdev]⟩
    · have hpq := addCmdToPdevQueue_leaves w₁ .nonScan n cmd b
      revert hpq
      simp only
      rcases addCmdToPdevQueue w₁ .nonScan n cmd b with ⟨w₂, _ | _⟩ <;>
        rintro ⟨hv, hf⟩ <;> simp only at hv hf
      · obtain ⟨hv', hf'⟩ := removeCmdFromVdevQueue_leaves w₂ cmd.toCmdKey b
        exact ⟨fun v => by simpa [hv', hv] using hdis v, by rw [hf', hf, ← hpdev]⟩
      · refine ⟨fun v => ?_, ?_⟩
        · have := hdis v
          cases b <;> simpa [hv] using this
        · have := hf .scan
          cases b <;> simpa [← hpdev] using this

theorem isActiveCmdAllowed_leaves (w : World) (cmd : Command) :
    (isActiveCmdAllowed w cmd).1.vdevQ = w.vdevQ ∧
    ((isActiveCmdAllowed w cmd).1.pdevQ .scan).flags = (w.pdevQ .scan).flags := by
  rw [isActiveCmdAllowed]
  cases cmd.kind with
  | scan => exact ⟨rfl, rfl⟩
  | nonScan => exact ⟨rfl, by simp⟩

/-- The node and the pool have no part in the flags. -/
theorem scanFlags_setQ {q : PdevQueue} (h : q.flags = (w.pdevQ k).flags) :
    ((w.setQ k q).pdevQ .scan).flags = (w.pdevQ .scan).flags := by
  cases k <;> simp [h]

theorem enqueueNode_leaves (w : World) (n : ℕ) (cmd : Command) (b : Bool) :
    (∀ v, ((enqueueNode w n cmd b).1.vdevQ v).queueDisable = true ↔
      (cmd.kind = .nonScan ∧ v = cmd.vdev ∧ cmd.queueDisable = true) ∨
        (w.vdevQ v).queueDisable = true) ∧
    ((enqueueNode w n cmd b).1.pdevQ .scan).flags = (w.pdevQ .scan).flags := by
  have hadd := wlanSerAddCmd_leaves (w.setQ cmd.kind ((w.pdevQ cmd.kind).setNode n
    ⟨some cmd, ((w.pdevQ cmd.kind).nodes n).inUse⟩)) cmd.kind n cmd b
  rw [scanFlags_setQ (by simp)] at hadd
  rw [enqueueNode]
  revert hadd
  simp only
  rcases wlanSerAddCmd _ cmd.kind n cmd b with ⟨w₁, _ | _⟩ <;> rintro ⟨hv, hf⟩
  · exact ⟨hv, (scanFlags_setQ (by simp)).trans hf⟩
  · cases b with
    | false => exact ⟨hv, hf⟩
    | true =>
      refine ⟨hv, Eq.trans ?_ hf⟩
      exact scanFlags_setQ (w := { w₁ with nextReq := w₁.nextReq + 1 }) rfl

/-- An enqueue disables the vdev of a command that gets to the lists, if it asks
    for that, and leaves the flags of the scans alone. -/
theorem enqueueCmd_leaves (w : World) (cmd : Command) :
    (∀ v, ((wlanSerializationEnqueueCmd w cmd).1.vdevQ v).queueDisable = true ↔
      (v = cmd.vdev ∧ w.Disables cmd) ∨ (w.vdevQ v).queueDisable = true) ∧
    ((wlanSerializationEnqueueCmd w cmd).1.pdevQ .scan).flags = (w.pdevQ .scan).flags := by
  simp only [wlanSerializationEnqueueCmd, World.Disables, World.Reaches, World.Tests]
  by_cases hd : cmd.kind = .nonScan ∧ (w.vdevQ cmd.vdev).queueDisable = true
  · rw [if_pos hd]
    exact ⟨fun v => by simp [hd], rfl⟩
  · have htest : cmd.kind = .nonScan → (w.vdevQ cmd.vdev).queueDisable = false := by simpa using hd
    rw [if_neg hd]
    obtain ⟨w₀, hcall, -, hpool, -, hpres⟩ := admission_spec w cmd
    obtain ⟨hv, hf⟩ := isActiveCmdAllowed_leaves w cmd
    simp only [hcall, hpres] at hv hf ⊢
    by_cases hp : isCmdPresentQueue w cmd.toCmdKey (w.target cmd) = true
    · rw [if_pos hp]
      exact ⟨fun v => by simp [hv, hp], hf⟩
    · rw [if_neg hp, ← hpool]
      cases hl : (w₀.pdevQ cmd.kind).cmdPoolList with
      | nil => exact ⟨fun v => by simp [hv], hf⟩
      | cons n pool =>
        obtain ⟨hv', hf'⟩ := enqueueNode_leaves (w₀.setQ cmd.kind
          { w₀.pdevQ cmd.kind with cmdPoolList := pool }) n { cmd with req := w₀.nextReq }
          (w.target cmd)
        refine ⟨fun v => (hv' v).trans ?_, hf'.trans (Eq.trans (scanFlags_setQ rfl) hf)⟩
        have hreach : (cmd.kind = .nonScan → (w.vdevQ cmd.vdev).queueDisable = false) ∧
            isCmdPresentQueue w cmd.toCmdKey (w.target cmd) = false ∧ n :: pool ≠ [] :=
          ⟨htest, by simpa using hp, by simp⟩
        rw [and_iff_right hreach]
        simp only [World.setQ_frame, hv]
        exact or_congr_left and_left_comm

/-! ## Results -/

/-- A rejected request leaves everything where it is, and the flags but for the
    count of waiting commands. -/
theorem rejected_rest (hB : Base vdevs w frames) (hv : cmd.vdev ∈ vdevs.ids)
    (hr : w.Rejects cmd) : Rest w (wlanSerializationEnqueueCmd w cmd).1 ∧
      (wlanSerializationEnqueueCmd w cmd).1.flags =
        if w.Counts cmd then w.flags.wait cmd else w.flags := by
  have heff := enqueue_effect hB hv
  rw [World.Rejects] at hr
  revert hr heff
  rcases wlanSerializationEnqueueCmd w cmd with ⟨w', fs⟩
  rintro hr (⟨-, n, he⟩ | ⟨-, lab, he, ⟨rfl, htest⟩ | ⟨rfl, htest⟩⟩)
  · cases he with
    | accept b n c h =>
      have hnext := h.nextReq
      rw [if_pos rfl] at hnext
      have hsame : w'.nextReq = w.nextReq := hr
      omega
  · cases he with
    | rest h hf =>
      refine ⟨h, ?_⟩
      rw [if_neg fun hc => htest hc.1, hf]
  · cases he with
    | refuse c h hf =>
      refine ⟨h, ?_⟩
      by_cases hc : w.Counts cmd
      · rw [if_pos hc, hf]
      · rw [if_neg hc, hf, Flags.wait, if_neg]
        rintro ⟨hk, hb, hne⟩
        exact hc ⟨htest, hk, hb, decide_eq_true hne⟩

theorem inc16_ne (n : ℕ) : inc16 n ≠ n := by
  rw [inc16]
  omega

/-- **What a rejected request leaves behind.**  A request that gets no number leaves
    the engine as it was just if it was not counted as waiting and its vdev is not
    disabled behind it, or was already. -/
theorem rejected_unchanged_iff (h : ReachableUnder (fun _ _ => True) vdevs w)
    (hv : cmd.vdev ∈ vdevs.ids) (hr : w.Rejects cmd) :
    Unchanged w (wlanSerializationEnqueueCmd w cmd).1 ↔ ¬w.Counts cmd ∧ ¬w.Disables cmd := by
  have hB : Base vdevs w w.frames := ((Base.kept .free).reachable
    (fun w op _ => Guard.free_allows w op) h).1
  obtain ⟨hrest, hflags⟩ := rejected_rest hB hv hr
  obtain ⟨hdis, hscan⟩ := enqueueCmd_leaves w cmd
  constructor
  · intro hu
    refine ⟨fun hc => ?_, fun hd => ?_⟩
    · have hsame : (wlanSerializationEnqueueCmd w cmd).1.flags = w.flags := hu.flags .nonScan
      obtain ⟨-, hk, hb, hany⟩ := id hc
      have hne : w.flags.bits ≠ ∅ := of_decide_eq_true hany
      rw [hflags, if_pos hc, Flags.wait, if_pos ⟨hk, hb, hne⟩] at hsame
      exact inc16_ne _ (congrArg Flags.waiting hsame)
    · have := (hdis cmd.vdev).2 (.inl ⟨rfl, hd⟩)
      rw [hu.queueDisable, hd.1.1 hd.2.1] at this
      cases this
  · rintro ⟨hc, hd⟩
    rw [if_neg hc] at hflags
    refine ⟨hrest.list, hrest.vdev, hrest.cmd, hrest.pool, fun k => ?_, fun v => ?_⟩
    · cases k with
      | scan => exact hscan
      | nonScan => exact hflags
    · rw [Bool.eq_iff_iff, hdis]
      exact or_iff_right fun h => hd h.2

/-- A command is active and another one with its key waits. -/
def duplicateOps : List Op := [.request (command 7 1 false), .request (command 7 1 false)]

theorem rejected_unchanged_duplicate :
    Unchanged (execAll .init duplicateOps)
      (wlanSerializationEnqueueCmd (execAll .init duplicateOps) (command 7 1 false)).1 := by
  have hrun : Steps (fun _ _ => True) twoVdevs .init duplicateOps := by decide
  exact (rejected_unchanged_iff (.execAll .init hrun) (by decide) (by decide)).2 (by decide)

/-- **A blocking request that is rejected has been counted.**  It waits for the
    active command of another vdev, and is requested a second time. -/
theorem rejected_counted : ¬∀ (vdevs : Vdevs) (w : World) (cmd : Command),
    ReachableUnder (fun _ _ => True) vdevs w → cmd.vdev ∈ vdevs.ids → w.Rejects cmd →
    Unchanged w (wlanSerializationEnqueueCmd w cmd).1 := by
  intro h
  have hrun : Steps (fun _ _ => True) twoVdevs .init
      [.request (command 7 1 false), .request (command 8 2 true)] := by decide
  have hu := h twoVdevs _ (command 8 2 true) (.execAll .init hrun) (by decide) (by decide)
  exact absurd (congrArg Flags.waiting (hu.flags .nonScan)) (by decide)

/-- The list of a vdev has no room for a command that its queue is disabled behind. -/
example :
    let w := execAll .init ((List.range 5).map fun id => .request (command id 1 false))
    let cmd := { command 5 1 false with queueDisable := true }
    w.Rejects cmd ∧ w.Disables cmd := by
  decide

end Sm8850.Serialization
