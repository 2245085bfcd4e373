/-
  What the sections of the serialization engine do to its lists.

  * `RemoveCase`, `AddCase`: what comes of taking a command out of its lists and of
    putting one in.
  * `Synced` is what they need to know: the lists of the vdevs are parts of the
    lists of the pdev.
  * `Flags` are the fields of the pdev queue beside the lists.
-/
import Mathlib.Tactic.Common
import Sm8850.Serialization.Engine

namespace Sm8850.Serialization

variable {w w' : World} {k k' : Kind} {b b' : Bool} {n m v : ℕ} {c : Command} {key : CmdKey}
  {q : PdevQueue} {vq : VdevQueue} {l : List ℕ} {node : Node} {blocking : Bool}

/-! ## Flags -/

/-- The flags of a pdev queue: the bitmap of its active vdevs, whether a blocking
    command is active and how many wait. -/
@[ext]
structure Flags where
  bits : Finset ℕ
  blocking : Bool
  waiting : ℕ

/-- The flags of a queue. -/
def PdevQueue.flags (q : PdevQueue) : Flags :=
  ⟨q.vdevActiveCmdBitmap, q.blockingCmdActive, q.blockingCmdWaiting⟩

/-- The flags of the queue of commands that are no scans. -/
def World.flags (w : World) : Flags := (w.pdevQ .nonScan).flags

/-- A command of the vdev is active no more. -/
def Flags.clear (f : Flags) (vdev : ℕ) (blocking : Bool) : Flags :=
  ⟨f.bits.erase vdev, !blocking && f.blocking, f.waiting⟩

/-- A command of the vdev is active. -/
def Flags.note (f : Flags) (vdev : ℕ) (blocking : Bool) : Flags :=
  ⟨insert vdev f.bits, blocking || f.blocking, f.waiting⟩

/-! ## Queues -/

@[simp] theorem PdevQueue.list_setList :
    (q.setList b l).list b' = if b' = b then l else q.list b' := by
  cases b <;> cases b' <;> rfl

@[simp] theorem PdevQueue.setList_frame :
    (q.setList b l).cmdPoolList = q.cmdPoolList ∧ (q.setList b l).nodes = q.nodes ∧
    (q.setList b l).flags = q.flags := by
  cases b <;> exact ⟨rfl, rfl, rfl⟩

@[simp] theorem VdevQueue.list_setList :
    (vq.setList b l).list b' = if b' = b then l else vq.list b' := by
  cases b <;> cases b' <;> rfl

@[simp] theorem PdevQueue.list_setNode : (q.setNode n node).list b = q.list b := by
  cases b <;> rfl

@[simp] theorem PdevQueue.setNode_frame :
    (q.setNode n node).cmdPoolList = q.cmdPoolList ∧
    (q.setNode n node).nodes = Function.update q.nodes n node ∧
    (q.setNode n node).flags = q.flags :=
  ⟨rfl, rfl, rfl⟩

@[simp] theorem PdevQueue.list_toPool : (q.toPool n).list b = q.list b := by
  cases b <;> rfl

@[simp] theorem PdevQueue.toPool_frame :
    (q.toPool n).cmdPoolList = q.cmdPoolList ++ [n] ∧ (q.toPool n).nodes = q.nodes ∧
    (q.toPool n).flags = q.flags :=
  ⟨rfl, rfl, rfl⟩

@[simp] theorem PdevQueue.list_clearActive : (q.clearActive v blocking).list b = q.list b := by
  cases b <;> rfl

@[simp] theorem PdevQueue.clearActive_frame :
    (q.clearActive v blocking).cmdPoolList = q.cmdPoolList ∧
    (q.clearActive v blocking).nodes = q.nodes ∧
    (q.clearActive v blocking).flags = q.flags.clear v blocking := by
  cases blocking <;> exact ⟨rfl, rfl, rfl⟩

@[simp] theorem PdevQueue.list_noteActive : (q.noteActive v blocking).list b = q.list b := by
  cases b <;> rfl

@[simp] theorem PdevQueue.noteActive_frame :
    (q.noteActive v blocking).cmdPoolList = q.cmdPoolList ∧
    (q.noteActive v blocking).nodes = q.nodes ∧
    (q.noteActive v blocking).flags = q.flags.note v blocking := by
  cases blocking <;> exact ⟨rfl, rfl, rfl⟩

@[simp] theorem World.setQ_frame :
    (w.setQ k q).pdevQ = Function.update w.pdevQ k q ∧ (w.setQ k q).vdevQ = w.vdevQ ∧
    (w.setQ k q).todo = w.todo ∧ (w.setQ k q).scansElsewhere = w.scansElsewhere ∧
    (w.setQ k q).nextReq = w.nextReq ∧ (w.setQ k q).released = w.released ∧
    (w.setQ k q).flags = if k = .nonScan then q.flags else w.flags := by
  cases k <;> exact ⟨rfl, rfl, rfl, rfl, rfl, rfl, rfl⟩

@[simp] theorem World.setVdevQ_frame :
    (w.setVdevQ v vq).pdevQ = w.pdevQ ∧ (w.setVdevQ v vq).vdevQ = Function.update w.vdevQ v vq ∧
    (w.setVdevQ v vq).todo = w.todo ∧ (w.setVdevQ v vq).scansElsewhere = w.scansElsewhere ∧
    (w.setVdevQ v vq).nextReq = w.nextReq ∧ (w.setVdevQ v vq).released = w.released ∧
    (w.setVdevQ v vq).flags = w.flags :=
  ⟨rfl, rfl, rfl, rfl, rfl, rfl, rfl⟩

/-! ## Finding a command -/

/-- The command in the node is one of the vdev. -/
def PdevQueue.ofVdev (q : PdevQueue) (v n : ℕ) : Bool := (q.nodes n).cmd.any fun c => c.vdev == v

/-- The lists of the vdevs are parts of the lists of the pdev. -/
def Synced (w : World) : Prop :=
  ∀ v b, (w.vdevQ v).list b = ((w.pdevQ .nonScan).list b).filter ((w.pdevQ .nonScan).ofVdev v)

theorem PdevQueue.findCmd_some (h : q.findCmd l key = some n) :
    n ∈ l ∧ ∃ c, (q.nodes n).cmd = some c ∧ c.toCmdKey = key := by
  refine ⟨List.mem_of_find?_eq_some h, ?_⟩
  simpa using List.find?_some h

theorem PdevQueue.findCmd_none (h : q.findCmd l key = none) (hn : n ∈ l)
    (hc : (q.nodes n).cmd = some c) : c.toCmdKey ≠ key := by
  have := List.find?_eq_none.1 h n hn
  simpa [hc] using this

theorem PdevQueue.findCmd_ofVdev (q : PdevQueue) (l : List ℕ) (key : CmdKey) :
    q.findCmd (l.filter (q.ofVdev key.vdev)) key = q.findCmd l key := by
  rw [findCmd, List.find?_filter, findCmd]
  congr 1
  funext n
  cases hc : (q.nodes n).cmd with
  | none => simp [ofVdev, hc]
  | some c =>
    by_cases he : c.toCmdKey = key
    · simp [ofVdev, hc, ← he]
    · simp [he]

/-! ## Taking a command out of its lists -/

/-- What a change of lists leaves alone. -/
structure Aside (w w' : World) : Prop where
  pool : ∀ k, (w'.pdevQ k).cmdPoolList = (w.pdevQ k).cmdPoolList
  nodes : ∀ k, (w'.pdevQ k).nodes = (w.pdevQ k).nodes
  todo : w'.todo = w.todo
  elsewhere : w'.scansElsewhere = w.scansElsewhere
  nextReq : w'.nextReq = w.nextReq
  released : w'.released = w.released

/-- The command `c` in the node `n` is taken out of its lists. -/
structure Unlinks (w w' : World) (k : Kind) (b : Bool) (n : ℕ) (c : Command) : Prop
    extends Aside w w' where
  mem : n ∈ (w.pdevQ k).list b
  cmd : ((w.pdevQ k).nodes n).cmd = some c
  idle : ((w.pdevQ k).nodes n).inUse.markedForActivation = false
  list : ∀ k' b', (w'.pdevQ k').list b' =
    if k' = k ∧ b' = b then ((w.pdevQ k).list b).erase n else (w.pdevQ k').list b'
  vdev : ∀ v b', (w'.vdevQ v).list b' =
    if k = .nonScan ∧ v = c.vdev ∧ b' = b then ((w.vdevQ v).list b').erase n
    else (w.vdevQ v).list b'
  flags : w'.flags = if k = .nonScan ∧ b then w.flags.clear c.vdev c.isBlocking else w.flags

/-- What comes of taking out the command with a key. -/
inductive RemoveCase (w : World) (k : Kind) (key : CmdKey) (b : Bool) : World × Removal → Prop
  | failed (h : ∀ n ∈ (w.pdevQ k).list b, ∀ c, ((w.pdevQ k).nodes n).cmd = some c →
      c.toCmdKey ≠ key) : RemoveCase w k key b (w, .failed)
  | pending (n : ℕ) (h : n ∈ (w.pdevQ k).list b)
      (hm : ((w.pdevQ k).nodes n).inUse.markedForActivation = true) :
    RemoveCase w k key b (w.setQ k ((w.pdevQ k).markForRemoval n), .pending)
  | removed (w' : World) (n : ℕ) (c : Command) (h : Unlinks w w' k b n c)
      (hc : c.toCmdKey = key) : RemoveCase w k key b (w', .removed n)

theorem removeCmdFromPdevQueue_scan (w : World) (key : CmdKey) (b : Bool) :
    RemoveCase w .scan key b (removeCmdFromPdevQueue w .scan key b) := by
  rw [removeCmdFromPdevQueue]
  cases hfind : (w.pdevQ .scan).findCmd ((w.pdevQ .scan).list b) key with
  | none => exact .failed fun n hn c hc => PdevQueue.findCmd_none hfind hn hc
  | some n =>
    obtain ⟨hn, c, hc, hk⟩ := PdevQueue.findCmd_some hfind
    by_cases hm : ((w.pdevQ .scan).nodes n).inUse.markedForActivation = true
    · simp only [hm, if_true]
      exact .pending n hn hm
    · simp only [hm, Bool.false_eq_true, if_false]
      refine .removed _ n c ?_ hk
      exact
        { pool := fun k => by cases k <;> simp
          nodes := fun k => by cases k <;> simp
          todo := rfl
          elsewhere := rfl
          nextReq := rfl
          released := rfl
          mem := hn
          cmd := hc
          idle := by simpa using hm
          list := fun k b' => by cases k <;> simp
          vdev := fun v b' => by simp
          flags := by simp }

theorem wlanSerRemoveNonScanCmd_case (hs : Synced w) (key : CmdKey) (b : Bool) :
    RemoveCase w .nonScan key b (wlanSerRemoveNonScanCmd w key b) := by
  have hf : (w.pdevQ .nonScan).findCmd ((w.vdevQ key.vdev).list b) key =
      (w.pdevQ .nonScan).findCmd ((w.pdevQ .nonScan).list b) key := by
    rw [hs, PdevQueue.findCmd_ofVdev]
  rw [wlanSerRemoveNonScanCmd, removeCmdFromVdevQueue]
  simp only [hf]
  cases hfind : (w.pdevQ .nonScan).findCmd ((w.pdevQ .nonScan).list b) key with
  | none => exact .failed fun n hn c hc => PdevQueue.findCmd_none hfind hn hc
  | some n =>
    obtain ⟨hn, c, hc, rfl⟩ := PdevQueue.findCmd_some hfind
    by_cases hm : ((w.pdevQ .nonScan).nodes n).inUse.markedForActivation = true
    · simp only [hm, if_true]
      exact .pending n hn hm
    · simp only [hm, Bool.false_eq_true, if_false, removeCmdFromPdevQueue, World.setVdevQ_frame,
        hfind]
      refine .removed _ n c ?_ rfl
      exact
        { pool := fun k => by cases k <;> cases b <;> simp
          nodes := fun k => by cases k <;> cases b <;> simp
          todo := by cases b <;> rfl
          elsewhere := by cases b <;> rfl
          nextReq := by cases b <;> rfl
          released := by cases b <;> rfl
          mem := hn
          cmd := hc
          idle := by simpa using hm
          list := fun k b' => by cases k <;> cases b <;> simp
          vdev := fun v b' => by
            by_cases hv : v = c.vdev
            · subst hv
              cases b <;> cases b' <;> simp
            · cases b <;> simp [hv]
          flags := by cases b <;> simp [PdevQueue.isBlocking, hc, World.flags] }

theorem wlanSerRemoveCmd_case (hs : Synced w) (k : Kind) (key : CmdKey) (b : Bool) :
    RemoveCase w k key b (wlanSerRemoveCmd w k key b) := by
  cases k with
  | scan => exact removeCmdFromPdevQueue_scan w key b
  | nonScan => exact wlanSerRemoveNonScanCmd_case hs key b

/-! ## Putting a command into lists -/

/-- The command `c` in the node `n` is put into the lists of its kind. -/
structure Links (w w' : World) (b : Bool) (n : ℕ) (c : Command) : Prop extends Aside w w' where
  list : ∀ k b', (w'.pdevQ k).list b' =
    if k = c.kind ∧ b' = b then insertNode c.isHighPriority n ((w.pdevQ k).list b')
    else (w.pdevQ k).list b'
  vdev : ∀ v b', (w'.vdevQ v).list b' =
    if c.kind = .nonScan ∧ v = c.vdev ∧ b' = b then
      insertNode c.isHighPriority n ((w.vdevQ v).list b')
    else (w.vdevQ v).list b'
  pdevRoom : c.kind = .scan → ((w.pdevQ .scan).list b).length ≠ Kind.scan.maxSize b
  room : c.kind = .nonScan → ((w.vdevQ c.vdev).list b).length ≠ vdevMaxSize b
  flags : w'.flags = if c.kind = .nonScan ∧ b then w.flags.note c.vdev c.isBlocking else w.flags

/-- No list has changed. -/
structure Still (w w' : World) : Prop extends Aside w w' where
  list : ∀ k b, (w'.pdevQ k).list b = (w.pdevQ k).list b
  vdev : ∀ v b, (w'.vdevQ v).list b = (w.vdevQ v).list b
  flags : w'.flags = w.flags

/-- What comes of putting in a command. -/
inductive AddCase (w : World) (b : Bool) (n : ℕ) (c : Command) : World × Bool → Prop
  | full (w' : World) (h : Still w w')
      (hs : c.kind = .scan → ((w.pdevQ .scan).list b).length = Kind.scan.maxSize b)
      (hn : c.kind = .nonScan → ((w.vdevQ c.vdev).list b).length = vdevMaxSize b) :
    AddCase w b n c (w', false)
  | added (w' : World) (h : Links w w' b n c) : AddCase w b n c (w', true)

theorem addCmdToPdevQueue_scan (hk : c.kind = .scan) (b : Bool) (n : ℕ) :
    AddCase w b n c (addCmdToPdevQueue w .scan n c b) := by
  rw [addCmdToPdevQueue, addCmdToQueue]
  by_cases h : ((w.pdevQ .scan).list b).length = Kind.scan.maxSize b
  · simp only [h, if_true]
    refine .full w ?_ (fun _ => h) (by simp [hk])
    exact ⟨⟨fun _ => rfl, fun _ => rfl, rfl, rfl, rfl, rfl⟩, fun _ _ => rfl, fun _ _ => rfl, rfl⟩
  · simp only [h, if_false]
    refine .added _ ?_
    exact
      { pool := fun k => by cases k <;> simp
        nodes := fun k => by cases k <;> simp
        todo := rfl
        elsewhere := rfl
        nextReq := rfl
        released := rfl
        list := fun k b' => by cases k <;> cases b <;> cases b' <;> simp [hk]
        vdev := fun v b' => by simp [hk]
        pdevRoom := fun _ => h
        room := by simp [hk]
        flags := by simp [hk] }

theorem wlanSerAddNonScanCmd_case (hk : c.kind = .nonScan) (b : Bool) (n : ℕ)
    (hroom : ((w.vdevQ c.vdev).list b).length ≠ vdevMaxSize b →
      ((w.pdevQ .nonScan).list b).length ≠ Kind.nonScan.maxSize b) :
    AddCase w b n c (wlanSerAddNonScanCmd w n c b) := by
  rw [wlanSerAddNonScanCmd, addCmdToVdevQueue, addCmdToQueue]
  by_cases h : ((w.vdevQ c.vdev).list b).length = vdevMaxSize b
  · simp only [h, if_true, Option.isSome_none]
    refine .full _ ?_ (by simp [hk]) (fun _ => h)
    refine ⟨⟨fun _ => rfl, fun _ => rfl, rfl, rfl, rfl, rfl⟩, fun _ _ => rfl, fun v b' => ?_, rfl⟩
    by_cases hv : v = c.vdev
    · subst hv
      cases b <;> cases b' <;> simp [VdevQueue.list, VdevQueue.setList]
    · simp [hv]
  · simp only [h, if_false, Option.isSome_some, addCmdToPdevQueue, World.setVdevQ_frame,
      addCmdToQueue, hroom h, Option.getD_some]
    refine .added _ ?_
    exact
      { pool := fun k => by cases k <;> cases b <;> simp
        nodes := fun k => by cases k <;> cases b <;> simp
        todo := by cases b <;> rfl
        elsewhere := by cases b <;> rfl
        nextReq := by cases b <;> rfl
        released := by cases b <;> rfl
        list := fun k b' => by cases k <;> cases b <;> cases b' <;> simp [hk]
        vdev := fun v b' => by
          by_cases hv : v = c.vdev
          · subst hv
            cases b <;> cases b' <;> simp [hk, VdevQueue.list, VdevQueue.setList]
          · cases b <;> simp [hv, hk]
        pdevRoom := by simp [hk]
        room := fun _ => h
        flags := by cases b <;> simp [hk, World.flags] }

theorem wlanSerAddCmd_case (b : Bool) (n : ℕ)
    (hroom : c.kind = .nonScan → ((w.vdevQ c.vdev).list b).length ≠ vdevMaxSize b →
      ((w.pdevQ .nonScan).list b).length ≠ Kind.nonScan.maxSize b) :
    AddCase w b n c (wlanSerAddCmd w c.kind n c b) := by
  cases hk : c.kind with
  | scan => exact addCmdToPdevQueue_scan hk b n
  | nonScan => exact wlanSerAddNonScanCmd_case hk b n (hroom hk)

end Sm8850.Serialization
