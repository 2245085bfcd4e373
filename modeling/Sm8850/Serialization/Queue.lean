/-
  The wlan command serialization engine: the queues of a pdev and of its vdevs
  (`wlan_serialization_queue.c`, `..._utils.c`, `..._non_scan.c`, `..._scan.c`).

  * A `Node` of the command pool is on one list of its `PdevQueue` and, for a
    command that is no scan, on the list of its vdev too.  Lists hold the
    numbers of nodes.
  * A `World` is a pdev with its vdevs and what every call in progress has still
    to do (`Frame`).
  * Each function here runs under the lock of its pdev queue.
  * Ghost: the number of each accepted request, and the release callbacks.
  * Timers are left out but for the result of starting and stopping them, and so
    are the command history, the rules of the components, which accept every
    command, and the status that a cancel returns.
-/
import Mathlib.Data.Finset.Basic
import Mathlib.Data.Nat.Notation
import Mathlib.Logic.Function.Basic

namespace Sm8850.Serialization

/-! ## Commands -/

/-- `WLAN_SER_CMD_NONSCAN`: the types below are scans. -/
def cmdNonScan : ℕ := 1

/-- What a command is found by: `cmd_type`, `cmd_id` and `vdev`. -/
structure CmdKey where
  cmdType : ℕ
  cmdId : ℕ
  vdev : ℕ
  deriving DecidableEq

/-- `struct wlan_serialization_command`.  Ghost: the number of its request. -/
structure Command extends CmdKey where
  isHighPriority : Bool
  isBlocking : Bool
  queueDisable : Bool
  req : ℕ

/-- `cmd_in_use` -/
structure InUse where
  markedForActivation : Bool
  isActive : Bool
  activeMarkedForCancel : Bool
  activeMarkedForRemoval : Bool
  markedForMovement : Bool

/-- No bit is set. -/
def InUse.zero : InUse := ⟨false, false, false, false, false⟩

/-- `struct wlan_serialization_command_list`: `cmd` is `none` once it is zeroed. -/
structure Node where
  cmd : Option Command
  inUse : InUse

/-- A node in the pool. -/
def Node.free : Node := ⟨none, .zero⟩

/-- `enum serialization_pdev_queue_type` -/
inductive Kind where
  | scan | nonScan
  deriving DecidableEq

/-- `wlan_serialization_get_pdev_queue_obj` -/
def CmdKey.kind (key : CmdKey) : Kind := if key.cmdType < cmdNonScan then .scan else .nonScan

/-! ## Sizes -/

/-- `WLAN_UMAC_PDEV_MAX_VDEVS` -/
def maxVdevs : ℕ := 17

/-- The greatest size of the active or the pending list of a pdev. -/
def Kind.maxSize : Kind → Bool → ℕ
  | .scan, true => 8
  | .scan, false => 24
  | .nonScan, true => maxVdevs
  | .nonScan, false => maxVdevs * 4

/-- The greatest size of the active or the pending list of a vdev. -/
def vdevMaxSize : Bool → ℕ
  | true => 1
  | false => 4

/-- The nodes in the pool of a pdev queue. -/
def Kind.poolSize (k : Kind) : ℕ := k.maxSize true + k.maxSize false

/-- `ucfg_scan_get_max_active_scans` -/
def maxActiveScans : ℕ := 8

/-- The vdevs of the pdev. -/
structure Vdevs where
  ids : List ℕ
  le : ids.length ≤ maxVdevs

/-! ## Queues -/

/-- `struct wlan_serialization_pdev_queue` and the nodes of its pool. -/
structure PdevQueue where
  activeList : List ℕ
  pendingList : List ℕ
  cmdPoolList : List ℕ
  vdevActiveCmdBitmap : Finset ℕ
  blockingCmdActive : Bool
  blockingCmdWaiting : ℕ
  nodes : ℕ → Node

/-- `struct wlan_serialization_vdev_queue` -/
structure VdevQueue where
  activeList : List ℕ
  pendingList : List ℕ
  queueDisable : Bool

/-- The queue of a pdev as it is created. -/
def PdevQueue.init (k : Kind) : PdevQueue :=
  { activeList := [], pendingList := [], cmdPoolList := List.range k.poolSize
    vdevActiveCmdBitmap := ∅, blockingCmdActive := false, blockingCmdWaiting := 0
    nodes := fun _ => .free }

/-- The queue of a vdev as it is created. -/
def VdevQueue.init : VdevQueue := ⟨[], [], false⟩

/-- `wlan_serialization_get_list_from_pdev_queue` -/
def PdevQueue.list (q : PdevQueue) : Bool → List ℕ
  | true => q.activeList
  | false => q.pendingList

/-- Replace the active or the pending list. -/
def PdevQueue.setList (q : PdevQueue) (active : Bool) (list : List ℕ) : PdevQueue :=
  if active then { q with activeList := list } else { q with pendingList := list }

/-- Replace a node. -/
def PdevQueue.setNode (q : PdevQueue) (n : ℕ) (node : Node) : PdevQueue :=
  { q with nodes := Function.update q.nodes n node }

/-- `wlan_serialization_get_list_from_vdev_queue` -/
def VdevQueue.list (q : VdevQueue) : Bool → List ℕ
  | true => q.activeList
  | false => q.pendingList

/-- Replace the active or the pending list. -/
def VdevQueue.setList (q : VdevQueue) (active : Bool) (list : List ℕ) : VdevQueue :=
  if active then { q with activeList := list } else { q with pendingList := list }

/-- `wlan_serialization_any_vdev_cmd_active` -/
def PdevQueue.anyVdevCmdActive (q : PdevQueue) : Bool := q.vdevActiveCmdBitmap ≠ ∅

/-- `wlan_serialization_find_cmd` with `WLAN_SER_MATCH_CMD_ID_VDEV` -/
def PdevQueue.findCmd (q : PdevQueue) (list : List ℕ) (key : CmdKey) : Option ℕ :=
  list.find? fun n => (q.nodes n).cmd.map Command.toCmdKey == some key

/-- `wlan_serialization_insert_front` and `wlan_serialization_insert_back` -/
def insertNode (front : Bool) (n : ℕ) (list : List ℕ) : List ℕ :=
  if front then n :: list else list ++ [n]

/-- `wlan_serialization_add_cmd_to_queue`, unless the list is full. -/
def addCmdToQueue (list : List ℕ) (n maxSize : ℕ) (front : Bool) : Option (List ℕ) :=
  if list.length = maxSize then none else some (insertNode front n list)

/-- `x++` and `x--` in `uint16_t` -/
def inc16 (n : ℕ) : ℕ := (n + 1) % 65536

@[inherit_doc inc16]
def dec16 (n : ℕ) : ℕ := (n + 65535) % 65536

/-- What a cancel asks for.  `pdev` is whether a pdev is given, `nonBlock` is
    `WLAN_SER_CMD_ATTR_NONBLOCK`. -/
structure CancelReq where
  cmd : Option CmdKey
  vdev : Option ℕ
  pdev : Bool
  cmdType : ℕ
  nonBlock : Bool
  deriving DecidableEq

/-- A part of what a call has still to do. -/
inductive Frame where
  /-- `wlan_serialization_activate_cmd`: the timer, the callback, and the section
      after it -/
  | activate (k : Kind) (n : ℕ)
  /-- the tests after that section -/
  | activated (k : Kind) (n : ℕ) (ok : Bool)
  /-- `wlan_serialization_dequeue_cmd` of an active command -/
  | dequeue (key : CmdKey)
  /-- the same of the command in a node -/
  | dequeueNode (k : Kind) (n : ℕ)
  /-- `wlan_serialization_move_pending_to_active` -/
  | move (k : Kind) (vdev : Option ℕ) (blockingCmdRemoved : Bool)
  /-- its loop over the list of the pdev, locked again after an activation -/
  | moveOn
  /-- the release-memory callback -/
  | release (req : ℕ)
  /-- `wlan_ser_cancel_non_scan_cmd` and `wlan_ser_cancel_scan_cmd` -/
  | cancel (k : Kind) (r : CancelReq) (active : Bool)
  /-- the same of the command in a node -/
  | cancelNode (k : Kind) (n : ℕ)
  /-- its loop, locked again after the callbacks of a cancelled command of `vdev`;
      `prev` is the node it goes on from, `left` the turns left -/
  | cancelOn (k : Kind) (r : CancelReq) (active : Bool) (vdev : ℕ) (blocking : Bool)
      (prev : Option ℕ) (left : ℕ)
  /-- the test at the end of a cancel of active commands -/
  | reactivate
  deriving DecidableEq

/-- The pdev, its vdevs, and what every call in progress has still to do.
    `scansElsewhere` counts the active scans of the other pdevs. -/
structure World where
  pdevQ : Kind → PdevQueue
  vdevQ : ℕ → VdevQueue
  todo : List (List Frame)
  scansElsewhere : ℕ
  /-- the number of the next accepted request -/
  nextReq : ℕ
  /-- the requests whose release-memory callback has been called -/
  released : List ℕ

/-- The pdev as it is created. -/
def World.init : World :=
  { pdevQ := PdevQueue.init, vdevQ := fun _ => .init, todo := [], scansElsewhere := 0
    nextReq := 0, released := [] }

/-- Replace a pdev queue. -/
def World.setQ (w : World) (k : Kind) (q : PdevQueue) : World :=
  { w with pdevQ := Function.update w.pdevQ k q }

/-- Replace the queue of a vdev. -/
def World.setVdevQ (w : World) (v : ℕ) (q : VdevQueue) : World :=
  { w with vdevQ := Function.update w.vdevQ v q }

/-- Replace what a call has still to do. -/
def World.setTodo (w : World) (t : ℕ) (frames : List Frame) : World :=
  { w with todo := w.todo.set t frames }

/-- A call has begun. -/
def World.start (w : World) (frames : List Frame) : World := { w with todo := w.todo ++ [frames] }

/-- Everything that is still to do. -/
def World.frames (w : World) : List Frame := w.todo.flatten

/-- The outcome of taking a command out of a queue. -/
inductive Removal where
  | failed
  /-- `QDF_STATUS_E_PENDING`: it is about to be activated -/
  | pending
  | removed (n : ℕ)

/-- Set `CMD_ACTIVE_MARKED_FOR_REMOVAL`. -/
def PdevQueue.markForRemoval (q : PdevQueue) (n : ℕ) : PdevQueue :=
  q.setNode n { q.nodes n with inUse := { (q.nodes n).inUse with activeMarkedForRemoval := true } }

/-! ## Adding and removing -/

/-- `wlan_serialization_remove_cmd_from_queue` on the list of a vdev -/
def removeCmdFromVdevQueue (w : World) (key : CmdKey) (active : Bool) : World × Removal :=
  let q := w.pdevQ .nonScan
  let vq := w.vdevQ key.vdev
  match q.findCmd (vq.list active) key with
  | none => (w, .failed)
  | some n =>
    if (q.nodes n).inUse.markedForActivation then (w.setQ .nonScan (q.markForRemoval n), .pending)
    else (w.setVdevQ key.vdev (vq.setList active ((vq.list active).erase n)), .removed n)

/-- `wlan_serialization_remove_cmd_from_queue` on the list of the pdev -/
def removeCmdFromPdevQueue (w : World) (k : Kind) (key : CmdKey) (active : Bool) :
    World × Removal :=
  let q := w.pdevQ k
  match q.findCmd (q.list active) key with
  | none => (w, .failed)
  | some n =>
    if (q.nodes n).inUse.markedForActivation then (w.setQ k (q.markForRemoval n), .pending)
    else (w.setQ k (q.setList active ((q.list active).erase n)), .removed n)

/-- The flags of an active command are cleared. -/
def PdevQueue.clearActive (q : PdevQueue) (vdev : ℕ) (blocking : Bool) : PdevQueue :=
  { q with
    blockingCmdActive := if blocking then false else q.blockingCmdActive
    vdevActiveCmdBitmap := q.vdevActiveCmdBitmap.erase vdev }

/-- The flags of an active command are set. -/
def PdevQueue.noteActive (q : PdevQueue) (vdev : ℕ) (blocking : Bool) : PdevQueue :=
  { q with
    blockingCmdActive := if blocking then true else q.blockingCmdActive
    vdevActiveCmdBitmap := insert vdev q.vdevActiveCmdBitmap }

/-- The command in a node is a blocking one. -/
def PdevQueue.isBlocking (q : PdevQueue) (n : ℕ) : Bool := (q.nodes n).cmd.any Command.isBlocking

/-- `wlan_ser_remove_non_scan_cmd` -/
def wlanSerRemoveNonScanCmd (w : World) (key : CmdKey) (active : Bool) : World × Removal :=
  match removeCmdFromVdevQueue w key active with
  | (w, .removed _) =>
    match removeCmdFromPdevQueue w .nonScan key active with
    | (w, .removed n) =>
      let q := w.pdevQ .nonScan
      (if active then w.setQ .nonScan (q.clearActive key.vdev (q.isBlocking n)) else w, .removed n)
    | (w, _) => (w, .failed)
  | (w, r) => (w, r)

/-- `wlan_ser_remove_scan_cmd` and `wlan_ser_remove_non_scan_cmd` -/
def wlanSerRemoveCmd (w : World) (k : Kind) (key : CmdKey) (active : Bool) : World × Removal :=
  match k with
  | .scan => removeCmdFromPdevQueue w .scan key active
  | .nonScan => wlanSerRemoveNonScanCmd w key active

/-- `wlan_serialization_add_cmd_to_vdev_queue`, and whether it could -/
def addCmdToVdevQueue (w : World) (n : ℕ) (cmd : Command) (active : Bool) : World × Bool :=
  let vq := w.vdevQ cmd.vdev
  let added := addCmdToQueue (vq.list active) n (vdevMaxSize active) cmd.isHighPriority
  let vq := vq.setList active (added.getD (vq.list active))
  let vq := { vq with queueDisable := cmd.queueDisable || vq.queueDisable }
  (w.setVdevQ cmd.vdev vq, added.isSome)

/-- `wlan_serialization_add_cmd_to_pdev_queue`, and whether it could -/
def addCmdToPdevQueue (w : World) (k : Kind) (n : ℕ) (cmd : Command) (active : Bool) :
    World × Bool :=
  let q := w.pdevQ k
  match addCmdToQueue (q.list active) n (k.maxSize active) cmd.isHighPriority with
  | none => (w, false)
  | some list => (w.setQ k (q.setList active list), true)

/-- `wlan_ser_add_non_scan_cmd`, and whether it could -/
def wlanSerAddNonScanCmd (w : World) (n : ℕ) (cmd : Command) (active : Bool) : World × Bool :=
  match addCmdToVdevQueue w n cmd active with
  | (w, false) => (w, false)
  | (w, true) =>
    match addCmdToPdevQueue w .nonScan n cmd active with
    | (w, false) => ((removeCmdFromVdevQueue w cmd.toCmdKey active).1, false)
    | (w, true) =>
      let q := w.pdevQ .nonScan
      (if active then w.setQ .nonScan (q.noteActive cmd.vdev cmd.isBlocking) else w, true)

/-- `wlan_ser_add_scan_cmd` and `wlan_ser_add_non_scan_cmd` -/
def wlanSerAddCmd (w : World) (k : Kind) (n : ℕ) (cmd : Command) (active : Bool) : World × Bool :=
  match k with
  | .scan => addCmdToPdevQueue w .scan n cmd active
  | .nonScan => wlanSerAddNonScanCmd w n cmd active

/-- The node goes back to the pool. -/
def PdevQueue.toPool (q : PdevQueue) (n : ℕ) : PdevQueue :=
  { q with cmdPoolList := q.cmdPoolList ++ [n] }

/-- Set `CMD_MARKED_FOR_ACTIVATION`. -/
def PdevQueue.markForActivation (q : PdevQueue) (n : ℕ) : PdevQueue :=
  q.setNode n { q.nodes n with inUse := { (q.nodes n).inUse with markedForActivation := true } }

/-! ## Admission -/

/-- `wlan_serialization_is_active_non_scan_cmd_allowed`, with the count it
    raises.  The local copy of `blocking_cmd_waiting` has 8 bits. -/
def isActiveNonScanCmdAllowed (q : PdevQueue) (cmd : Command) : Bool × ℕ :=
  if cmd.isBlocking then
    if q.anyVdevCmdActive then (false, inc16 q.blockingCmdWaiting) else (true, q.blockingCmdWaiting)
  else if q.blockingCmdActive ∨ q.blockingCmdWaiting % 256 ≠ 0 then (false, q.blockingCmdWaiting)
  else (cmd.vdev ∉ q.vdevActiveCmdBitmap, q.blockingCmdWaiting)

/-- `wlan_serialization_is_active_scan_cmd_allowed` -/
def isActiveScanCmdAllowed (w : World) : Bool :=
  (w.pdevQ .scan).activeList.length + w.scansElsewhere < maxActiveScans

/-- `wlan_serialization_is_active_cmd_allowed` -/
def isActiveCmdAllowed (w : World) (cmd : Command) : World × Bool :=
  match cmd.kind with
  | .scan => (w, isActiveScanCmdAllowed w && (w.pdevQ .scan).pendingList.isEmpty)
  | .nonScan =>
    let q := w.pdevQ .nonScan
    let (allowed, waiting) := isActiveNonScanCmdAllowed q cmd
    (w.setQ .nonScan { q with blockingCmdWaiting := waiting },
      allowed && (w.vdevQ cmd.vdev).pendingList.isEmpty)

/-- `wlan_serialization_is_cmd_present_queue` -/
def isCmdPresentQueue (w : World) (key : CmdKey) (active : Bool) : Bool :=
  let q := w.pdevQ key.kind
  match key.kind with
  | .scan => (q.findCmd (q.list active) key).isSome
  | .nonScan => (q.findCmd ((w.vdevQ key.vdev).list active) key).isSome

end Sm8850.Serialization
