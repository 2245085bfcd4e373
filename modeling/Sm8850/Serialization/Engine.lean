/-
  The operations of the serialization engine, one section under the lock of a
  pdev queue after the other (`wlan_serialization_internal.c`, `..._non_scan.c`,
  `..._scan.c`, `..._api.c`).

  * `Frame.run` is the next section of a call: it changes the queues and says what
    the call does after it.  What a callback calls between two sections is another
    call here.
  * `Op` is a new call of the engine or the next section of one in progress.
-/
import Sm8850.Serialization.Queue

namespace Sm8850.Serialization

/-! ## Requests -/

/-- `wlan_serialization_enqueue_cmd` after the command has a node. -/
def enqueueNode (w : World) (n : ℕ) (cmd : Command) (active : Bool) : World × List Frame :=
  let k := cmd.kind
  match wlanSerAddCmd (w.setQ k ((w.pdevQ k).setNode n ⟨some cmd, ((w.pdevQ k).nodes n).inUse⟩)) k n
      cmd active with
  | (w, false) => (w.setQ k (((w.pdevQ k).setNode n .free).toPool n), [])
  | (w, true) =>
    let w := { w with nextReq := w.nextReq + 1 }
    if active then (w.setQ k ((w.pdevQ k).markForActivation n), [.activate k n]) else (w, [])

/-- `wlan_serialization_enqueue_cmd`, for a request -/
def wlanSerializationEnqueueCmd (w : World) (cmd : Command) : World × List Frame :=
  let k := cmd.kind
  if k = .nonScan ∧ (w.vdevQ cmd.vdev).queueDisable then (w, [])
  else
    match isActiveCmdAllowed w cmd with
    | (w, active) =>
      if isCmdPresentQueue w cmd.toCmdKey active then (w, [])
      else
        match (w.pdevQ k).cmdPoolList with
        | [] => (w, [])
        | n :: pool =>
          enqueueNode (w.setQ k { w.pdevQ k with cmdPoolList := pool }) n
            { cmd with req := w.nextReq } active

/-! ## Removing an active command -/

/-- The section of `wlan_serialization_dequeue_cmd` for an active command, and
    what is left of it. -/
def wlanSerializationDequeueCmd (w : World) (key : CmdKey) : World × List Frame :=
  let k := key.kind
  match wlanSerRemoveCmd w k key true with
  | (w, .removed n) =>
    let q := w.pdevQ k
    match (q.nodes n).cmd with
    | none => (w, [])
    | some cmd =>
      (w.setQ k ((q.setNode n .free).toPool n),
        [.move k (some cmd.vdev) (k = .nonScan ∧ cmd.isBlocking), .release cmd.req])
  | (w, _) => (w, [])

/-! ## Pending commands become active -/

/-- Set or clear `CMD_MARKED_FOR_MOVEMENT`. -/
def PdevQueue.markForMovement (q : PdevQueue) (n : ℕ) (mark : Bool) : PdevQueue :=
  q.setNode n { q.nodes n with inUse := { (q.nodes n).inUse with markedForMovement := mark } }

/-- `CMD_MARKED_FOR_MOVEMENT` is set on the first of the nodes. -/
def PdevQueue.markNext (q : PdevQueue) : List ℕ → PdevQueue
  | [] => q
  | n :: _ => q.markForMovement n true

/-- One pass of `wlan_ser_move_non_scan_pending_to_active` over the list of the
    pdev: the command to move. -/
def pickFromPdev (q : PdevQueue) : List ℕ → PdevQueue × Option (ℕ × Command)
  | [] => (q, none)
  | n :: rest =>
    match (q.nodes n).cmd with
    | none => (q, none)
    | some cmd =>
      if cmd.isBlocking ∧ q.anyVdevCmdActive then (q, none)
      else
        let q := q.markNext rest
        if cmd.vdev ∈ q.vdevActiveCmdBitmap then pickFromPdev (q.markForMovement n false) rest
        else (q, some (n, cmd))

/-- The same over the list of a vdev. -/
def pickFromVdev (q : PdevQueue) : List ℕ → Option (ℕ × Command)
  | [] => none
  | n :: _ =>
    match (q.nodes n).cmd with
    | none => none
    | some cmd =>
      if cmd.vdev ∈ q.vdevActiveCmdBitmap ∨ (q.nodes n).inUse.markedForMovement then none
      else some (n, cmd)

/-- The command moves from the pending to the active lists, and is about to be
    activated. -/
def moveToActive (w : World) (k : Kind) (cmd : Command) : World × List Frame :=
  match wlanSerRemoveCmd w k cmd.toCmdKey false with
  | (w, .removed n) =>
    match ((w.pdevQ k).nodes n).cmd with
    | none => (w, [])
    | some cmd =>
      match wlanSerAddCmd w k n cmd true with
      | (w, false) => (w.setQ k ((w.pdevQ k).toPool n), [])
      | (w, true) =>
        let q := (w.pdevQ k).markForActivation n
        (w.setQ k { q with
          blockingCmdWaiting :=
            if k = .nonScan ∧ cmd.isBlocking then dec16 q.blockingCmdWaiting
            else q.blockingCmdWaiting }, [.activate k n])
  | (w, _) => (w, [])

/-- A pass of `wlan_ser_move_non_scan_pending_to_active` over the list of the
    pdev. -/
def movePass (w : World) : World × List Frame :=
  let q := w.pdevQ .nonScan
  match pickFromPdev q q.pendingList with
  | (q, none) => (w.setQ .nonScan q, [])
  | (q, some (_, cmd)) =>
    match moveToActive (w.setQ .nonScan q) .nonScan cmd with
    | (w, []) => (w, [])
    | (w, frames) => (w, frames ++ [.moveOn])

/-- `wlan_ser_move_non_scan_pending_to_active`, up to the activation -/
def wlanSerMoveNonScanPendingToActive (w : World) (vdev : Option ℕ) (blockingCmdRemoved : Bool) :
    World × List Frame :=
  let q := w.pdevQ .nonScan
  match vdev with
  | some v =>
    if !blockingCmdRemoved && q.blockingCmdWaiting == 0 then
      match pickFromVdev q (w.vdevQ v).pendingList with
      | none => (w, [])
      | some (_, cmd) => moveToActive w .nonScan cmd
    else movePass w
  | none => movePass w

/-- `wlan_ser_move_scan_pending_to_active`, up to the activation -/
def wlanSerMoveScanPendingToActive (w : World) : World × List Frame :=
  let q := w.pdevQ .scan
  match q.pendingList with
  | [] => (w, [])
  | n :: _ =>
    match (q.nodes n).cmd with
    | none => (w, [])
    | some cmd => if isActiveScanCmdAllowed w then moveToActive w .scan cmd else (w, [])

/-! ## Cancelling -/

/-- The command is one of those to be cancelled. -/
def CancelReq.selects (k : Kind) (r : CancelReq) (cmd : Command) : Bool :=
  match k with
  | .scan => (r.cmd.all fun key => cmd.cmdId == key.cmdId && cmd.cmdType == key.cmdType) &&
      r.vdev.all fun v => cmd.vdev == v
  | .nonScan => (r.cmd.all fun key => cmd.toCmdKey == key) && (r.vdev.all fun v => cmd.vdev == v) &&
      !(cmdNonScan < r.cmdType && r.vdev.isSome && cmd.cmdType != r.cmdType) &&
      !(r.nonBlock && cmd.isBlocking)

/-- `wlan_serialization_get_cmd_from_queue`: the first node, or the one after
    `prev`. -/
def getCmdFromQueue (list : List ℕ) : Option ℕ → Option ℕ
  | none => list.head?
  | some prev => (list.dropWhile fun n => n ≠ prev)[1]?

/-- Set `CMD_ACTIVE_MARKED_FOR_CANCEL`. -/
def PdevQueue.markForCancel (q : PdevQueue) (n : ℕ) : PdevQueue :=
  q.setNode n { q.nodes n with inUse := { (q.nodes n).inUse with activeMarkedForCancel := true } }

/-- The loop of a cancel up to the next command that it takes out: its node and
    command, the node to go on from and the turns left.  `stopped` is whether its
    timer could be stopped. -/
def cancelLoop (q : PdevQueue) (k : Kind) (r : CancelReq) (active stopped : Bool) :
    ℕ → Option ℕ → Option ℕ → PdevQueue × Option (ℕ × Command × Option ℕ × ℕ)
  | 0, _, _ => (q, none)
  | left + 1, node, prev =>
    match getCmdFromQueue (q.list active) node with
    | none => (q, none)
    | some n =>
      match (q.nodes n).cmd with
      | none => cancelLoop q k r active stopped left (some n) (some n)
      | some cmd =>
        if !r.selects k cmd then cancelLoop q k r active stopped left (some n) (some n)
        else if active ∧ (q.nodes n).inUse.markedForActivation then
          cancelLoop (q.markForCancel n) k r active stopped left (some n) prev
        else if active ∧ !stopped then (q, none)
        else (q, some (n, cmd, prev, left))

/-- What a cancel does after its loop. -/
def cancelEnd (k : Kind) (active : Bool) : List Frame :=
  if k = .nonScan ∧ active then [.reactivate] else []

/-- A command that a cancel has found is taken out of its lists. -/
def cancelTake (w : World) (k : Kind) (active : Bool) (n : ℕ) (cmd : Command) : World :=
  let q := w.pdevQ k
  let q := ((q.setList active ((q.list active).erase n)).setNode n .free).toPool n
  let w := w.setQ k q
  if k = .scan then w
  else
    let vq := w.vdevQ cmd.vdev
    w.setVdevQ cmd.vdev (vq.setList active ((vq.list active).erase n))

/-- The loop of a cancel from `prev` on, up to the callbacks of the next command
    that it takes out. -/
def cancelFrom (w : World) (k : Kind) (r : CancelReq) (active stopped : Bool) (prev : Option ℕ)
    (left : ℕ) : World × List Frame :=
  match cancelLoop (w.pdevQ k) k r active stopped left prev prev with
  | (q, none) => (w.setQ k q, cancelEnd k active)
  | (q, some (n, cmd, prev, left)) =>
    (cancelTake (w.setQ k q) k active n cmd,
      [.release cmd.req, .cancelOn k r active cmd.vdev cmd.isBlocking prev left])

/-- The flags of a cancelled command are cleared. -/
def PdevQueue.clearCancelled (q : PdevQueue) (active : Bool) (vdev : ℕ) (blocking : Bool) :
    PdevQueue :=
  if active then q.clearActive vdev blocking
  else { q with
    blockingCmdWaiting := if blocking then dec16 q.blockingCmdWaiting else q.blockingCmdWaiting }

/-- The loop goes on after the callbacks. -/
def cancelResume (w : World) (k : Kind) (r : CancelReq) (active stopped : Bool) (vdev : ℕ)
    (blocking : Bool) (prev : Option ℕ) (left : ℕ) : World × List Frame :=
  match k with
  | .scan => cancelFrom w .scan r active stopped prev left
  | .nonScan =>
    let w := w.setQ .nonScan ((w.pdevQ .nonScan).clearCancelled active vdev blocking)
    if r.vdev.isNone ∧ !r.pdev then (w, cancelEnd .nonScan active)
    else cancelFrom w .nonScan r active stopped prev left

/-- A cancel from its start. -/
def wlanSerCancelCmd (w : World) (k : Kind) (r : CancelReq) (active stopped : Bool) :
    World × List Frame :=
  cancelFrom w k r active stopped none ((w.pdevQ k).list active).length

/-! ## Calls -/

/-- The next section of a call and what is left to do after it.  `ok` is the result
    of the timer and the callback. -/
def Frame.run (w : World) (ok : Bool) : Frame → World × List Frame
  | .activate k n =>
    let q := w.pdevQ k
    (w.setQ k (q.setNode n { q.nodes n with
      inUse := { (q.nodes n).inUse with markedForActivation := false, isActive := true } }),
      [.activated k n ok])
  | .activated k n ok' =>
    let inUse := ((w.pdevQ k).nodes n).inUse
    if !ok' ∨ inUse.activeMarkedForRemoval then (w, [.dequeueNode k n])
    else if inUse.activeMarkedForCancel then (w, [.cancelNode k n])
    else (w, [])
  | .dequeue key => wlanSerializationDequeueCmd w key
  | .dequeueNode k n =>
    match ((w.pdevQ k).nodes n).cmd with
    | none => (w, [])
    | some cmd => wlanSerializationDequeueCmd w cmd.toCmdKey
  | .move .scan _ _ => wlanSerMoveScanPendingToActive w
  | .move .nonScan vdev removed => wlanSerMoveNonScanPendingToActive w vdev removed
  | .moveOn => if (w.pdevQ .nonScan).blockingCmdActive then (w, []) else movePass w
  | .release req => ({ w with released := w.released ++ [req] }, [])
  | .cancel k r active => wlanSerCancelCmd w k r active ok
  | .cancelNode k n =>
    match ((w.pdevQ k).nodes n).cmd with
    | none => (w, [])
    | some cmd => wlanSerCancelCmd w cmd.kind ⟨some cmd.toCmdKey, none, false, cmd.cmdType, false⟩
        true ok
  | .cancelOn k r active vdev blocking prev left =>
    cancelResume w k r active ok vdev blocking prev left
  | .reactivate =>
    let q := w.pdevQ .nonScan
    if q.activeList.isEmpty ∧ !q.anyVdevCmdActive then (w, [.move .nonScan none false])
    else (w, [])

/-- The `req_type` of a cancel request. -/
inductive CancelType where
  | singleScan | pdevScans | vdevScans | nonScanCmd | pdevNonScanCmd | vdevNonScanCmd
  | vdevNonScanCmdType | vdevNonScanNbCmd

/-- The queues that are scanned, and what is cancelled in them. -/
def CancelType.req (key : CmdKey) : CancelType → Kind × CancelReq
  | .singleScan => (.scan, ⟨some key, none, false, 0, false⟩)
  | .pdevScans => (.scan, ⟨none, none, true, 0, false⟩)
  | .vdevScans => (.scan, ⟨none, some key.vdev, false, 0, false⟩)
  | .nonScanCmd => (.nonScan, ⟨some key, none, false, cmdNonScan, false⟩)
  | .pdevNonScanCmd => (.nonScan, ⟨none, none, true, cmdNonScan, false⟩)
  | .vdevNonScanCmd => (.nonScan, ⟨none, some key.vdev, false, cmdNonScan, false⟩)
  | .vdevNonScanCmdType =>
    (CmdKey.kind key, ⟨none, some key.vdev, false, key.cmdType, false⟩)
  | .vdevNonScanNbCmd => (.nonScan, ⟨none, some key.vdev, false, cmdNonScan, true⟩)

/-- `wlan_serialization_find_and_cancel_cmd` and
    `wlan_serialization_cmd_cancel_handler`: the active list before the pending
    list. -/
def findAndCancelCmd (key : CmdKey) (type : CancelType) (active pending : Bool) : List Frame :=
  let (k, r) := type.req key
  (if active then [.cancel k r true] else []) ++ if pending then [.cancel k r false] else []

/-- A purge of one kind: the pending list, and before its return the active one. -/
def purge (k : Kind) (vdev : Option ℕ) (active : Bool) : List Frame :=
  let r : CancelReq := ⟨none, vdev, true, if k = .scan then 0 else cmdNonScan, false⟩
  .cancel k r false :: if active then [.cancel k r true] else []

/-- The calls of the engine. -/
inductive Call where
  /-- `wlan_serialization_cancel_request` -/
  | cancelRequest (key : CmdKey) (type : CancelType) (active pending : Bool)
  /-- `wlan_serialization_remove_cmd` -/
  | removeCmd (key : CmdKey)
  /-- `wlan_serialization_generic_timer_cb` of a command that is still active -/
  | timeout (key : CmdKey)
  /-- `wlan_serialization_purge_all_pdev_cmd` -/
  | purgeAllPdevCmd
  /-- `wlan_serialization_purge_all_pending_cmd_by_vdev_id` -/
  | purgeAllPendingCmdByVdevId (vdev : ℕ)
  /-- `wlan_serialization_purge_all_cmd_by_vdev_id` -/
  | purgeAllCmdByVdevId (vdev : ℕ)
  /-- `wlan_serialization_purge_all_scan_cmd_by_vdev_id` -/
  | purgeAllScanCmdByVdevId (vdev : ℕ)

/-- What a call does. -/
def Call.frames : Call → List Frame
  | .cancelRequest key type active pending => findAndCancelCmd key type active pending
  | .removeCmd key | .timeout key => [.dequeue key]
  | .purgeAllPdevCmd => purge .scan none true ++ purge .nonScan none true
  | .purgeAllPendingCmdByVdevId v => purge .scan (some v) false ++ purge .nonScan (some v) false
  | .purgeAllCmdByVdevId v => purge .scan (some v) true ++ purge .nonScan (some v) true
  | .purgeAllScanCmdByVdevId v => purge .scan (some v) true

/-- The steps. -/
inductive Op where
  /-- `wlan_serialization_request` -/
  | request (cmd : Command)
  | call (c : Call)
  /-- the next section of the call `t` -/
  | go (t : ℕ) (ok : Bool)
  /-- `wlan_ser_vdev_queue_disable` -/
  | disable (vdev : ℕ)
  /-- the active scans of the other pdevs change -/
  | scansElsewhere (count : ℕ)

/-- The step can be taken. -/
def Op.Allowed (vdevs : Vdevs) (w : World) : Op → Prop
  | .request cmd => cmd.vdev ∈ vdevs.ids
  | .go t _ => ∃ frame rest, w.todo[t]? = some (frame :: rest)
  | .call _ | .disable _ | .scansElsewhere _ => True

/-- The effect of a step. -/
def Op.exec (w : World) : Op → World
  | .request cmd =>
    match wlanSerializationEnqueueCmd w cmd with
    | (w, frames) => w.start frames
  | .call c => w.start c.frames
  | .go t ok =>
    match w.todo[t]? with
    | some (frame :: rest) =>
      match frame.run w ok with
      | (w, frames) => w.setTodo t (frames ++ rest)
    | _ => w
  | .disable v => w.setVdevQ v { w.vdevQ v with queueDisable := true }
  | .scansElsewhere count => { w with scansElsewhere := count }

/-- Run a list of steps. -/
def execAll (w : World) (ops : List Op) : World := ops.foldl Op.exec w

end Sm8850.Serialization
