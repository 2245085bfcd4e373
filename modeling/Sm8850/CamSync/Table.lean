/-
  The camera sync driver: fences, groups of fences and their callbacks
  (`cam_sync.c`, `cam_sync_util.c`).

  * A `Row` is a row of the sync table with its lock, its bit of the bitmap and
    the ghost generation `gen`, which counts how often the row has been given
    back.  A `Link` names a fence: a row index and a generation.  The driver
    keeps the index only.
  * A `World` is the table and what every thread is in the middle of: each
    `Op` is one section under a row lock.  A merge holds the lock of its own
    row over the sections of the children; a signal drops the lock of the child
    before it visits the parents, and around the synx signal.
  * Ghost: the state each fence ended in (`final`), the children of each group,
    those active at its merge and those whose signal has not reached it yet, and
    the registrations and dispatches of callbacks and payloads.
  * Fence names, monitor data and dma fences take no part and are left out; the
    synx signal itself runs without a lock and is only its window here.
-/
import Mathlib.Algebra.GroupWithZero.Nat
import Mathlib.Data.Int.Notation
import Mathlib.Data.List.Nodup
import Mathlib.Data.Nat.Notation
import Mathlib.Logic.Function.Basic

namespace Sm8850.CamSync

/-! ## Rows -/

/-- `CAM_SYNC_MAX_OBJS` -/
def maxObjs : ℕ := 2048

/-- `enum sync_type` -/
inductive FenceType where
  | indv | group
  deriving DecidableEq

/-- `CAM_SYNC_STATE_*` -/
inductive FenceState where
  | invalid | active | signaledSuccess | signaledError | signaledCancel
  deriving DecidableEq

/-- The three signaled states. -/
def FenceState.signaled : FenceState → Bool
  | .signaledSuccess | .signaledError | .signaledCancel => true
  | _ => false

/-- `ERROR` or `CANCEL` -/
def FenceState.failed : FenceState → Bool
  | .signaledError | .signaledCancel => true
  | _ => false

/-- `struct sync_parent_info` and `struct sync_child_info`: the index of a row.
    Ghost: the generation of the fence that was meant. -/
structure Link where
  syncId : ℕ
  gen : ℕ
  deriving DecidableEq

/-- `struct sync_callback_info`.  Ghost: the number of its registration. -/
structure CallbackInfo where
  func : ℕ
  data : ℕ
  reg : ℕ

/-- `struct sync_user_payload`: the two words of `payload_data`.  Ghost: the
    number of its registration. -/
structure UserPayload where
  words : ℕ × ℕ
  reg : ℕ

/-- `struct sync_table_row`, its spinlock and its bit.  `signaled` is whether
    the completion is done, `synx` the synx bit of `ext_fence_mask`. -/
structure Row where
  type : FenceType
  state : FenceState
  remaining : ℕ
  parentsList : List Link
  childrenList : List Link
  signaled : Bool
  callbackList : List CallbackInfo
  userPayloadList : List UserPayload
  refCnt : ℤ
  synx : Bool
  bit : Bool
  locked : Bool
  gen : ℕ

/-- A row of the table as it is allocated. -/
def Row.zero : Row :=
  { type := .indv, state := .invalid, remaining := 0, parentsList := [], childrenList := [],
    signaled := false, callbackList := [], userPayloadList := [], refCnt := 0, synx := false,
    bit := false, locked := false, gen := 0 }

/-- `remaining--` in `uint32_t` -/
def dec32 (n : ℕ) : ℕ := if n = 0 then 4294967295 else n - 1

/-- `cam_sync_init_row` -/
def camSyncInitRow (row : Row) (type : FenceType) : Row :=
  { row with
    type := type, state := .active, remaining := 0, parentsList := [], childrenList := [],
    signaled := false, callbackList := [], userPayloadList := [], refCnt := 0 }

/-- `cam_sync_deinit_row` and the rest of the last section of
    `cam_sync_deinit_object`. -/
def camSyncDeinitRow (row : Row) : Row :=
  { row with
    type := .indv, state := .invalid, remaining := 0, parentsList := [], childrenList := [],
    signaled := true, callbackList := [], userPayloadList := [], refCnt := 0, synx := false,
    bit := false, gen := row.gen + 1 }

/-- `cam_sync_util_update_parent_state`: the new row, unless the state is
    `INVALID`. -/
def camSyncUtilUpdateParentState (row : Row) (status : FenceState) : Option Row :=
  match row.state with
  | .active | .signaledSuccess => some { row with state := status }
  | .signaledError | .signaledCancel => some row
  | .invalid => none

/-- `cam_sync_util_cleanup_parents_list` and `..._children_list` with
    `SYNC_LIST_CLEAN_ONE`. -/
def cleanupOne (list : List Link) (syncObj : ℕ) : List Link :=
  list.eraseP fun l => l.syncId == syncObj

/-- `cam_sync_signal_validate_util` succeeds. -/
def camSyncSignalValidate (row : Row) (status : FenceState) : Bool :=
  row.state != .invalid && row.type != .group && row.state == .active && status.signaled

/-! ## The world -/

/-- What a thread is in the middle of. -/
inductive Task where
  | idle
  /-- `cam_sync_merge`: the objects still to check -/
  | mergeCheck (objs todo : List ℕ)
  /-- `cam_sync_init_group_object` holds the lock of `idx`; `todo` are the
      children still to visit -/
  | mergeChildren (idx : ℕ) (objs todo : List ℕ)
  /-- `clean_children_info`, still holding the lock of `idx` -/
  | mergeUndo (idx : ℕ) (todo : List ℕ)
  /-- `cam_sync_signal` of `fence` outside the lock, signaling its synx object -/
  | signalSynx (fence : Link) (status : FenceState)
  /-- `cam_sync_signal_parent_util` on behalf of `fence` -/
  | signalParents (fence : Link) (status : FenceState) (parents : List Link)
  /-- `cam_sync_deinit_object` of `idx` between its first and its last section -/
  | destroyLinks (idx : ℕ) (children parents : List Link)
  deriving DecidableEq

/-- A callback or a payload event has been dispatched. -/
structure Dispatch where
  reg : ℕ
  fence : Link
  status : FenceState
  deriving DecidableEq

/-- The kinds of registrations. -/
inductive RegKind where
  | callback | payload
  deriving DecidableEq

/-- An accepted registration on `fence`; `dropped` once it is deregistered. -/
structure Registration where
  kind : RegKind
  fence : Link
  dropped : Bool
  deriving DecidableEq

/-- The driver.  `eventq` is whether an event queue is open. -/
structure World where
  rows : ℕ → Row
  thr : ℕ → Task
  eventq : Bool
  /-- the state each fence completed in -/
  final : Link → Option FenceState
  /-- the children each group was merged from -/
  kids : Link → List Link
  /-- those of them that were active at the merge -/
  actives : Link → List Link
  /-- those of them whose signal has not reached the group -/
  waiting : Link → List Link
  regs : ℕ → Option Registration
  nextReg : ℕ
  log : List Dispatch

/-- The driver after its probe: the first row is reserved. -/
def World.init (eventq : Bool) : World :=
  { rows := fun i => if i = 0 then { Row.zero with bit := true } else Row.zero
    thr := fun _ => .idle, eventq := eventq, final := fun _ => none, kids := fun _ => []
    actives := fun _ => [], waiting := fun _ => [], regs := fun _ => none, nextReg := 0, log := [] }

/-- The fence in a row. -/
def World.self (w : World) (i : ℕ) : Link := ⟨i, (w.rows i).gen⟩

/-- Replace a row. -/
def World.setRow (w : World) (i : ℕ) (row : Row) : World :=
  { w with rows := Function.update w.rows i row }

/-- Let a thread go on with a task. -/
def World.setTask (w : World) (t : ℕ) (task : Task) : World :=
  { w with thr := Function.update w.thr t task }

/-- The fence of a row completes. -/
def World.setFinal (w : World) (i : ℕ) (status : FenceState) : World :=
  { w with final := Function.update w.final (w.self i) (some status) }

/-- `cam_sync_util_dispatch_signaled_cb` -/
def camSyncUtilDispatchSignaledCb (w : World) (i : ℕ) (status : FenceState) : World :=
  let row := w.rows i
  if row.state = .invalid then w
  else
    let callbacks := row.callbackList.map fun cb => Dispatch.mk cb.reg (w.self i) status
    let payloads :=
      if w.eventq then row.userPayloadList.map fun p => Dispatch.mk p.reg (w.self i) status else []
    let row := { row with
      callbackList := []
      userPayloadList := if w.eventq then [] else row.userPayloadList
      signaled := true }
    { w.setRow i row with log := w.log ++ callbacks ++ payloads }

/-- The end of the child's section of `cam_sync_signal`: dispatch, and move the
    parents to a list of the thread. -/
def signalFinish (w : World) (t : ℕ) (fence : Link) (status : FenceState) : World :=
  let w := camSyncUtilDispatchSignaledCb w fence.syncId status
  let row := w.rows fence.syncId
  let parents := row.parentsList
  let w := w.setRow fence.syncId { row with parentsList := [] }
  w.setTask t (if parents = [] then .idle else .signalParents fence status parents)

/-- The child's section of `cam_sync_signal`, up to the synx signal if the fence
    has one. -/
def camSyncSignal (w : World) (t i : ℕ) (status : FenceState) : World :=
  let row := w.rows i
  if !camSyncSignalValidate row status then w
  else
    let row := { row with refCnt := row.refCnt - 1 }
    if row.refCnt ≠ 0 then w.setRow i row
    else
      let fence := w.self i
      let w := (w.setRow i { row with state := status }).setFinal i status
      if row.synx then w.setTask t (.signalSynx fence status)
      else signalFinish w t fence status

/-- One turn of the loop of `cam_sync_signal_parent_util`, for the parent `l`. -/
def signalParent (w : World) (fence : Link) (status : FenceState) (l : Link) : World :=
  let i := l.syncId
  let row := { w.rows i with remaining := dec32 (w.rows i).remaining }
  let w := { w with
    waiting := Function.update w.waiting (w.self i) ((w.waiting (w.self i)).erase fence) }
  match camSyncUtilUpdateParentState row status with
  | none => w.setRow i row
  | some row =>
    let w := w.setRow i row
    if row.remaining = 0 then camSyncUtilDispatchSignaledCb (w.setFinal i row.state) i row.state
    else w

/-- The thread goes on with the parents left. -/
def nextParents (fence : Link) (status : FenceState) (parents : List Link) : Task :=
  if parents = [] then .idle else .signalParents fence status parents

/-- The section of a child in `cam_sync_init_group_object`; `alloc` are the
    results of its two allocations. -/
def mergeChild (w : World) (t idx : ℕ) (objs todo : List ℕ) (c : ℕ) (alloc : Bool × Bool) :
    World :=
  let row := w.rows idx
  let child := w.rows c
  let fail (row : Row) : World :=
    (w.setRow idx { row with state := .invalid }).setTask t
      (.mergeUndo idx (objs.take (objs.length - todo.length - 1)).reverse)
  let merged (w : World) : World :=
    { w with kids := Function.update w.kids (w.self idx) (w.kids (w.self idx) ++ [w.self c]) }
  let next (w : World) : World := (merged w).setTask t (.mergeChildren idx objs todo)
  if child.type = .group ∨ child.state = .invalid then fail row
  else if child.state = .signaledError ∨ child.state = .signaledCancel then
    next (w.setRow idx { row with state := child.state })
  else if child.state ≠ .active then next w
  else
    let row := { row with remaining := row.remaining + 1 }
    if !alloc.1 then fail row
    else
      let row := { row with childrenList := row.childrenList ++ [w.self c] }
      if !alloc.2 then fail row
      else
        let w' := (w.setRow idx row).setRow c
          { child with parentsList := child.parentsList ++ [w.self idx] }
        next { w' with
          actives := Function.update w.actives (w.self idx) (w.actives (w.self idx) ++ [w.self c])
          waiting := Function.update w.waiting (w.self idx) (w.waiting (w.self idx) ++ [w.self c]) }

/-- The end of a merge: the group is complete at once when nothing remains. -/
def mergeEnd (w : World) (t idx : ℕ) : World :=
  let row := { w.rows idx with locked := false }
  let w := w.setTask t .idle
  if row.remaining = 0 then
    let row := if row.state.failed then row else { row with state := .signaledSuccess }
    (w.setRow idx { row with signaled := true }).setFinal idx row.state
  else w.setRow idx row

/-- A registration number for the fence of a row. -/
def World.addReg (w : World) (kind : RegKind) (i : ℕ) : World :=
  { w with
    regs := Function.update w.regs w.nextReg (some ⟨kind, w.self i, false⟩)
    nextReg := w.nextReg + 1 }

/-- `cam_sync_register_callback` on a fence that is not `INVALID` -/
def camSyncRegisterCallback (w : World) (i func data : ℕ) : World :=
  let row := w.rows i
  let w' := w.addReg .callback i
  if row.state.signaled ∧ row.remaining = 0 then
    { w' with log := w.log ++ [⟨w.nextReg, w.self i, row.state⟩] }
  else w'.setRow i { row with callbackList := row.callbackList ++ [⟨func, data, w.nextReg⟩] }

/-- `cam_sync_handle_register_user_payload` on a fence that is not `INVALID` -/
def camSyncHandleRegisterUserPayload (w : World) (i : ℕ) (words : ℕ × ℕ) : World :=
  let row := w.rows i
  let w' := w.addReg .payload i
  if row.state.signaled then
    { w' with log := w.log ++ [⟨w.nextReg, w.self i, row.state⟩] }
  else if row.userPayloadList.any fun p => p.words == words then w
  else w'.setRow i { row with userPayloadList := row.userPayloadList ++ [⟨words, w.nextReg⟩] }

/-- Mark registrations as deregistered. -/
def World.drop (w : World) (dropped : List ℕ) : World :=
  { w with regs := fun r =>
      (w.regs r).map fun reg => if r ∈ dropped then { reg with dropped := true } else reg }

/-- `cam_sync_deregister_callback` on a fence that is not `INVALID` -/
def camSyncDeregisterCallback (w : World) (i func data : ℕ) : World :=
  let row := w.rows i
  let found := row.callbackList.filter fun cb => cb.func == func && cb.data == data
  let row := { row with
    callbackList := row.callbackList.filter fun cb => !(cb.func == func && cb.data == data) }
  (w.setRow i row).drop (found.map CallbackInfo.reg)

/-- `cam_sync_handle_deregister_user_payload` on a fence that is not `INVALID` -/
def camSyncHandleDeregisterUserPayload (w : World) (i : ℕ) (words : ℕ × ℕ) : World :=
  let row := w.rows i
  let found := row.userPayloadList.filter fun p => p.words == words
  let row := { row with userPayloadList := row.userPayloadList.filter fun p => !(p.words == words) }
  (w.setRow i row).drop (found.map UserPayload.reg)

/-! ## Steps -/

/-- The steps: each is a section under a row lock, of the thread `t`. -/
inductive Op where
  /-- `cam_sync_create`, at a free index -/
  | create (i : ℕ) (synx : Bool)
  | mergeStart (t : ℕ) (objs : List ℕ)
  /-- `cam_sync_check_valid` of the next object -/
  | mergeCheck (t : ℕ)
  /-- take a free index, lock and initialise its row -/
  | mergeInit (t i : ℕ)
  | mergeChild (t : ℕ) (alloc : Bool × Bool)
  | mergeEnd (t : ℕ)
  /-- take back the link of one child -/
  | mergeUndo (t : ℕ)
  /-- give the index back and return, without unlocking its row -/
  | mergeFail (t : ℕ)
  | signal (t i : ℕ) (status : FenceState)
  /-- `cam_sync_signal` locks the row again after the synx signal -/
  | signalResume (t : ℕ)
  | signalParent (t : ℕ)
  | destroy (t i : ℕ)
  | destroyChild (t : ℕ)
  | destroyParent (t : ℕ)
  | destroyEnd (t : ℕ)
  | getRef (i : ℕ)
  | putRef (i : ℕ)
  | registerCallback (i func data : ℕ)
  | deregisterCallback (i func data : ℕ)
  | registerPayload (i : ℕ) (words : ℕ × ℕ)
  | deregisterPayload (i : ℕ) (words : ℕ × ℕ)

/-- The row is unlocked and in the table. -/
def World.Open (w : World) (i : ℕ) : Prop :=
  0 < i ∧ i < maxObjs ∧ (w.rows i).locked = false

/-- The index is free to be taken. -/
def World.Free (w : World) (i : ℕ) : Prop := w.Open i ∧ (w.rows i).bit = false

/-- The step can be taken. -/
def Op.Allowed (w : World) : Op → Prop
  | .create i _ => w.Free i
  | .mergeStart t objs => w.thr t = .idle ∧ 1 < objs.length ∧ objs.Nodup
  | .mergeCheck t => ∃ objs c todo,
      w.thr t = .mergeCheck objs (c :: todo) ∧ (0 < c ∧ c < maxObjs → w.Open c)
  | .mergeInit t i => (∃ objs, w.thr t = .mergeCheck objs []) ∧ w.Free i
  | .mergeChild t _ => ∃ idx objs c todo, w.thr t = .mergeChildren idx objs (c :: todo) ∧ w.Open c
  | .mergeEnd t => ∃ idx objs, w.thr t = .mergeChildren idx objs []
  | .mergeUndo t => ∃ idx c todo, w.thr t = .mergeUndo idx (c :: todo) ∧ w.Open c
  | .mergeFail t => ∃ idx, w.thr t = .mergeUndo idx []
  | .signal t i _ => w.thr t = .idle ∧ w.Open i
  | .signalResume t => ∃ fence status, w.thr t = .signalSynx fence status ∧ w.Open fence.syncId
  | .signalParent t => ∃ fence status l parents,
      w.thr t = .signalParents fence status (l :: parents) ∧ w.Open l.syncId
  | .destroy t i => w.thr t = .idle ∧ w.Open i
  | .destroyChild t => ∃ i c children parents,
      w.thr t = .destroyLinks i (c :: children) parents ∧ w.Open c.syncId
  | .destroyParent t => ∃ i p parents, w.thr t = .destroyLinks i [] (p :: parents) ∧ w.Open p.syncId
  | .destroyEnd t => ∃ i, w.thr t = .destroyLinks i [] [] ∧ w.Open i
  | .putRef i => 0 < i ∧ i < maxObjs
  | .getRef i | .registerCallback i _ _ | .deregisterCallback i _ _ | .registerPayload i _
  | .deregisterPayload i _ => w.Open i

/-- The effect of a step. -/
def Op.exec (w : World) : Op → World
  | .create i synx =>
    w.setRow i { camSyncInitRow { w.rows i with bit := true } .indv with synx := synx }
  | .mergeStart t objs => w.setTask t (.mergeCheck objs objs)
  | .mergeCheck t =>
    match w.thr t with
    | .mergeCheck objs (c :: todo) =>
      if 0 < c ∧ c < maxObjs ∧ (w.rows c).bit ∧ (w.rows c).state ≠ .invalid then
        w.setTask t (.mergeCheck objs todo)
      else w.setTask t .idle
    | _ => w
  | .mergeInit t i =>
    match w.thr t with
    | .mergeCheck objs [] =>
      (w.setRow i (camSyncInitRow { w.rows i with bit := true, locked := true } .group)).setTask t
        (.mergeChildren i objs objs)
    | _ => w
  | .mergeChild t alloc =>
    match w.thr t with
    | .mergeChildren idx objs (c :: todo) => CamSync.mergeChild w t idx objs todo c alloc
    | _ => w
  | .mergeEnd t =>
    match w.thr t with
    | .mergeChildren idx _ [] => CamSync.mergeEnd w t idx
    | _ => w
  | .mergeUndo t =>
    match w.thr t with
    | .mergeUndo idx (c :: todo) =>
      let child := w.rows c
      (w.setRow c { child with parentsList := cleanupOne child.parentsList idx }).setTask t
        (.mergeUndo idx todo)
    | _ => w
  | .mergeFail t =>
    match w.thr t with
    | .mergeUndo idx [] =>
      (w.setRow idx { w.rows idx with childrenList := [], bit := false }).setTask t .idle
    | _ => w
  | .signal t i status => camSyncSignal w t i status
  | .signalResume t =>
    match w.thr t with
    | .signalSynx fence status => signalFinish w t fence status
    | _ => w
  | .signalParent t =>
    match w.thr t with
    | .signalParents fence status (l :: parents) =>
      (CamSync.signalParent w fence status l).setTask t (nextParents fence status parents)
    | _ => w
  | .destroy t i =>
    let row := w.rows i
    if row.state = .invalid then w
    else
      (w.setRow i { row with state := .invalid, childrenList := [], parentsList := [] }).setTask t
        (.destroyLinks i row.childrenList row.parentsList)
  | .destroyChild t =>
    match w.thr t with
    | .destroyLinks i (c :: children) parents =>
      let child := w.rows c.syncId
      let w := if child.state = .invalid then w
        else w.setRow c.syncId { child with parentsList := cleanupOne child.parentsList i }
      w.setTask t (.destroyLinks i children parents)
    | _ => w
  | .destroyParent t =>
    match w.thr t with
    | .destroyLinks i [] (p :: parents) =>
      let parent := w.rows p.syncId
      let w := if parent.state = .invalid then w
        else w.setRow p.syncId { parent with childrenList := cleanupOne parent.childrenList i }
      w.setTask t (.destroyLinks i [] parents)
    | _ => w
  | .destroyEnd t =>
    match w.thr t with
    | .destroyLinks i [] [] => (w.setRow i (camSyncDeinitRow (w.rows i))).setTask t .idle
    | _ => w
  | .getRef i =>
    let row := w.rows i
    if row.state = .active then w.setRow i { row with refCnt := row.refCnt + 1 } else w
  | .putRef i => w.setRow i { w.rows i with refCnt := (w.rows i).refCnt - 1 }
  | .registerCallback i func data =>
    if (w.rows i).state = .invalid then w else camSyncRegisterCallback w i func data
  | .deregisterCallback i func data =>
    if (w.rows i).state = .invalid then w else camSyncDeregisterCallback w i func data
  | .registerPayload i words =>
    if (w.rows i).state = .invalid then w else camSyncHandleRegisterUserPayload w i words
  | .deregisterPayload i words =>
    if (w.rows i).state = .invalid then w else camSyncHandleDeregisterUserPayload w i words

/-- Run a list of steps. -/
def execAll (w : World) (ops : List Op) : World := ops.foldl Op.exec w

end Sm8850.CamSync
