/-
  Driver State Management: the transition and operation containers of
  `__wlan_dsc.c`, and the driver, psoc and vdev functions over them
  (`wlan_dsc_driver.c`, `wlan_dsc_psoc.c`, `wlan_dsc_vdev.c`).

  * `DscTree` is the shape of the tree: the psoc list of the driver, the vdev
    list of each psoc and the back pointers `vdev->psoc`; any finite tree is
    one.  A `State` gives each node its `trans` and `ops`.
  * Each public function runs under `driver->lock`, so it is one function
    `State → QdfStatus × State` here (a stop has no status).  `start_wait`
    is its locked part: the wait for `tran.event` follows it, and the event is
    set when a trigger dequeues the waiter.
  * `dsc_assert` reports and goes on, so it leaves no trace.  The debug timers
    always start (`__qdf_timer_init` cannot fail); the debug record of an
    operation may fail to be allocated, which is an argument of `opStart`.
  * Ghost fields record what the code forgets: who holds a transition, what
    was queued and woken, and how many operations started and stopped.
-/
import Mathlib.Order.Antichain
import Mathlib.Data.List.Nodup
import Mathlib.Logic.Function.Basic

namespace Sm8850.Dsc

/-! ## Containers -/

/-- The `QDF_STATUS` values the subsystem returns. -/
inductive QdfStatus where
  | success | eInval | eAgain | eBusy | eNomem
  deriving DecidableEq

/-- `struct dsc_tran`: a pending transition, on the stack of the call that
    waits for it. -/
structure DscTran where
  desc : String
  waiter : ℕ

/-- `struct dsc_trans`.  Ghost: `holders` are the transitions started and not
    yet stopped, `everQueued` and `everWoken` the waiters put into the queue
    and those whose event a trigger set, oldest first. -/
structure DscTrans where
  activeDesc : Option String
  queue : List DscTran
  holders : List String
  everQueued : List DscTran
  everWoken : List DscTran

/-- `struct dsc_ops`: the operations in flight, and whether `event` is set.
    An operation in flight is a call that has not returned, so the 32-bit
    `count` does not wrap and is a natural number here.  Ghost: the numbers of
    operations started and stopped. -/
structure DscOps where
  count : ℕ
  event : Bool
  started : ℕ
  stopped : ℕ

/-- `__dsc_trans_init` -/
def dscTransInit : DscTrans := ⟨none, [], [], [], []⟩

/-- `__dsc_ops_init` -/
def dscOpsInit : DscOps := ⟨0, false, 0, 0⟩

/-- `__dsc_trans_active` -/
def dscTransActive (trans : DscTrans) : Bool := trans.activeDesc.isSome

/-- `__dsc_trans_queued` -/
def dscTransQueued (trans : DscTrans) : Bool := !trans.queue.isEmpty

/-- `__dsc_trans_active_or_queued` -/
def dscTransActiveOrQueued (trans : DscTrans) : Bool :=
  dscTransActive trans || dscTransQueued trans

/-- `__dsc_trans_start`: the assertion that nothing is active does not stop it. -/
def dscTransStart (trans : DscTrans) (desc : String) : DscTrans :=
  { trans with activeDesc := some desc, holders := desc :: trans.holders }

/-- `__dsc_trans_stop` -/
def dscTransStop (trans : DscTrans) : DscTrans :=
  { trans with activeDesc := none, holders := trans.holders.tail }

/-- `__dsc_trans_queue` -/
def dscTransQueue (trans : DscTrans) (tran : DscTran) : DscTrans :=
  { trans with queue := trans.queue ++ [tran], everQueued := trans.everQueued ++ [tran] }

/-- `__dsc_trans_dequeue` -/
def dscTransDequeue (trans : DscTrans) : Option (DscTran × DscTrans) :=
  match trans.queue with
  | [] => none
  | tran :: queue => some (tran, { trans with queue := queue })

/-- `__dsc_trans_trigger`: start the next waiter's transition and set its event. -/
def dscTransTrigger (trans : DscTrans) : Bool × DscTrans :=
  match dscTransDequeue trans with
  | none => (false, trans)
  | some (tran, trans) =>
    let trans := dscTransStart trans tran.desc
    (true, { trans with everWoken := trans.everWoken ++ [tran] })

/-- `__dsc_ops_insert`; `dbgOk` is whether the debug record was allocated. -/
def dscOpsInsert (ops : DscOps) (dbgOk : Bool) : QdfStatus × DscOps :=
  if !dbgOk then (.eNomem, ops)
  else (.success, { ops with count := ops.count + 1, started := ops.started + 1 })

/-- `__dsc_ops_remove`: whether the last operation has gone. -/
def dscOpsRemove (ops : DscOps) : Bool × DscOps :=
  let ops := { ops with count := ops.count - 1, stopped := ops.stopped + 1 }
  (ops.count == 0, ops)

/-! ## The tree -/

/-- A node of the tree: the driver, a psoc or a vdev. -/
inductive Node (P V : Type) where
  | driver
  | psoc (p : P)
  | vdev (v : V)
  deriving DecidableEq

/-- The shape of a DSC tree: `driver->psocs`, `psoc->vdevs` and `vdev->psoc`. -/
structure DscTree (P V : Type) where
  psocs : List P
  vdevs : P → List V
  psocOf : V → P
  psocs_nodup : psocs.Nodup
  vdevs_nodup : ∀ p, (vdevs p).Nodup
  mem_psocs : ∀ p, p ∈ psocs
  mem_vdevs : ∀ v p, v ∈ vdevs p ↔ psocOf v = p

/-- The containers of one node. -/
structure DscNode where
  trans : DscTrans
  ops : DscOps

/-- The containers of every node of the tree. -/
abbrev State (P V : Type) := Node P V → DscNode

/-- The tree as `dsc_driver_create`, `dsc_psoc_create` and `dsc_vdev_create` leave it. -/
def State.init (P V : Type) : State P V := fun _ => ⟨dscTransInit, dscOpsInit⟩

/-- What `qdf_is_recovering` and `qdf_is_driver_unloading` answer to a vdev check. -/
structure Platform where
  recovering : Bool
  unloading : Bool

section
variable {P V : Type} [DecidableEq P] [DecidableEq V]

/-- Replace the transitions of one node. -/
def State.setTrans (s : State P V) (n : Node P V) (trans : DscTrans) : State P V :=
  Function.update s n { s n with trans := trans }

/-- Replace the operations of one node. -/
def State.setOps (s : State P V) (n : Node P V) (ops : DscOps) : State P V :=
  Function.update s n { s n with ops := ops }

/-- `__dsc_trans_trigger(&node->trans)` -/
def State.trigger (s : State P V) (n : Node P V) : Bool × State P V :=
  let r := dscTransTrigger (s n).trans
  (r.1, s.setTrans n r.2)

/-- `__dsc_trans_stop(&node->trans)` -/
def State.stop (s : State P V) (n : Node P V) : State P V :=
  s.setTrans n (dscTransStop (s n).trans)

/-- `__dsc_trans_active(&node->trans)` -/
def State.active (s : State P V) (n : Node P V) : Bool := dscTransActive (s n).trans

/-- `__dsc_trans_queued(&node->trans)` -/
def State.queued (s : State P V) (n : Node P V) : Bool := dscTransQueued (s n).trans

/-- `__dsc_trans_active_or_queued(&node->trans)` -/
def State.activeOrQueued (s : State P V) (n : Node P V) : Bool :=
  dscTransActiveOrQueued (s n).trans

variable (T : DscTree P V)

/-! ## The checks -/

/-- `__dsc_driver_trans_active_down_tree` -/
def dscDriverTransActiveDownTree (s : State P V) : Bool :=
  T.psocs.any fun p => s.active (.psoc p) || (T.vdevs p).any fun v => s.active (.vdev v)

/-- `__dsc_driver_can_trans` -/
def dscDriverCanTrans (s : State P V) : Bool :=
  !s.activeOrQueued .driver && !dscDriverTransActiveDownTree T s

/-- `__dsc_driver_can_trigger` -/
def dscDriverCanTrigger (s : State P V) : Bool :=
  !s.active .driver && !dscDriverTransActiveDownTree T s

/-- `__dsc_psoc_trans_active_down_tree` -/
def dscPsocTransActiveDownTree (s : State P V) (p : P) : Bool :=
  (T.vdevs p).any fun v => s.active (.vdev v)

/-- `__dsc_psoc_can_trans` -/
def dscPsocCanTrans (s : State P V) (p : P) : QdfStatus :=
  if s.activeOrQueued .driver then .eInval
  else if s.activeOrQueued (.psoc p) || dscPsocTransActiveDownTree T s p then .eAgain
  else .success

/-- `__dsc_psoc_can_trigger` -/
def dscPsocCanTrigger (s : State P V) (p : P) : Bool :=
  !s.activeOrQueued .driver && !s.active (.psoc p) && !dscPsocTransActiveDownTree T s p

variable (pl : Platform)

/-- `__dsc_vdev_can_trans` -/
def dscVdevCanTrans (s : State P V) (v : V) : QdfStatus :=
  if s.activeOrQueued .driver then .eInval
  else if pl.recovering then .eInval
  else if s.activeOrQueued (.psoc (T.psocOf v)) then
    if pl.unloading then .eInval else .eBusy
  else if s.activeOrQueued (.vdev v) then .eBusy
  else .success

/-- The check each level makes before a transition or an operation starts. -/
def canTrans (s : State P V) : Node P V → QdfStatus
  | .driver => if dscDriverCanTrans T s then .success else .eAgain
  | .psoc p => dscPsocCanTrans T s p
  | .vdev v => dscVdevCanTrans T pl s v

/-! ## Starting -/

/-- A `trans_start` at `n` whose check answered `can`. -/
def startAt (can : QdfStatus) (s : State P V) (n : Node P V) (desc : String) :
    QdfStatus × State P V :=
  match can with
  | .success => (.success, s.setTrans n (dscTransStart (s n).trans desc))
  | status => (status, s)

/-- The locked part of a `trans_start_wait` at `n` whose check answered `can`;
    `waits` says after which refusals the transition is queued. -/
def startWaitAt (can : QdfStatus) (waits : QdfStatus → Bool) (s : State P V) (n : Node P V)
    (tran : DscTran) : QdfStatus × State P V :=
  let r := startAt can s n tran.desc
  if waits r.1 then (.success, r.2.setTrans n (dscTransQueue (r.2 n).trans tran)) else r

/-- An `op_start` at `n` whose check answered `can`. -/
def opStartAt (can : QdfStatus) (s : State P V) (n : Node P V) (dbgOk : Bool) :
    QdfStatus × State P V :=
  match can with
  | .success =>
    let r := dscOpsInsert (s n).ops dbgOk
    (r.1, s.setOps n r.2)
  | status => (status, s)

/-- `__dsc_driver_trans_start` -/
def dscDriverTransStart (s : State P V) (desc : String) : QdfStatus × State P V :=
  startAt (canTrans T pl s .driver) s .driver desc

/-- `__dsc_psoc_trans_start` -/
def dscPsocTransStart (s : State P V) (p : P) (desc : String) : QdfStatus × State P V :=
  startAt (canTrans T pl s (.psoc p)) s (.psoc p) desc

/-- `__dsc_vdev_trans_start` -/
def dscVdevTransStart (s : State P V) (v : V) (desc : String) : QdfStatus × State P V :=
  startAt (canTrans T pl s (.vdev v)) s (.vdev v) desc

/-- `__dsc_driver_trans_start_wait`: every refusal waits. -/
def dscDriverTransStartWait (s : State P V) (tran : DscTran) : QdfStatus × State P V :=
  startWaitAt (canTrans T pl s .driver) (fun status => status != .success) s .driver tran

/-- `__dsc_psoc_trans_start_wait`: `QDF_STATUS_E_INVAL` is returned at once. -/
def dscPsocTransStartWait (s : State P V) (p : P) (tran : DscTran) : QdfStatus × State P V :=
  startWaitAt (canTrans T pl s (.psoc p)) (fun status => status != .success && status != .eInval)
    s (.psoc p) tran

/-- `__dsc_vdev_trans_start_wait`: `QDF_STATUS_E_INVAL` is returned at once. -/
def dscVdevTransStartWait (s : State P V) (v : V) (tran : DscTran) : QdfStatus × State P V :=
  startWaitAt (canTrans T pl s (.vdev v)) (fun status => status != .success && status != .eInval)
    s (.vdev v) tran

/-- `__dsc_driver_op_start`, `__dsc_psoc_op_start`, `__dsc_vdev_op_start` -/
def opStart (s : State P V) (n : Node P V) (dbgOk : Bool) : QdfStatus × State P V :=
  opStartAt (canTrans T pl s n) s n dbgOk

/-- `__dsc_driver_op_stop`, `__dsc_psoc_op_stop`, `__dsc_vdev_op_stop`: the
    last operation to go sets the event. -/
def opStop (s : State P V) (n : Node P V) : State P V :=
  let r := dscOpsRemove (s n).ops
  s.setOps n (if r.1 then { r.2 with event := true } else r.2)

/-! ## Stopping -/

/-- `dsc_for_each_psoc_vdev(psoc, vdev) __dsc_trans_trigger(&vdev->trans);` -/
def triggerVdevs (s : State P V) (vdevs : List V) : State P V :=
  vdevs.foldl (fun s v => (s.trigger (.vdev v)).2) s

/-- `__dsc_driver_trans_trigger_checked` -/
def dscDriverTransTriggerChecked (s : State P V) : Bool × State P V :=
  if !s.queued .driver then (false, s)
  else if !dscDriverCanTrigger T s then (true, s)
  else s.trigger .driver

/-- `__dsc_psoc_trans_trigger_checked` -/
def dscPsocTransTriggerChecked (s : State P V) (p : P) : Bool × State P V :=
  if !s.queued (.psoc p) then (false, s)
  else if !dscPsocCanTrigger T s p then (true, s)
  else s.trigger (.psoc p)

/-- One turn of the psoc loop of `__dsc_driver_trigger_trans`. -/
def triggerPsoc (s : State P V) (p : P) : State P V :=
  match s.trigger (.psoc p) with
  | (true, s) => s
  | (false, s) => triggerVdevs s (T.vdevs p)

/-- `__dsc_driver_trigger_trans` -/
def dscDriverTriggerTrans (s : State P V) : State P V :=
  match s.trigger .driver with
  | (true, s) => s
  | (false, s) => T.psocs.foldl (triggerPsoc T) s

/-- `__dsc_psoc_trigger_trans` -/
def dscPsocTriggerTrans (s : State P V) (p : P) : State P V :=
  match dscDriverTransTriggerChecked T s with
  | (true, s) => s
  | (false, s) => triggerPsoc T s p

/-- `__dsc_vdev_trigger_trans` -/
def dscVdevTriggerTrans (s : State P V) (v : V) : State P V :=
  match dscDriverTransTriggerChecked T s with
  | (true, s) => s
  | (false, s) =>
    match dscPsocTransTriggerChecked T s (T.psocOf v) with
    | (true, s) => s
    | (false, s) => (s.trigger (.vdev v)).2

/-- `__dsc_driver_trans_stop` -/
def dscDriverTransStop (s : State P V) : State P V :=
  dscDriverTriggerTrans T (s.stop .driver)

/-- `__dsc_psoc_trans_stop`: it ends the driver's transition when the psoc has none. -/
def dscPsocTransStop (s : State P V) (p : P) : State P V :=
  dscPsocTriggerTrans T (s.stop (if s.active (.psoc p) then .psoc p else .driver)) p

/-- `__dsc_vdev_trans_stop` -/
def dscVdevTransStop (s : State P V) (v : V) : State P V :=
  dscVdevTriggerTrans T (s.stop (.vdev v)) v

/-! ## Waiting for operations -/

/-- The nodes whose operations `__dsc_vdev_wait_for_ops` waits for. -/
def dscVdevWaitForOps (v : V) : List (Node P V) := [.vdev v]

/-- The nodes whose operations `__dsc_psoc_wait_for_ops` waits for, in order. -/
def dscPsocWaitForOps (p : P) : List (Node P V) :=
  .psoc p :: (T.vdevs p).flatMap dscVdevWaitForOps

/-- The nodes whose operations `__dsc_driver_wait_for_ops` waits for, in order. -/
def dscDriverWaitForOps : List (Node P V) :=
  .driver :: T.psocs.flatMap (dscPsocWaitForOps T)

/-- The nodes whose operations `__dsc_vdev_wait_for_uptree_ops` waits for, in order. -/
def dscVdevWaitForUptreeOps (v : V) : List (Node P V) := [.psoc (T.psocOf v), .driver]

/-- The locked look of a wait at `n`: it resets the event when operations are
    in flight, and then sleeps until the event is set. -/
def waitLook (s : State P V) (n : Node P V) : Bool × State P V :=
  if 0 < (s n).ops.count then (true, s.setOps n { (s n).ops with event := false })
  else (false, s)

end

end Sm8850.Dsc
