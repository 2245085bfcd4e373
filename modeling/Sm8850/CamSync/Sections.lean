/-
  What the sections of the camera sync driver do to its world.

  * `ReachableUnder` are the worlds that runs reach whose steps all meet a
    condition; `Op.Current` is the condition on a section that it meets the fence
    it means.
  * One lemma for each part of each function with several outcomes: the
    dispatch of callbacks, the visit of a parent, the section of a child in a
    merge (`mergeChild_cases`) and the end of a merge.
-/
import Mathlib.Tactic.Common
import Sm8850.CamSync.Table

namespace Sm8850.CamSync

variable {w w' : World} {t t' i c idx : ℕ} {k l : Link} {row : Row} {status : FenceState}

/-! ## Runs -/

/-- The section meets the fence it means: a parent is locked before its row is
    given back, and after the synx signal the row is locked before another fence
    has it. -/
def Op.Current (w : World) : Op → Prop
  | .signalResume t =>
    match w.thr t with
    | .signalSynx fence _ =>
      (w.rows fence.syncId).gen = fence.gen ∨ (w.rows fence.syncId).state = .invalid
    | _ => True
  | .signalParent t =>
    match w.thr t with
    | .signalParents _ _ (l :: _) => (w.rows l.syncId).gen = l.gen
    | _ => True
  | _ => True

/-- The worlds that runs reach all whose steps meet `C`. -/
inductive ReachableUnder (C : World → Op → Prop) (eventq : Bool) : World → Prop
  | init : ReachableUnder C eventq (World.init eventq)
  | step {w : World} (h : ReachableUnder C eventq w) (op : Op) (ha : op.Allowed w) (hc : C w op) :
      ReachableUnder C eventq (op.exec w)

/-- The steps can be taken in this order, and each meets `C`. -/
def AllAllowed (C : World → Op → Prop) : World → List Op → Prop
  | _, [] => True
  | w, op :: ops => (op.Allowed w ∧ C w op) ∧ AllAllowed C (op.exec w) ops

theorem ReachableUnder.execAll {C : World → Op → Prop} {eventq : Bool} {ops : List Op}
    (h : ReachableUnder C eventq w) (hops : AllAllowed C w ops) :
    ReachableUnder C eventq (execAll w ops) := by
  induction ops generalizing w with
  | nil => exact h
  | cons op ops ih => exact ih (h.step op hops.1.1 hops.1.2) hops.2

instance (w : World) (i : ℕ) : Decidable (w.Open i) :=
  inferInstanceAs (Decidable (_ ∧ _ ∧ _))

instance (w : World) (i : ℕ) : Decidable (w.Free i) := inferInstanceAs (Decidable (_ ∧ _))

instance (w : World) (op : Op) : Decidable (op.Allowed w) :=
  match op with
  | .create i _ => inferInstanceAs (Decidable (w.Free i))
  | .mergeStart t objs =>
    inferInstanceAs (Decidable (w.thr t = .idle ∧ 1 < objs.length ∧ objs.Nodup))
  | .mergeCheck t =>
    match ht : w.thr t with
    | .mergeCheck objs (c :: todo) =>
      decidable_of_iff (0 < c ∧ c < maxObjs → w.Open c) (by simp [Op.Allowed, ht])
    | .mergeCheck _ [] | .idle | .mergeChildren .. | .mergeUndo .. | .signalSynx ..
    | .signalParents .. | .destroyLinks .. => isFalse (by simp [Op.Allowed, ht])
  | .mergeInit t i =>
    match ht : w.thr t with
    | .mergeCheck objs [] => decidable_of_iff (w.Free i) (by simp [Op.Allowed, ht])
    | .mergeCheck _ (_ :: _) | .idle | .mergeChildren .. | .mergeUndo .. | .signalSynx ..
    | .signalParents .. | .destroyLinks .. => isFalse (by simp [Op.Allowed, ht])
  | .mergeChild t _ =>
    match ht : w.thr t with
    | .mergeChildren _ _ (c :: _) => decidable_of_iff (w.Open c) (by simp [Op.Allowed, ht])
    | .mergeChildren _ _ [] | .idle | .mergeCheck .. | .mergeUndo .. | .signalSynx ..
    | .signalParents .. | .destroyLinks .. => isFalse (by simp [Op.Allowed, ht])
  | .mergeEnd t =>
    match ht : w.thr t with
    | .mergeChildren _ _ [] => isTrue (by simp [Op.Allowed, ht])
    | .mergeChildren _ _ (_ :: _) | .idle | .mergeCheck .. | .mergeUndo .. | .signalSynx ..
    | .signalParents .. | .destroyLinks .. => isFalse (by simp [Op.Allowed, ht])
  | .mergeUndo t =>
    match ht : w.thr t with
    | .mergeUndo _ (c :: _) => decidable_of_iff (w.Open c) (by simp [Op.Allowed, ht])
    | .mergeUndo _ [] | .idle | .mergeCheck .. | .mergeChildren .. | .signalSynx ..
    | .signalParents .. | .destroyLinks .. => isFalse (by simp [Op.Allowed, ht])
  | .mergeFail t =>
    match ht : w.thr t with
    | .mergeUndo _ [] => isTrue (by simp [Op.Allowed, ht])
    | .mergeUndo _ (_ :: _) | .idle | .mergeCheck .. | .mergeChildren .. | .signalSynx ..
    | .signalParents .. | .destroyLinks .. => isFalse (by simp [Op.Allowed, ht])
  | .signal t i _ => inferInstanceAs (Decidable (w.thr t = .idle ∧ w.Open i))
  | .signalResume t =>
    match ht : w.thr t with
    | .signalSynx fence _ => decidable_of_iff (w.Open fence.syncId) (by simp [Op.Allowed, ht])
    | .idle | .mergeCheck .. | .mergeChildren .. | .mergeUndo .. | .signalParents ..
    | .destroyLinks .. => isFalse (by simp [Op.Allowed, ht])
  | .signalParent t =>
    match ht : w.thr t with
    | .signalParents _ _ (l :: _) => decidable_of_iff (w.Open l.syncId) (by simp [Op.Allowed, ht])
    | .signalParents _ _ [] | .idle | .mergeCheck .. | .mergeChildren .. | .mergeUndo ..
    | .signalSynx .. | .destroyLinks .. => isFalse (by simp [Op.Allowed, ht])
  | .destroy t i => inferInstanceAs (Decidable (w.thr t = .idle ∧ w.Open i))
  | .destroyChild t =>
    match ht : w.thr t with
    | .destroyLinks _ (c :: _) _ => decidable_of_iff (w.Open c.syncId) (by simp [Op.Allowed, ht])
    | .destroyLinks _ [] _ | .idle | .mergeCheck .. | .mergeChildren .. | .mergeUndo ..
    | .signalSynx .. | .signalParents .. => isFalse (by simp [Op.Allowed, ht])
  | .destroyParent t =>
    match ht : w.thr t with
    | .destroyLinks _ [] (p :: _) => decidable_of_iff (w.Open p.syncId) (by simp [Op.Allowed, ht])
    | .destroyLinks _ [] [] | .destroyLinks _ (_ :: _) _ | .idle | .mergeCheck ..
    | .mergeChildren .. | .mergeUndo .. | .signalSynx .. | .signalParents .. =>
      isFalse (by simp [Op.Allowed, ht])
  | .destroyEnd t =>
    match ht : w.thr t with
    | .destroyLinks i [] [] => decidable_of_iff (w.Open i) (by simp [Op.Allowed, ht])
    | .destroyLinks _ [] (_ :: _) | .destroyLinks _ (_ :: _) _ | .idle | .mergeCheck ..
    | .mergeChildren .. | .mergeUndo .. | .signalSynx .. | .signalParents .. =>
      isFalse (by simp [Op.Allowed, ht])
  | .putRef i => inferInstanceAs (Decidable (0 < i ∧ i < maxObjs))
  | .getRef i | .registerCallback i _ _ | .deregisterCallback i _ _ | .registerPayload i _
  | .deregisterPayload i _ => inferInstanceAs (Decidable (w.Open i))

instance (w : World) (op : Op) : Decidable (op.Current w) :=
  match op with
  | .signalResume t =>
    match ht : w.thr t with
    | .signalSynx fence _ =>
      decidable_of_iff ((w.rows fence.syncId).gen = fence.gen ∨
        (w.rows fence.syncId).state = .invalid) (by simp [Op.Current, ht])
    | .idle | .mergeCheck .. | .mergeChildren .. | .mergeUndo .. | .signalParents ..
    | .destroyLinks .. => isTrue (by simp [Op.Current, ht])
  | .signalParent t =>
    match ht : w.thr t with
    | .signalParents _ _ (l :: _) =>
      decidable_of_iff ((w.rows l.syncId).gen = l.gen) (by simp [Op.Current, ht])
    | .signalParents _ _ [] | .idle | .mergeCheck .. | .mergeChildren .. | .mergeUndo ..
    | .signalSynx .. | .destroyLinks .. => isTrue (by simp [Op.Current, ht])
  | .create .. | .mergeStart .. | .mergeCheck _ | .mergeInit .. | .mergeChild .. | .mergeEnd _
  | .mergeUndo _ | .mergeFail _ | .signal .. | .destroy .. | .destroyChild _ | .destroyParent _
  | .destroyEnd _ | .getRef _ | .putRef _ | .registerCallback .. | .deregisterCallback ..
  | .registerPayload .. | .deregisterPayload .. => isTrue trivial

/-! ## The parts of a world -/

section
variable (w t i row status)

@[simp] theorem World.setRow_frame :
    (w.setRow i row).rows = Function.update w.rows i row ∧ (w.setRow i row).thr = w.thr ∧
    (w.setRow i row).eventq = w.eventq ∧ (w.setRow i row).final = w.final ∧
    (w.setRow i row).kids = w.kids ∧ (w.setRow i row).actives = w.actives ∧
    (w.setRow i row).waiting = w.waiting ∧ (w.setRow i row).regs = w.regs ∧
    (w.setRow i row).nextReg = w.nextReg ∧ (w.setRow i row).log = w.log :=
  ⟨rfl, rfl, rfl, rfl, rfl, rfl, rfl, rfl, rfl, rfl⟩

@[simp] theorem World.setTask_frame (task : Task) :
    (w.setTask t task).rows = w.rows ∧ (w.setTask t task).thr = Function.update w.thr t task ∧
    (w.setTask t task).eventq = w.eventq ∧ (w.setTask t task).final = w.final ∧
    (w.setTask t task).kids = w.kids ∧ (w.setTask t task).actives = w.actives ∧
    (w.setTask t task).waiting = w.waiting ∧ (w.setTask t task).regs = w.regs ∧
    (w.setTask t task).nextReg = w.nextReg ∧ (w.setTask t task).log = w.log :=
  ⟨rfl, rfl, rfl, rfl, rfl, rfl, rfl, rfl, rfl, rfl⟩

@[simp] theorem World.setFinal_frame :
    (w.setFinal i status).rows = w.rows ∧ (w.setFinal i status).thr = w.thr ∧
    (w.setFinal i status).eventq = w.eventq ∧
    (w.setFinal i status).final = Function.update w.final (w.self i) (some status) ∧
    (w.setFinal i status).kids = w.kids ∧ (w.setFinal i status).actives = w.actives ∧
    (w.setFinal i status).waiting = w.waiting ∧ (w.setFinal i status).regs = w.regs ∧
    (w.setFinal i status).nextReg = w.nextReg ∧ (w.setFinal i status).log = w.log :=
  ⟨rfl, rfl, rfl, rfl, rfl, rfl, rfl, rfl, rfl, rfl⟩

end

@[simp, grind =] theorem World.self_syncId (w : World) (i : ℕ) : (w.self i).syncId = i := rfl

@[simp, grind =] theorem World.self_gen (w : World) (i : ℕ) : (w.self i).gen = (w.rows i).gen := rfl

@[simp, grind =] theorem World.self_inj (w : World) (i j : ℕ) : w.self i = w.self j ↔ i = j :=
  ⟨congrArg Link.syncId, congrArg w.self⟩

theorem World.self_eq (w : World) (h : l.gen = (w.rows l.syncId).gen) : w.self l.syncId = l := by
  cases l; simp [World.self, ← h]

theorem FenceState.signaled_iff {s : FenceState} :
    s.signaled = true ↔ s ≠ .invalid ∧ s ≠ .active := by
  cases s <;> simp [FenceState.signaled]

theorem FenceState.eq_success {s : FenceState} (hi : s ≠ .invalid) (ha : s ≠ .active)
    (hf : s.failed = false) : s = .signaledSuccess := by
  cases s <;> simp_all [FenceState.failed]

/-- The fence a thread is signaling. -/
def Task.owner : Task → Option Link
  | .signalSynx fence _ | .signalParents fence _ _ => some fence
  | _ => none

/-- The status a thread is signaling. -/
def Task.carries : Task → Option FenceState
  | .signalSynx _ status | .signalParents _ status _ => some status
  | _ => none

/-- The group a thread is merging. -/
def Task.merger : Task → Option ℕ
  | .mergeChildren idx _ _ | .mergeUndo idx _ => some idx
  | _ => none

/-! ## Dispatching callbacks -/

/-- The row after a dispatch. -/
def dispatched (eventq : Bool) (row : Row) : Row :=
  if row.state = .invalid then row
  else { row with
    callbackList := [], userPayloadList := if eventq then [] else row.userPayloadList
    signaled := true }

/-- The callbacks and payload events of a dispatch. -/
def dispatches (eventq : Bool) (row : Row) (fence : Link) (status : FenceState) : List Dispatch :=
  row.callbackList.map (fun cb => ⟨cb.reg, fence, status⟩) ++
    if eventq then row.userPayloadList.map (fun p => ⟨p.reg, fence, status⟩) else []

section
variable (eventq : Bool) (row : Row)

@[simp] theorem dispatched_frame :
    (dispatched eventq row).type = row.type ∧
    (dispatched eventq row).state = row.state ∧
    (dispatched eventq row).remaining = row.remaining ∧
    (dispatched eventq row).parentsList = row.parentsList ∧
    (dispatched eventq row).bit = row.bit ∧
    (dispatched eventq row).locked = row.locked ∧
    (dispatched eventq row).gen = row.gen := by
  rw [dispatched]
  split <;> exact ⟨rfl, rfl, rfl, rfl, rfl, rfl, rfl⟩

end

section
variable (w i status)

theorem dispatch_row : (camSyncUtilDispatchSignaledCb w i status).rows i =
    dispatched w.eventq (w.rows i) := by
  rw [camSyncUtilDispatchSignaledCb, dispatched]
  split
  · rfl
  · exact Function.update_self ..

theorem dispatch_row_ne {j : ℕ} (hj : j ≠ i) :
    (camSyncUtilDispatchSignaledCb w i status).rows j = w.rows j := by
  rw [camSyncUtilDispatchSignaledCb]
  split
  · rfl
  · exact Function.update_of_ne hj ..

@[simp] theorem dispatch_frame :
    (camSyncUtilDispatchSignaledCb w i status).thr = w.thr ∧
    (camSyncUtilDispatchSignaledCb w i status).eventq = w.eventq ∧
    (camSyncUtilDispatchSignaledCb w i status).final = w.final ∧
    (camSyncUtilDispatchSignaledCb w i status).kids = w.kids ∧
    (camSyncUtilDispatchSignaledCb w i status).actives = w.actives ∧
    (camSyncUtilDispatchSignaledCb w i status).waiting = w.waiting ∧
    (camSyncUtilDispatchSignaledCb w i status).regs = w.regs ∧
    (camSyncUtilDispatchSignaledCb w i status).nextReg = w.nextReg := by
  rw [camSyncUtilDispatchSignaledCb]
  split <;> exact ⟨rfl, rfl, rfl, rfl, rfl, rfl, rfl, rfl⟩

theorem dispatch_log : (camSyncUtilDispatchSignaledCb w i status).log =
    if (w.rows i).state = .invalid then w.log
    else w.log ++ dispatches w.eventq (w.rows i) (w.self i) status := by
  rw [camSyncUtilDispatchSignaledCb]
  split
  · rfl
  · simp [dispatches]

@[simp] theorem dispatch_setTask (task : Task) :
    camSyncUtilDispatchSignaledCb (w.setTask t task) i status =
      (camSyncUtilDispatchSignaledCb w i status).setTask t task := by
  by_cases hi : (w.rows i).state = .invalid
  · exact (if_pos hi).trans (by rw [camSyncUtilDispatchSignaledCb, if_pos hi])
  · exact (if_neg hi).trans (by rw [camSyncUtilDispatchSignaledCb, if_neg hi]; rfl)

end

theorem signalFinish_setTask (w : World) (t : ℕ) (fence : Link) (status : FenceState)
    (task : Task) :
    signalFinish (w.setTask t task) t fence status = signalFinish w t fence status := by
  rw [signalFinish, dispatch_setTask]
  simp [signalFinish, World.setTask, World.setRow]

/-! ## The child's section -/

section
variable (w : World) (t : ℕ) (fence : Link) (status : FenceState)

theorem signalFinish_row : (signalFinish w t fence status).rows fence.syncId =
    { dispatched w.eventq (w.rows fence.syncId) with parentsList := [] } := by
  simp [signalFinish, dispatch_row]

theorem signalFinish_row_ne {j : ℕ} (hj : j ≠ fence.syncId) :
    (signalFinish w t fence status).rows j = w.rows j := by
  simp [signalFinish, hj, dispatch_row_ne]

theorem signalFinish_thr : (signalFinish w t fence status).thr =
    Function.update w.thr t (nextParents fence status (w.rows fence.syncId).parentsList) := by
  simp [signalFinish, nextParents, dispatch_row]

@[simp] theorem signalFinish_frame :
    (signalFinish w t fence status).eventq = w.eventq ∧
    (signalFinish w t fence status).final = w.final ∧
    (signalFinish w t fence status).kids = w.kids ∧
    (signalFinish w t fence status).actives = w.actives ∧
    (signalFinish w t fence status).waiting = w.waiting ∧
    (signalFinish w t fence status).regs = w.regs ∧
    (signalFinish w t fence status).nextReg = w.nextReg := by
  simp [signalFinish]

theorem signalFinish_log : (signalFinish w t fence status).log =
    if (w.rows fence.syncId).state = .invalid then w.log
    else w.log ++ dispatches w.eventq (w.rows fence.syncId) (w.self fence.syncId) status := by
  simp [signalFinish, dispatch_log]

end

/-- The child has its status, and the thread is outside the lock. -/
def marked (w : World) (t i : ℕ) (status : FenceState) : World :=
  ((w.setRow i { w.rows i with state := status, refCnt := (w.rows i).refCnt - 1 }).setFinal i
    status).setTask t (.signalSynx (w.self i) status)

/-- A signal is refused, takes a reference, or marks the child and goes on. -/
theorem camSyncSignal_cases (w : World) (t i : ℕ) (status : FenceState) :
    camSyncSignal w t i status = w ∨
    camSyncSignal w t i status =
      w.setRow i { w.rows i with refCnt := (w.rows i).refCnt - 1 } ∨
    ((w.rows i).state = .active ∧ (w.rows i).type ≠ .group ∧ status.signaled = true ∧
      (camSyncSignal w t i status = marked w t i status ∨
        camSyncSignal w t i status = signalFinish (marked w t i status) t (w.self i) status)) := by
  by_cases hv : (!camSyncSignalValidate (w.rows i) status) = true
  · exact .inl (if_pos hv)
  have hv' : ((¬(w.rows i).state = .invalid ∧ ¬(w.rows i).type = .group) ∧
      (w.rows i).state = .active) ∧ status.signaled = true := by
    simpa [camSyncSignalValidate] using hv
  by_cases hr : (w.rows i).refCnt - 1 ≠ 0
  · exact .inr (.inl (by rw [camSyncSignal, if_neg hv, if_pos hr]))
  refine .inr (.inr ⟨hv'.1.2, hv'.1.1.2, hv'.2, ?_⟩)
  rw [camSyncSignal, if_neg hv, if_neg hr]
  by_cases hs : (w.rows i).synx = true
  · exact .inl (if_pos hs)
  · exact .inr ((if_neg hs).trans (signalFinish_setTask ..).symm)

/-! ## Visiting a parent -/

theorem dec32_add_one {n : ℕ} (hn : 0 < n) : dec32 n + 1 = n := by
  rw [dec32, if_neg (by omega)]
  omega

/-- The state of a parent after `cam_sync_util_update_parent_state`. -/
def parentState (state status : FenceState) : FenceState :=
  if state = .invalid ∨ state.failed = true then state else status

/-- The row of a parent after a visit. -/
def visited (eventq : Bool) (status : FenceState) (row : Row) : Row :=
  let row := { row with remaining := dec32 row.remaining, state := parentState row.state status }
  if row.remaining = 0 then dispatched eventq row else row

section
variable (eventq : Bool) (status : FenceState) (row : Row)

@[simp] theorem visited_frame :
    (visited eventq status row).type = row.type ∧
    (visited eventq status row).state = parentState row.state status ∧
    (visited eventq status row).remaining = dec32 row.remaining ∧
    (visited eventq status row).parentsList = row.parentsList ∧
    (visited eventq status row).bit = row.bit ∧
    (visited eventq status row).locked = row.locked ∧
    (visited eventq status row).gen = row.gen := by
  rw [visited]
  simp only []
  split <;> simp

end

theorem camSyncUtilUpdateParentState_eq (row : Row) (status : FenceState) :
    camSyncUtilUpdateParentState row status =
      if row.state = .invalid then none
      else some { row with state := parentState row.state status } := by
  cases hs : row.state <;> simp [camSyncUtilUpdateParentState, parentState, FenceState.failed, hs]
  all_goals rw [← hs]

section
variable (w : World) (fence : Link) (status : FenceState) (l : Link)

theorem signalParent_row : (signalParent w fence status l).rows l.syncId =
    visited w.eventq status (w.rows l.syncId) := by
  simp only [signalParent, camSyncUtilUpdateParentState_eq, visited]
  by_cases hs : (w.rows l.syncId).state = .invalid
  · simp [hs, parentState, dispatched]
  · simp only [if_neg hs]
    split
    · rw [dispatch_row]; simp
    · simp

theorem signalParent_log : (signalParent w fence status l).log =
    if parentState (w.rows l.syncId).state status ≠ .invalid ∧
        dec32 (w.rows l.syncId).remaining = 0 then
      w.log ++ dispatches w.eventq (w.rows l.syncId) (w.self l.syncId)
        (parentState (w.rows l.syncId).state status)
    else w.log := by
  simp only [signalParent, camSyncUtilUpdateParentState_eq]
  by_cases hs : (w.rows l.syncId).state = .invalid
  · simp [hs, parentState]
  · by_cases hr : dec32 (w.rows l.syncId).remaining = 0
    · rw [if_neg hs]
      simp only [hr, if_true, and_true]
      rw [dispatch_log]
      by_cases hp : parentState (w.rows l.syncId).state status = .invalid
      · simp [hp]
      · simp [hp, dispatches, World.self]
    · simp [hs, hr]

theorem signalParent_row_ne {j : ℕ} (hj : j ≠ l.syncId) :
    (signalParent w fence status l).rows j = w.rows j := by
  simp only [signalParent, camSyncUtilUpdateParentState_eq]
  by_cases hs : (w.rows l.syncId).state = .invalid
  · simp [if_pos hs, hj]
  · simp only [if_neg hs]
    split
    · rw [dispatch_row_ne _ _ _ hj]; simp [hj]
    · simp [hj]

@[simp] theorem signalParent_frame :
    (signalParent w fence status l).thr = w.thr ∧
    (signalParent w fence status l).eventq = w.eventq ∧
    (signalParent w fence status l).kids = w.kids ∧
    (signalParent w fence status l).actives = w.actives ∧
    (signalParent w fence status l).regs = w.regs ∧
    (signalParent w fence status l).nextReg = w.nextReg := by
  simp only [signalParent, camSyncUtilUpdateParentState_eq]
  by_cases hs : (w.rows l.syncId).state = .invalid
  · simp [if_pos hs]
  · simp only [if_neg hs]
    split <;> simp

@[simp] theorem signalParent_waiting : (signalParent w fence status l).waiting =
    Function.update w.waiting (w.self l.syncId) ((w.waiting (w.self l.syncId)).erase fence) := by
  simp only [signalParent, camSyncUtilUpdateParentState_eq]
  by_cases hs : (w.rows l.syncId).state = .invalid
  · simp [if_pos hs]
  · simp only [if_neg hs]
    split <;> simp

theorem signalParent_final : (signalParent w fence status l).final =
    if (w.rows l.syncId).state ≠ .invalid ∧ dec32 (w.rows l.syncId).remaining = 0 then
      Function.update w.final (w.self l.syncId)
        (some (parentState (w.rows l.syncId).state status))
    else w.final := by
  simp only [signalParent, camSyncUtilUpdateParentState_eq]
  by_cases hs : (w.rows l.syncId).state = .invalid
  · simp [hs]
  · by_cases hr : dec32 (w.rows l.syncId).remaining = 0
    · simp [hs, hr, World.self]
    · simp [hs, hr]

end

/-! ## Sections of a merge -/

/-- The registrations, the log and the states that fences have ended in are left
    alone. -/
structure SameBooks (w w' : World) : Prop where
  final : ∀ l, w'.final l = w.final l
  regs : w'.regs = w.regs
  nextReg : w'.nextReg = w.nextReg
  log : w'.log = w.log

/-- The section of a child fails the merge. -/
structure MergeFails (w w' : World) (t idx : ℕ) : Prop extends SameBooks w w' where
  row : ∃ remaining children, w'.rows idx = { w.rows idx with
    state := .invalid, remaining := remaining, childrenList := children }
  rows : ∀ j, j ≠ idx → w'.rows j = w.rows j
  thr : ∃ done, w'.thr t = .mergeUndo idx done
  thr_ne : ∀ t', t' ≠ t → w'.thr t' = w.thr t'
  waiting : ∀ l, w'.waiting l = w.waiting l
  actives : ∀ l, w'.actives l = w.actives l
  kids : ∀ l, w'.kids l = w.kids l

/-- The child was signaled before and is only looked at. -/
structure MergeSees (w w' : World) (t idx : ℕ) (objs todo : List ℕ) (c : ℕ) : Prop
    extends SameBooks w w' where
  child : (w.rows c).state.signaled = true
  type : (w.rows c).type ≠ .group
  row : w'.rows idx = { w.rows idx with
    state := if (w.rows c).state.failed then (w.rows c).state else (w.rows idx).state }
  rows : ∀ j, j ≠ idx → w'.rows j = w.rows j
  thr : w'.thr t = .mergeChildren idx objs todo
  thr_ne : ∀ t', t' ≠ t → w'.thr t' = w.thr t'
  waiting : ∀ l, w'.waiting l = w.waiting l
  actives : ∀ l, w'.actives l = w.actives l
  idxKids : w'.kids (w.self idx) = w.kids (w.self idx) ++ [w.self c]
  kids : ∀ l, l ≠ w.self idx → w'.kids l = w.kids l

/-- The child is linked to the group, which waits for it. -/
structure MergeLinks (w w' : World) (t idx : ℕ) (objs todo : List ℕ) (c : ℕ) : Prop
    extends SameBooks w w' where
  child : (w.rows c).state = .active
  type : (w.rows c).type ≠ .group
  row : ∃ children, w'.rows idx = { w.rows idx with
    remaining := (w.rows idx).remaining + 1, childrenList := children }
  childRow : w'.rows c =
    { w.rows c with parentsList := (w.rows c).parentsList ++ [w.self idx] }
  rows : ∀ j, j ≠ idx → j ≠ c → w'.rows j = w.rows j
  thr : w'.thr t = .mergeChildren idx objs todo
  thr_ne : ∀ t', t' ≠ t → w'.thr t' = w.thr t'
  idxWaiting : w'.waiting (w.self idx) = w.waiting (w.self idx) ++ [w.self c]
  waiting : ∀ l, l ≠ w.self idx → w'.waiting l = w.waiting l
  idxActives : w'.actives (w.self idx) = w.actives (w.self idx) ++ [w.self c]
  actives : ∀ l, l ≠ w.self idx → w'.actives l = w.actives l
  idxKids : w'.kids (w.self idx) = w.kids (w.self idx) ++ [w.self c]
  kids : ∀ l, l ≠ w.self idx → w'.kids l = w.kids l

theorem mergeFails (hr : ∃ remaining children, row = { w.rows idx with
    state := .invalid, remaining := remaining, childrenList := children }) (done : List ℕ) :
    MergeFails w ((w.setRow idx row).setTask t (.mergeUndo idx done)) t idx where
  final _ := rfl
  regs := rfl
  nextReg := rfl
  log := rfl
  row := by simpa using hr
  rows j hj := by simp [hj]
  thr := ⟨done, by simp⟩
  thr_ne t' ht := by simp [ht]
  waiting _ := rfl
  actives _ := rfl
  kids _ := rfl

/-- What the section of a child does. -/
theorem mergeChild_cases (w : World) (t : ℕ) (hne : c ≠ idx) (objs todo : List ℕ)
    (alloc : Bool × Bool) :
    MergeFails w (mergeChild w t idx objs todo c alloc) t idx ∨
    MergeSees w (mergeChild w t idx objs todo c alloc) t idx objs todo c ∨
    MergeLinks w (mergeChild w t idx objs todo c alloc) t idx objs todo c := by
  by_cases h1 : (w.rows c).type = .group ∨ (w.rows c).state = .invalid
  · refine .inl ?_
    rw [CamSync.mergeChild, if_pos h1]
    exact mergeFails ⟨_, _, rfl⟩ _
  have htype : (w.rows c).type ≠ .group := fun he => h1 (.inl he)
  by_cases h2 : (w.rows c).state = .signaledError ∨ (w.rows c).state = .signaledCancel
  · refine .inr (.inl ?_)
    rw [CamSync.mergeChild, if_neg h1, if_pos h2]
    have hf : (w.rows c).state.failed = true := by rcases h2 with h2 | h2 <;> rw [h2] <;> rfl
    have hs : (w.rows c).state.signaled = true := by rcases h2 with h2 | h2 <;> rw [h2] <;> rfl
    exact ⟨⟨fun _ => rfl, rfl, rfl, rfl⟩, hs, htype, by simp [hf], fun j hj => by simp [hj],
      by simp, fun t' ht => by simp [ht], fun _ => rfl, fun _ => rfl, by simp [World.self, hne],
      fun l hl => by simp [World.self] at hl ⊢; simp [hl]⟩
  by_cases h3 : (w.rows c).state ≠ .active
  · refine .inr (.inl ?_)
    rw [CamSync.mergeChild, if_neg h1, if_neg h2, if_pos h3]
    have hs : (w.rows c).state.signaled = true ∧ (w.rows c).state.failed = false := by
      cases he : (w.rows c).state <;> simp_all [FenceState.signaled, FenceState.failed]
    exact ⟨⟨fun _ => rfl, rfl, rfl, rfl⟩, hs.1, htype, by simp [hs.2], fun j hj => by simp,
      by simp, fun t' ht => by simp [ht], fun _ => rfl, fun _ => rfl, by simp,
      fun l hl => by simp [hl]⟩
  have h3 : (w.rows c).state = .active := not_not.1 h3
  rw [CamSync.mergeChild, if_neg h1, if_neg h2, if_neg (not_not.2 h3)]
  by_cases h4 : (!alloc.1) = true
  · rw [if_pos h4]
    exact .inl (mergeFails ⟨_, _, rfl⟩ _)
  by_cases h5 : (!alloc.2) = true
  · rw [if_neg h4, if_pos h5]
    exact .inl (mergeFails ⟨_, _, rfl⟩ _)
  refine .inr (.inr ?_)
  rw [if_neg h4, if_neg h5]
  exact ⟨⟨fun _ => rfl, rfl, rfl, rfl⟩, h3, htype, ⟨_, by simp [hne.symm]; rfl⟩, by simp,
    fun j hj hjc => by simp [hj, hjc], by simp, fun t' ht => by simp [ht], by simp,
    fun l hl => by simp [hl], by simp, fun l hl => by simp [hl],
    by simp [World.self, hne.symm], fun l hl => by simp [World.self, hne.symm] at hl ⊢; simp [hl]⟩

/-- The state of a group at the end of its merge. -/
def endState (row : Row) : FenceState :=
  if row.remaining = 0 ∧ row.state.failed = false then .signaledSuccess else row.state

theorem endState_cases (row : Row) :
    endState row = row.state ∨ endState row = .signaledSuccess := by
  rw [endState]
  split_ifs
  · exact .inr rfl
  · exact .inl rfl

/-- The end of a merge. -/
structure MergeEnds (w w' : World) (t idx : ℕ) : Prop where
  row : w'.rows idx = { w.rows idx with
    locked := false, state := endState (w.rows idx)
    signaled := if (w.rows idx).remaining = 0 then true else (w.rows idx).signaled }
  rows : ∀ j, j ≠ idx → w'.rows j = w.rows j
  thr : w'.thr t = .idle
  thr_ne : ∀ t', t' ≠ t → w'.thr t' = w.thr t'
  waiting : ∀ l, w'.waiting l = w.waiting l
  actives : ∀ l, w'.actives l = w.actives l
  kids : ∀ l, w'.kids l = w.kids l
  idxFinal : w'.final (w.self idx) =
    if (w.rows idx).remaining = 0 then some (endState (w.rows idx)) else w.final (w.self idx)
  final : ∀ l, l ≠ w.self idx → w'.final l = w.final l
  regs : w'.regs = w.regs
  nextReg : w'.nextReg = w.nextReg
  log : w'.log = w.log

theorem mergeEnds (w : World) (t idx : ℕ) : MergeEnds w (mergeEnd w t idx) t idx := by
  by_cases hr : (w.rows idx).remaining = 0
  · have he : mergeEnd w t idx = _ := if_pos hr
    rw [he]
    constructor
    · by_cases hf : (w.rows idx).state.failed = true <;> simp [endState, hr, hf]
    · exact fun j hj => by simp [hj]
    · simp
    · exact fun t' hte => by simp [hte]
    · exact fun _ => rfl
    · exact fun _ => rfl
    · exact fun _ => rfl
    · by_cases hf : (w.rows idx).state.failed = true <;> simp [endState, World.self, hr, hf]
    · exact fun l hl => Function.update_of_ne (by
        by_cases hf : (w.rows idx).state.failed = true <;> simpa [World.self, hf] using hl) ..
    · rfl
    · rfl
    · rfl
  · have he : mergeEnd w t idx = _ := if_neg hr
    rw [he]
    constructor
    · simp [endState, hr]
    · exact fun j hj => by simp [hj]
    · simp
    · exact fun t' hte => by simp [hte]
    · exact fun _ => rfl
    · exact fun _ => rfl
    · exact fun _ => rfl
    · simp [hr]
    · exact fun l hl => rfl
    · rfl
    · rfl
    · rfl

end Sm8850.CamSync
