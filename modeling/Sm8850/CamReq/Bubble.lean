/-
  `cam_req_mgr_process_error`: the link is set back to a request that a device reports.

  The reported slot becomes the read slot, the slots after it that were applied are added
  again, and a request that had too many bubbles has the devices recover first.  At the end
  `__cam_req_mgr_apply_on_bubble` applies the request, as a trigger does.

  * `processError`: the link as it is for `__cam_req_mgr_apply_on_bubble`, and what the
    devices are sent.
  * `resetFrom` is the walk to the last applied slot; `status_resetFrom` and
    `reqApplyMap_resetFrom` say what it makes of each slot.
  * `Restarts`: what a report is to do.
  * **`processError_restarts_iff`**: it does that if the walk ends where the applied slots end,
    and the slot after the reported one, which a link with sync links asks, needs the same
    recovery as the reported one.
  * `processError_secondBubble`: a second bubble on a link with a sync link.
-/
import Sm8850.CamReq.Queue
import Sm8850.Lib.RingWalk

namespace Sm8850.CamReq

open Lib.RingWalk

variable {n : ℕ}

/-! ## The handler -/

/-- `REQ_MAXIMUM_BUBBLE_TIMES`. -/
def REQ_MAXIMUM_BUBBLE_TIMES : UInt32 := 2

/-- The errors that `cam_req_mgr_process_error` tells apart. -/
inductive KmdError where
  | bubble | warnInternalRecovery | fatal | other
  deriving DecidableEq

/-- `struct cam_req_mgr_error_notify`. -/
structure ErrorNotify where
  reqId : ℤ
  error : KmdError

/-- Count the bubble: an internal recovery that is only reported is not one. -/
def ErrorNotify.count (err : ErrorNotify) (s : Slot) : Slot :=
  { s with bubbleTimes := if err.error = .bubble then s.bubbleTimes + 1 else s.bubbleTimes }

/-- What `__cam_req_mgr_send_evt` sends to the devices: `CAM_REQ_MGR_LINK_EVT_STALLED` with
    `CRM_KMD_ERR_FATAL`, or `CAM_REQ_MGR_LINK_EVT_ERR`. -/
inductive Evt where
  | stalled (reqId : ℤ)
  | err (reqId : ℤ)
  deriving DecidableEq

/-- What is left to do, and the return value. -/
structure Outcome (n : ℕ) where
  rc : ℤ
  evts : List Evt
  link : CoreLink n
  /-- `__cam_req_mgr_apply_on_bubble` is called -/
  applies : Bool

namespace CoreLink

/-- `__cam_req_mgr_tbl_set_all_skip_cnt`. -/
def tblSetAllSkipCnt (link : CoreLink n) : CoreLink n :=
  { link with
    lTbl := fun id =>
      { link.lTbl id with skipTraverse := (link.lTbl 0).pd - (link.lTbl id).pd } }

/-- Clear the apply map of a slot in all tables. -/
def clearApplyMaps (link : CoreLink n) (idx : Fin n) : CoreLink n :=
  { link with
    lTbl := fun id =>
      { link.lTbl id with
        slot := Function.update (link.lTbl id).slot idx
          { (link.lTbl id).slot idx with reqApplyMap := 0 } } }

/-- The slot was applied, and is added again. -/
def readd (link : CoreLink n) (idx : Fin n) : CoreLink n :=
  (link.setSlot idx fun s => { s with status := .reqAdded }).clearApplyMaps idx

variable [NeZero n]

/-- The walk over the slots after `idx`. -/
def resetFrom : ℕ → Fin n → CoreLink n → CoreLink n
  | 0, _, link => link
  | left + 1, idx, link =>
    resetFrom left (idx + 1)
      (if (link.inQ.slot (idx + 1)).status = .reqApplied then link.readd (idx + 1) else link)

/-- `slot_diff`. -/
def slotDiff (link : CoreLink n) (idx : Fin n) : ℕ :=
  match link.inQ.lastAppliedIdx with
  -- the difference modulo `num_slots`
  | some last => (last - idx).val
  | none => 1

end CoreLink

/-- The slot had too many bubbles, and was not recovered yet. -/
def Slot.stalled (s : Slot) : Bool :=
  s.bubbleTimes ≥ REQ_MAXIMUM_BUBBLE_TIMES && !s.internalRecovered

section
variable [NeZero n]

/-- The reported slot becomes the read slot, and the bubble is counted. -/
def bringTo (err : ErrorNotify) (idx : Fin n) (link : CoreLink n) : CoreLink n :=
  let link := link.tblSetAllSkipCnt
  let link := { link with inQ := { link.inQ with rdIdx := idx } }
  let link := link.setSlot idx fun s => { err.count s with status := .reqAdded }
  link.clearApplyMaps idx

/-- The reported slot and the next are no longer applied in sync. -/
def clearSyncMode (idx : Fin n) (link : CoreLink n) : CoreLink n :=
  (link.setSlot idx fun s => { s with syncMode := 0 }).setSlot (idx + 1) fun s =>
    { s with syncMode := 0 }

/-- The internal recovery of slot `idx`, if it is due. -/
def internalRecovery (err : ErrorNotify) (idx : Fin n) (link : CoreLink n) :
    List Evt × CoreLink n :=
  if (link.inQ.slot idx).stalled then
    ([.stalled err.reqId], link.setSlot idx fun s => { s with internalRecovered := true })
  else ([], link)

/-- What is done before the walk, with `idx` on the next slot if there is a sync link. -/
def prepare (err : ErrorNotify) (idx : Fin n) (link : CoreLink n) : List Evt × CoreLink n :=
  let brought := bringTo err idx link
  if link.hasSyncLink then internalRecovery err (idx + 1) (clearSyncMode idx brought)
  else internalRecovery err idx brought

/-- The recovery of the slot that is reported. -/
def recoverBubble (err : ErrorNotify) (idx : Fin n) (link : CoreLink n) :
    List Evt × CoreLink n :=
  let r := prepare err idx link
  let idx := r.2.inQ.rdIdx
  let link := r.2.resetFrom (r.2.slotDiff idx) idx
  (r.1, { link with state := .err, openReqCnt := link.openReqCnt + 1 })

/-- `cam_req_mgr_process_error`, where sending `CAM_REQ_MGR_LINK_EVT_ERR` returns `evtRc`. -/
def processError (evtRc : ℤ) (err : ErrorNotify) (link : CoreLink n) : Outcome n :=
  match err.error with
  | .bubble | .warnInternalRecovery =>
    match link.inQ.findSlotForReq err.reqId with
    | none => ⟨0, [], link, false⟩
    | some idx =>
      let slot := link.inQ.slot idx
      if slot.recover = false then ⟨0, [], link, false⟩
      else if slot.status ≠ .reqPending ∧ slot.status ≠ .reqApplied ∧ slot.status ≠ .reqDone then
        ⟨EINVAL, [], link, false⟩
      else ⟨0, (recoverBubble err idx link).1, (recoverBubble err idx link).2, true⟩
  | .fatal => ⟨evtRc, [.err err.reqId], link, false⟩
  | .other => ⟨0, [], link, false⟩

/-! ## What it is for -/

/-- The request in slot `s` was added after the one in slot `r`. -/
def CoreLink.After (link : CoreLink n) (r s : Fin n) : Prop :=
  age link.inQ.wrIdx r < age link.inQ.wrIdx s

/-- A bubble is reported for the request in slot `r`, and it can be recovered. -/
structure Recoverable (err : ErrorNotify) (link : CoreLink n) (r : Fin n) : Prop where
  error : err.error = .bubble ∨ err.error = .warnInternalRecovery
  found : link.inQ.findSlotForReq err.reqId = some r
  recover : (link.inQ.slot r).recover = true
  status : (link.inQ.slot r).status ∈ [SlotStatus.reqPending, .reqApplied, .reqDone]

/-- The link starts again at the reported slot: the applied requests after it are added again,
    no other changes its status, and the slot itself says if the devices have to recover. -/
structure Restarts (err : ErrorNotify) (link : CoreLink n) (r : Fin n) (o : Outcome n) : Prop where
  rdIdx : o.link.inQ.rdIdx = r
  aligned : ∀ id, (o.link.lTbl id).skipTraverse = (link.lTbl 0).pd - (link.lTbl id).pd
  reported : (o.link.inQ.slot r).status = .reqAdded ∧
    ∀ id, ((o.link.lTbl id).slot r).reqApplyMap = 0
  turned : ∀ s, (link.inQ.slot s).status = .reqApplied → link.After r s →
    (o.link.inQ.slot s).status = .reqAdded ∧ ∀ id, ((o.link.lTbl id).slot s).reqApplyMap = 0
  kept : ∀ s, s ≠ r → ¬ ((link.inQ.slot s).status = .reqApplied ∧ link.After r s) →
    (o.link.inQ.slot s).status = (link.inQ.slot s).status
  evts : o.evts =
    if (err.count (link.inQ.slot r)).stalled then [.stalled err.reqId] else []

/-- The slot that decides on the internal recovery: with a sync link, the one after the
    reported one. -/
def asked (err : ErrorNotify) (link : CoreLink n) (r : Fin n) : Slot :=
  Function.update link.inQ.slot r (err.count (link.inQ.slot r))
    (if link.hasSyncLink then r + 1 else r)

/-- The walk goes where the applied requests after `r` are: the last applied slot is not older
    than `r` and no applied one is younger, or it is older and no applied one is as old.  If
    there is none, at most the next slot is applied of those after `r`, and if that slot is
    the oldest, it is not. -/
def WalkEnds (link : CoreLink n) (r : Fin n) : Prop :=
  let age := age link.inQ.wrIdx
  let applied := fun s => (link.inQ.slot s).status = .reqApplied
  match link.inQ.lastAppliedIdx with
  | some last =>
    if age r ≤ age last then ∀ s, applied s → age s ≤ age last
    else ∀ s, applied s → age last < age s
  | none => ∀ s, s ≠ r → applied s → (s = r + 1 ↔ link.After r s)

/-! ## The walk -/

namespace CoreLink

variable {link : CoreLink n} {idx c r s : Fin n} {k : ℕ}

omit [NeZero n] in
theorem readd_of_ne (link : CoreLink n) (h : s ≠ idx) :
    (link.readd idx).inQ.slot s = link.inQ.slot s ∧
    ∀ id, ((link.readd idx).lTbl id).slot s = (link.lTbl id).slot s := by
  refine ⟨Function.update_of_ne h _ _, fun id => ?_⟩
  exact Function.update_of_ne h _ _

omit [NeZero n] in
theorem readd_self (link : CoreLink n) (idx : Fin n) :
    ((link.readd idx).inQ.slot idx).status = .reqAdded ∧
    ∀ id, (((link.readd idx).lTbl id).slot idx).reqApplyMap = 0 := by
  simp [readd, setSlot, clearApplyMaps]

theorem resetFrom_succ (k : ℕ) (c : Fin n) (link : CoreLink n) :
    link.resetFrom (k + 1) c =
      (if (link.inQ.slot (c + 1)).status = .reqApplied then link.readd (c + 1)
        else link).resetFrom k (c + 1) := rfl

/-- A slot that the walk does not turn is as it was. -/
theorem kept_resetFrom (h : ¬ (Visited k c s ∧ (link.inQ.slot s).status = .reqApplied)) :
    (link.resetFrom k c).inQ.slot s = link.inQ.slot s ∧
      ∀ id, ((link.resetFrom k c).lTbl id).slot s = (link.lTbl id).slot s := by
  induction k generalizing c link with
  | zero => exact ⟨rfl, fun _ => rfl⟩
  | succ k ih =>
    rw [resetFrom_succ]
    split
    · next happ =>
      have hs : s ≠ c + 1 := by
        rintro rfl
        exact h ⟨.inl rfl, happ⟩
      obtain ⟨hslot, htbl⟩ := readd_of_ne link hs
      have hnot : ¬ (Visited k (c + 1) s ∧
          ((link.readd (c + 1)).inQ.slot s).status = .reqApplied) := by
        rw [hslot]
        exact fun hv => h ⟨.inr hv.1, hv.2⟩
      obtain ⟨hslot', htbl'⟩ := ih hnot
      exact ⟨hslot'.trans hslot, fun id => (htbl' id).trans (htbl id)⟩
    · exact ih fun hv => h ⟨.inr hv.1, hv.2⟩

/-- The applied slots on the walk are added again. -/
theorem readded_resetFrom (hv : Visited k c s) (happ : (link.inQ.slot s).status = .reqApplied) :
    ((link.resetFrom k c).inQ.slot s).status = .reqAdded ∧
      ∀ id, (((link.resetFrom k c).lTbl id).slot s).reqApplyMap = 0 := by
  induction k generalizing c link with
  | zero => exact absurd hv id
  | succ k ih =>
    rw [resetFrom_succ]
    by_cases hs : s = c + 1
    · rw [← hs, if_pos happ]
      obtain ⟨hstatus, hmap⟩ := readd_self link s
      have hnot : ¬ (Visited k s s ∧ ((link.readd s).inQ.slot s).status = .reqApplied) := by
        rw [hstatus]
        exact fun h => nomatch h.2
      obtain ⟨hslot, htbl⟩ := kept_resetFrom hnot
      exact ⟨hslot ▸ hstatus, fun id => htbl id ▸ hmap id⟩
    · have hrest := hv.resolve_left hs
      split
      · exact ih hrest ((congrArg Slot.status (readd_of_ne link hs).1).trans happ)
      · exact ih hrest happ

/-- The walk changes slots only. -/
theorem frame_resetFrom (k : ℕ) (c : Fin n) (link : CoreLink n) :
    (link.resetFrom k c).inQ.rdIdx = link.inQ.rdIdx ∧
    ∀ id, ((link.resetFrom k c).lTbl id).skipTraverse = (link.lTbl id).skipTraverse := by
  induction k generalizing c link with
  | zero => exact ⟨rfl, fun _ => rfl⟩
  | succ k ih =>
    rw [resetFrom_succ]
    split
    · exact ih (c + 1) (link.readd (c + 1))
    · exact ih (c + 1) link

/-- The walk turns the applied slots after `r` if it ends where they end. -/
theorem visited_iff_after (link : CoreLink n) (r : Fin n) :
    (∀ s, s ≠ r → (link.inQ.slot s).status = .reqApplied →
      (Visited (link.slotDiff r) r s ↔ link.After r s)) ↔ WalkEnds link r := by
  unfold WalkEnds slotDiff
  cases link.inQ.lastAppliedIdx with
  | none => simp only [visited_one]
  | some last =>
    dsimp only
    split
    · next hle =>
      simp only [visited_iff_age hle, After]
      constructor
      · intro h s happ
        by_cases hs : s = r
        · exact hs ▸ hle
        have := h s hs happ
        omega
      · intro h s _ happ
        have := h s happ
        omega
    · next hlt =>
      rw [not_le] at hlt
      simp only [visited_iff_age_of_lt hlt, After]
      constructor
      · intro h s happ
        by_cases hs : s = r
        · exact hs ▸ hlt
        have := h s hs happ
        omega
      · intro h s _ happ
        have := h s happ
        omega

end CoreLink

/-! ## The recovery -/

variable {err : ErrorNotify} {link : CoreLink n} {r : Fin n}

omit [NeZero n] in
/-- A write that leaves the status of a slot leaves that of all. -/
theorem status_setSlot {idx : Fin n} {f : Slot → Slot} (hf : ∀ s, (f s).status = s.status)
    (s : Fin n) : ((link.setSlot idx f).inQ.slot s).status = (link.inQ.slot s).status := by
  by_cases hs : s = idx
  · subst hs
    exact (congrArg Slot.status (Function.update_self ..)).trans (hf _)
  · exact congrArg Slot.status (Function.update_of_ne hs _ _)

/-- Links that differ in other fields of the slots than the status. -/
structure SameStatus (link link' : CoreLink n) : Prop where
  rdIdx : link'.inQ.rdIdx = link.inQ.rdIdx
  last : link'.inQ.lastAppliedIdx = link.inQ.lastAppliedIdx
  lTbl : link'.lTbl = link.lTbl
  status : ∀ s, (link'.inQ.slot s).status = (link.inQ.slot s).status

omit [NeZero n] in
theorem sameStatus_setSlot {idx : Fin n} {f : Slot → Slot} (hf : ∀ s, (f s).status = s.status) :
    SameStatus link (link.setSlot idx f) :=
  ⟨rfl, rfl, rfl, status_setSlot hf⟩

omit [NeZero n] in
theorem SameStatus.trans {link' link'' : CoreLink n} (h : SameStatus link link')
    (h' : SameStatus link' link'') : SameStatus link link'' :=
  ⟨h'.rdIdx.trans h.rdIdx, h'.last.trans h.last, h'.lTbl.trans h.lTbl,
    fun s => (h'.status s).trans (h.status s)⟩

omit [NeZero n] in
theorem internalRecovery_spec (err : ErrorNotify) (idx : Fin n) (link : CoreLink n) :
    (internalRecovery err idx link).1 =
        (if (link.inQ.slot idx).stalled then [.stalled err.reqId] else []) ∧
      SameStatus link (internalRecovery err idx link).2 := by
  unfold internalRecovery
  split
  · refine ⟨rfl, ?_⟩
    dsimp only
    refine sameStatus_setSlot ?_
    intro s
    rfl
  · exact ⟨rfl, ⟨rfl, rfl, rfl, fun _ => rfl⟩⟩

theorem stalled_clearSyncMode {idx : Fin n} (s : Fin n) :
    ((clearSyncMode idx link).inQ.slot s).stalled = (link.inQ.slot s).stalled := by
  simp only [clearSyncMode, CoreLink.setSlot, Function.update_apply]
  split_ifs <;> simp_all [Slot.stalled]

theorem sameStatus_clearSyncMode (idx : Fin n) : SameStatus link (clearSyncMode idx link) := by
  refine (sameStatus_setSlot ?_).trans (sameStatus_setSlot ?_)
  · intro s
    rfl
  · intro s
    rfl

/-- What is done before the walk. -/
theorem prepare_spec (err : ErrorNotify) (link : CoreLink n) (r : Fin n) :
    (prepare err r link).1 =
      (if (asked err link r).stalled then [.stalled err.reqId] else []) ∧
    SameStatus (bringTo err r link) (prepare err r link).2 := by
  have hslot : ∀ s, ((bringTo err r link).inQ.slot s).stalled =
      (Function.update link.inQ.slot r (err.count (link.inQ.slot r)) s).stalled := by
    intro s
    simp only [bringTo, CoreLink.setSlot, CoreLink.clearApplyMaps, CoreLink.tblSetAllSkipCnt,
      Function.update_apply]
    split_ifs <;> rfl
  unfold prepare
  cases hsync : link.hasSyncLink with
  | true =>
    obtain ⟨hevts, hsame⟩ :=
      internalRecovery_spec err (r + 1) (clearSyncMode r (bringTo err r link))
    rw [stalled_clearSyncMode, hslot] at hevts
    rw [asked, hsync]
    exact ⟨hevts, (sameStatus_clearSyncMode r).trans hsame⟩
  | false =>
    obtain ⟨hevts, hsame⟩ := internalRecovery_spec err r (bringTo err r link)
    rw [hslot] at hevts
    rw [asked, hsync]
    exact ⟨hevts, hsame⟩

omit [NeZero n] in
/-- What is brought to the reported slot. -/
theorem bringTo_spec (err : ErrorNotify) (r : Fin n) (link : CoreLink n) :
    (bringTo err r link).inQ.rdIdx = r ∧
      (bringTo err r link).inQ.lastAppliedIdx = link.inQ.lastAppliedIdx ∧
      (∀ id, ((bringTo err r link).lTbl id).skipTraverse = (link.lTbl 0).pd - (link.lTbl id).pd) ∧
      (∀ id, (((bringTo err r link).lTbl id).slot r).reqApplyMap = 0) ∧
      ((bringTo err r link).inQ.slot r).status = .reqAdded ∧
      ∀ s, s ≠ r → ((bringTo err r link).inQ.slot s).status = (link.inQ.slot s).status := by
  refine ⟨rfl, rfl, fun _ => rfl, fun id => ?_, ?_, fun s hs => ?_⟩
  · simp only [bringTo, CoreLink.clearApplyMaps, Function.update_self]
  · simp only [bringTo, CoreLink.clearApplyMaps, CoreLink.setSlot, Function.update_self]
  · exact congrArg Slot.status (Function.update_of_ne hs _ _)

theorem processError_eq (evtRc : ℤ) (h : Recoverable err link r) :
    processError evtRc err link =
      ⟨0, (recoverBubble err r link).1, (recoverBubble err r link).2, true⟩ := by
  have hstatus : ¬ ((link.inQ.slot r).status ≠ .reqPending ∧
      (link.inQ.slot r).status ≠ .reqApplied ∧ (link.inQ.slot r).status ≠ .reqDone) := by
    have := h.status
    simp only [List.mem_cons, List.not_mem_nil, or_false] at this
    rintro ⟨hp, ha, hd⟩
    rcases this with h | h | h
    · exact hp h
    · exact ha h
    · exact hd h
  unfold processError
  rcases h.error with herr | herr
  · simp only [herr, h.found, h.recover, Bool.true_eq_false, if_false, if_neg hstatus]
  · simp only [herr, h.found, h.recover, Bool.true_eq_false, if_false, if_neg hstatus]

/-- What the recovery does to each slot. -/
theorem recoverBubble_spec (err : ErrorNotify) (link : CoreLink n) (r : Fin n) :
    let e := recoverBubble err r link
    e.1 = (if (asked err link r).stalled then [.stalled err.reqId] else []) ∧
      e.2.inQ.rdIdx = r ∧
      (∀ id, (e.2.lTbl id).skipTraverse = (link.lTbl 0).pd - (link.lTbl id).pd) ∧
      ((e.2.inQ.slot r).status = .reqAdded ∧ ∀ id, ((e.2.lTbl id).slot r).reqApplyMap = 0) ∧
      (∀ s, s ≠ r → Visited (link.slotDiff r) r s → (link.inQ.slot s).status = .reqApplied →
        (e.2.inQ.slot s).status = .reqAdded ∧ ∀ id, ((e.2.lTbl id).slot s).reqApplyMap = 0) ∧
      ∀ s, s ≠ r → ¬ (Visited (link.slotDiff r) r s ∧ (link.inQ.slot s).status = .reqApplied) →
        (e.2.inQ.slot s).status = (link.inQ.slot s).status := by
  obtain ⟨hevts, hsame⟩ := prepare_spec err link r
  obtain ⟨hrd, hlast, halign, hmap, hadded, hother⟩ := bringTo_spec err r link
  have hidx : (prepare err r link).2.inQ.rdIdx = r := hsame.rdIdx.trans hrd
  have hdiff : (prepare err r link).2.slotDiff r = link.slotDiff r := by
    rw [CoreLink.slotDiff, hsame.last, hlast, CoreLink.slotDiff]
  have hstatus : ∀ s, s ≠ r → ((prepare err r link).2.inQ.slot s).status =
      (link.inQ.slot s).status := fun s hs => (hsame.status s).trans (hother s hs)
  have hreported : ((prepare err r link).2.inQ.slot r).status = .reqAdded :=
    (hsame.status r).trans hadded
  dsimp only [recoverBubble]
  rw [hidx, hdiff]
  obtain ⟨hframe, hskip⟩ :=
    CoreLink.frame_resetFrom (link.slotDiff r) r (prepare err r link).2
  refine ⟨hevts, hframe.trans hidx, fun id => ?_, ?_, fun s hs hv happ => ?_, fun s hs hnot => ?_⟩
  · rw [hskip, hsame.lTbl, halign]
  · have hnot : ¬ (Visited (link.slotDiff r) r r ∧
        ((prepare err r link).2.inQ.slot r).status = .reqApplied) := by
      rw [hreported]
      exact fun h => nomatch h.2
    obtain ⟨hslot, htbl⟩ := CoreLink.kept_resetFrom hnot
    refine ⟨hslot ▸ hreported, fun id => ?_⟩
    rw [htbl, hsame.lTbl, hmap]
  · exact CoreLink.readded_resetFrom hv ((hstatus s hs).trans happ)
  · rw [(CoreLink.kept_resetFrom (by rwa [hstatus s hs])).1, hstatus s hs]

/-- A report that can be recovered restarts the link if the walk ends where the applied
    requests end and the slot that is asked decides as the reported one. -/
theorem restarts_iff (evtRc : ℤ) (h : Recoverable err link r) :
    Restarts err link r (processError evtRc err link) ↔
      (asked err link r).stalled = (err.count (link.inQ.slot r)).stalled ∧ WalkEnds link r := by
  obtain ⟨hevts, hrd, halign, hreported, hturned, hkept⟩ := recoverBubble_spec err link r
  rw [processError_eq evtRc h, ← CoreLink.visited_iff_after]
  constructor
  · intro ho
    constructor
    · have hsame := hevts.symm.trans ho.evts
      revert hsame
      cases (asked err link r).stalled <;> cases (err.count (link.inQ.slot r)).stalled <;> simp
    · intro s hs happ
      constructor
      · intro hv
        by_contra hafter
        have hadded := (hturned s hs hv happ).1
        rw [ho.kept s hs fun h => hafter h.2, happ] at hadded
        cases hadded
      · intro hafter
        by_contra hv
        have hadded := (ho.turned s happ hafter).1
        rw [hkept s hs fun h => hv h.1, happ] at hadded
        cases hadded
  · rintro ⟨hasked, hwalk⟩
    refine ⟨hrd, halign, hreported, fun s happ hafter => ?_, fun s hs hnot => ?_, ?_⟩
    · have hs : s ≠ r := by
        rintro rfl
        exact lt_irrefl _ hafter
      exact hturned s hs ((hwalk s hs happ).2 hafter) happ
    · exact hkept s hs fun h => hnot ⟨h.2, (hwalk s hs h.2).1 h.1⟩
    · rw [hevts, hasked]

/-- A report restarts the link at its request, if the request can be recovered. -/
def RestartsAtReport (evtRc : ℤ) (err : ErrorNotify) (link : CoreLink n) : Prop :=
  ∀ r, Recoverable err link r → Restarts err link r (processError evtRc err link)

/-- **Reports restart the link at their request** just if the walk ends where the applied
    requests end and the slot that is asked decides as the reported one. -/
theorem processError_restarts_iff (evtRc : ℤ) (err : ErrorNotify) (link : CoreLink n) :
    RestartsAtReport evtRc err link ↔ ∀ r, Recoverable err link r →
      (asked err link r).stalled = (err.count (link.inQ.slot r)).stalled ∧ WalkEnds link r := by
  constructor
  · intro h r hr
    exact (restarts_iff evtRc hr).1 (h r hr)
  · intro h r hr
    exact (restarts_iff evtRc hr).2 (h r hr)

/-! ## A second bubble -/

/-- Request 5 is applied and had a bubble before, request 6 is added; there is a sync link. -/
def bubbledOnce : CoreLink 2 where
  inQ :=
    { slot := fun i =>
        if i = 0 then ⟨.reqApplied, true, 5, 1, 1, false⟩
        else ⟨.reqAdded, true, 6, 1, 0, false⟩
      rdIdx := 0
      wrIdx := 0
      lastAppliedIdx := some 0 }
  lDev := []
  lTbl := fun _ => ⟨2, 0, fun _ => ⟨0, 0, 0, ⟨[], false⟩⟩⟩
  hasSyncLink := true
  state := .ready
  openReqCnt := 1
  eq_of_devHdl := nofun

theorem processError_restarts_iff_bubbledOnce :
    RestartsAtReport 0 ⟨5, .bubble⟩ bubbledOnce ↔
      ∀ r, Recoverable ⟨5, .bubble⟩ bubbledOnce r →
        (asked ⟨5, .bubble⟩ bubbledOnce r).stalled =
          (ErrorNotify.count ⟨5, .bubble⟩ (bubbledOnce.inQ.slot r)).stalled ∧
        WalkEnds bubbledOnce r :=
  processError_restarts_iff 0 ⟨5, .bubble⟩ bubbledOnce

/-- The second bubble of request 5 is decided on by request 6, and the devices do not recover. -/
theorem processError_secondBubble : ¬ RestartsAtReport 0 ⟨5, .bubble⟩ bubbledOnce := by
  intro h
  have hevts := (h 0 ⟨.inl rfl, rfl, rfl, by decide⟩).evts
  exact absurd hevts (by decide)

end

end Sm8850.CamReq
