/-
  The association IDs of an access point with several links: `wlan_mlo_mgr_aid.c`.

  An AID is a bit, counted from one.  The manager of the multi-link device has a bitmap
  for the AIDs of multi-link peers, and each link has a bitmap of its own, in which the
  AIDs of the multi-link peers are marked too.

  * `wlanMloAllocAid` is the search of one range, upwards or downwards, and
    `wlanMloPeerAllocAid` the order in which the three buckets are searched;
  * `wlanMloPeerSetAid` takes an AID the caller names, `wlanMloPeerFreeAid` gives one back;
  * `Free` says which AIDs a peer may get, `take` what marking one does.  The search finds
    a free AID whenever its range has one: `wlanMloAllocAid_spec`.

  The manager context of the driver, without which the functions fail at once, is there.
-/
import Mathlib.Algebra.Order.Group.Nat
import Mathlib.Data.Fin.Basic
import Mathlib.Data.List.FinRange
import Mathlib.Logic.Function.Basic

namespace Sm8850.Mlo

/-! ## Data -/

/-- `WLAN_UMAC_MAX_AID`: 16 of the 2007 AIDs are reserved for ranging. -/
def WLAN_UMAC_MAX_AID : ℕ := 2008 - 16 - 1

/-- `WLAN_AID`: the number without the two top bits it has in a frame. -/
def wlanAid (b : ℕ) : ℕ := b % 2 ^ 14

/-- The index of the bit of an AID, as the `unsigned int` it is passed as. -/
def aidIx (assocId : ℕ) : ℕ := (wlanAid assocId + (2 ^ 32 - 1)) % 2 ^ 32

theorem aidIx_of_lt {assocId : ℕ} (hpos : 0 < assocId) (hlt : assocId < 2 ^ 14) :
    aidIx assocId = assocId - 1 := by
  rw [aidIx, wlanAid, Nat.mod_eq_of_lt hlt]
  omega

/-- `(uint16_t)-1`, the id of a failed allocation. -/
def INVALID_AID : ℕ := 2 ^ 16 - 1

/-- `struct wlan_vdev_aid_mgr`: the AIDs of one link. -/
structure WlanVdevAidMgr where
  aidBitmap : ℕ → Bool
  startAid : ℕ
  maxAid : ℕ
  /-- the bitmap has that many bits -/
  maxAid_le : maxAid ≤ WLAN_UMAC_MAX_AID

/-- `struct wlan_ml_vdev_aid_mgr`, with `lastVdev + 1` for `WLAN_UMAC_MLO_MAX_VDEVS`. -/
structure WlanMlVdevAidMgr (lastVdev : ℕ) where
  aidBitmap : ℕ → Bool
  startAid : ℕ
  maxAid : ℕ
  aidMgr : Fin (lastVdev + 1) → Option WlanVdevAidMgr
  /-- the bitmap has that many bits -/
  maxAid_le : maxAid ≤ WLAN_UMAC_MAX_AID

/-- `qdf_set_bit` on the bitmap of a link. -/
def WlanVdevAidMgr.setBit (v : WlanVdevAidMgr) (ix : ℕ) : WlanVdevAidMgr :=
  { v with aidBitmap := Function.update v.aidBitmap ix true }

/-- `qdf_clear_bit` on the bitmap of a link. -/
def WlanVdevAidMgr.clearBit (v : WlanVdevAidMgr) (ix : ℕ) : WlanVdevAidMgr :=
  { v with aidBitmap := Function.update v.aidBitmap ix false }

variable {lastVdev : ℕ}

namespace WlanMlVdevAidMgr

/-- `qdf_set_bit` on the bitmap of the multi-link device. -/
def setBit (m : WlanMlVdevAidMgr lastVdev) (ix : ℕ) : WlanMlVdevAidMgr lastVdev :=
  { m with aidBitmap := Function.update m.aidBitmap ix true }

/-- `qdf_clear_bit` on the bitmap of the multi-link device. -/
def clearBit (m : WlanMlVdevAidMgr lastVdev) (ix : ℕ) : WlanMlVdevAidMgr lastVdev :=
  { m with aidBitmap := Function.update m.aidBitmap ix false }

/-- The manager of one link replaced, where the link has one. -/
def onLink (m : WlanMlVdevAidMgr lastVdev) (link : Fin (lastVdev + 1))
    (f : WlanVdevAidMgr → WlanVdevAidMgr) : WlanMlVdevAidMgr lastVdev :=
  { m with aidMgr := Function.update m.aidMgr link ((m.aidMgr link).map f) }

/-- The managers of all links replaced. -/
def onLinks (m : WlanMlVdevAidMgr lastVdev)
    (f : WlanVdevAidMgr → WlanVdevAidMgr) : WlanMlVdevAidMgr lastVdev :=
  { m with aidMgr := fun j => (m.aidMgr j).map f }

/-- Whether the link has a manager and its bit is set. -/
def testLink (m : WlanMlVdevAidMgr lastVdev) (link : Fin (lastVdev + 1)) (ix : ℕ) : Bool :=
  (m.aidMgr link).any (·.aidBitmap ix)

end WlanMlVdevAidMgr

open WlanMlVdevAidMgr

/-! ## Search -/

/-- `mlo_peer_set_aid_bit`. -/
def mloPeerSetAidBit (m : WlanMlVdevAidMgr lastVdev) (ix : ℕ) : WlanMlVdevAidMgr lastVdev :=
  m.onLinks (·.setBit ix)

/-- The loop of `wlan_mlo_check_aid_free` over the links that are left.  A skipped link
    passes over the end of the loop too, so skipping the last one never finds the AID free. -/
def checkAidFree (m : WlanMlVdevAidMgr lastVdev) (ix : ℕ) (skip : Option (Fin (lastVdev + 1))) :
    List (Fin (lastVdev + 1)) → Bool
  | [] => false
  | j :: js =>
    if skip = some j then checkAidFree m ix skip js
    else if m.testLink j ix then false
    else if j = Fin.last lastVdev then true
    else checkAidFree m ix skip js

/-- `wlan_mlo_check_aid_free`. -/
def wlanMloCheckAidFree (m : WlanMlVdevAidMgr lastVdev) (ix : ℕ)
    (skip : Option (Fin (lastVdev + 1))) : Bool :=
  checkAidFree m ix skip (List.finRange (lastVdev + 1))

/-- `wlan_mlo_aid_idx_check`. -/
def wlanMloAidIdxCheck (startIdx endIdx currIdx : ℕ) : Bool :=
  if startIdx < endIdx then currIdx < endIdx else currIdx ≥ endIdx

/-- `wlan_mlo_aid_idx_update`, for an index that passed the check; `none` if negative. -/
def wlanMloAidIdxUpdate (startIdx endIdx currIdx : ℕ) : Option ℕ :=
  if startIdx < endIdx then some (currIdx + 1)
  else if currIdx = 0 then none else some (currIdx - 1)

/-- Whom an AID is for: a multi-link peer, or a peer of one link. -/
inductive PeerKind (lastVdev : ℕ) where
  | mlo
  | link (linkIx : Fin (lastVdev + 1))

/-- The loop of `wlan_mlo_alloc_aid` from `assocIdx` on; `none` if it does not end within
    the fuel.  It yields the bitmaps, `assoc_id` and `first_aid`. -/
def allocLoop (m : WlanMlVdevAidMgr lastVdev) (startIdx endIdx : ℕ) (kind : PeerKind lastVdev) :
    ℕ → ℕ → ℕ → Option (WlanMlVdevAidMgr lastVdev × ℕ × ℕ)
  | 0, _, _ => none
  | fuel + 1, assocIdx, firstAid =>
    let next (firstAid : ℕ) := match wlanMloAidIdxUpdate startIdx endIdx assocIdx with
      | none => some (m, INVALID_AID, firstAid)
      | some ix => allocLoop m startIdx endIdx kind fuel ix firstAid
    if wlanMloAidIdxCheck startIdx endIdx assocIdx = false then
      some (m, INVALID_AID, firstAid)
    else if m.aidBitmap assocIdx then next firstAid
    else match kind with
      | .mlo =>
        if wlanMloCheckAidFree m assocIdx none then
          some ((mloPeerSetAidBit m assocIdx).setBit assocIdx, assocIdx + 1, firstAid)
        else next firstAid
      | .link linkIx => match m.aidMgr linkIx with
        | none => some (m, INVALID_AID, firstAid)
        | some v =>
          if v.aidBitmap assocIdx then next firstAid
          else
            let firstAid := if firstAid = 0 then assocIdx + 1 else firstAid
            -- an AID that another link uses is taken before one that no link uses
            if wlanMloCheckAidFree m assocIdx (some linkIx) = false then
              some (m.onLink linkIx (·.setBit assocIdx), assocIdx + 1, 0)
            else next firstAid

/-- `wlan_mlo_alloc_aid`. -/
def wlanMloAllocAid (m : WlanMlVdevAidMgr lastVdev) (startIdx endIdx : ℕ)
    (kind : PeerKind lastVdev) : Option (WlanMlVdevAidMgr lastVdev × ℕ) :=
  match allocLoop m startIdx endIdx kind (startIdx + endIdx + 2) startIdx 0 with
  | none => none
  | some (m', assocId, firstAid) =>
    match kind with
    | .mlo => some (m', assocId)
    | .link linkIx =>
      if firstAid = 0 then some (m', assocId)
      else some (m'.onLink linkIx (·.setBit (firstAid - 1)), firstAid)

/-- `AID_NUM_BUCKET`. -/
def AID_NUM_BUCKET : ℕ := 3

/-- The searches of the ranges one after the other, until one finds an AID. -/
def allocInTurn (m : WlanMlVdevAidMgr lastVdev) (kind : PeerKind lastVdev) :
    List (ℕ × ℕ) → Option (WlanMlVdevAidMgr lastVdev × ℕ)
  | [] => some (m, INVALID_AID)
  | (startIdx, endIdx) :: rest =>
    match wlanMloAllocAid m startIdx endIdx kind with
    | none => none
    | some (m', assocId) =>
      if assocId ≠ INVALID_AID then some (m', assocId) else allocInTurn m' kind rest

/-- `_wlan_mlo_peer_alloc_aid`. -/
def peerAllocAid (m : WlanMlVdevAidMgr lastVdev) (t2lmPeer : Bool) (kind : PeerKind lastVdev) :
    Option (WlanMlVdevAidMgr lastVdev × ℕ) :=
  if m.startAid > m.maxAid then some (m, INVALID_AID)
  else
    let pool1MaxAid := (m.maxAid - m.startAid) / AID_NUM_BUCKET
    let aidEnd1 := pool1MaxAid + m.startAid
    let aidEnd2 := pool1MaxAid + pool1MaxAid + m.startAid
    if m.startAid > aidEnd1 ∨ aidEnd1 > aidEnd2 then
      wlanMloAllocAid m m.startAid m.maxAid kind
    else if t2lmPeer then
      allocInTurn m kind [(aidEnd1, aidEnd2), (aidEnd2, m.maxAid), (aidEnd1, m.startAid)]
    else
      allocInTurn m kind [(m.startAid, aidEnd1), (aidEnd2, m.maxAid), (aidEnd2, aidEnd1)]

/-- `_wlan_mlo_peer_alloc_aid` with the range of the manager given. -/
def peerAllocAidIn (m : WlanMlVdevAidMgr lastVdev) (startAid maxAid : ℕ) (t2lmPeer : Bool)
    (kind : PeerKind lastVdev) : Option (WlanMlVdevAidMgr lastVdev × ℕ) :=
  if startAid > maxAid then some (m, INVALID_AID)
  else
    let pool1MaxAid := (maxAid - startAid) / AID_NUM_BUCKET
    let aidEnd1 := pool1MaxAid + startAid
    let aidEnd2 := pool1MaxAid + pool1MaxAid + startAid
    if startAid > aidEnd1 ∨ aidEnd1 > aidEnd2 then wlanMloAllocAid m startAid maxAid kind
    else if t2lmPeer then
      allocInTurn m kind [(aidEnd1, aidEnd2), (aidEnd2, maxAid), (aidEnd1, startAid)]
    else
      allocInTurn m kind [(startAid, aidEnd1), (aidEnd2, maxAid), (aidEnd2, aidEnd1)]

/-- `wlan_mlo_peer_alloc_aid`; the link is `none` for `MLO_INVALID_LINK_IDX`. -/
def wlanMloPeerAllocAid (m : WlanMlVdevAidMgr lastVdev) (isMloPeer t2lmPeer : Bool)
    (linkIx : Option (Fin (lastVdev + 1))) : Option (WlanMlVdevAidMgr lastVdev × ℕ) :=
  match isMloPeer, linkIx with
  | true, _ => peerAllocAid m t2lmPeer .mlo
  | false, some l => peerAllocAid m t2lmPeer (.link l)
  | false, none => some (m, INVALID_AID)

/-- `wlan_mlo_peer_set_aid`: the bitmaps, and whether the AID was taken. -/
def wlanMloPeerSetAid (m : WlanMlVdevAidMgr lastVdev) (isMloPeer : Bool)
    (linkIx : Option (Fin (lastVdev + 1))) (assocId : ℕ) : WlanMlVdevAidMgr lastVdev × Bool :=
  let ix := aidIx assocId
  if isMloPeer = false ∧ linkIx = none then (m, false)
  else if m.aidBitmap ix then (m, false)
  else match isMloPeer, linkIx with
    | true, _ =>
      if assocId < m.startAid ∨ assocId ≥ m.maxAid then (m, false)
      else if (List.finRange (lastVdev + 1)).any (m.testLink · ix) then (m, false)
      else ((mloPeerSetAidBit m ix).setBit ix, true)
    | false, none => (m, false)
    | false, some l => match m.aidMgr l with
      | none => (m, false)
      | some v =>
        if assocId < v.startAid ∨ assocId ≥ v.maxAid then (m, false)
        else if v.aidBitmap ix then (m, false)
        else (m.onLink l (·.setBit ix), true)

/-- `wlan_mlo_peer_free_aid`. -/
def wlanMloPeerFreeAid (m : WlanMlVdevAidMgr lastVdev) (linkIx : Option (Fin (lastVdev + 1)))
    (assocId : ℕ) : WlanMlVdevAidMgr lastVdev :=
  let ix := aidIx assocId
  if m.aidBitmap ix then (m.clearBit ix).onLinks (·.clearBit ix)
  else match linkIx with
    | none => m
    | some l => m.onLink l (·.clearBit ix)

/-! ## What a search finds -/

/-- The AID of the bit is free for such a peer. -/
def Free (m : WlanMlVdevAidMgr lastVdev) (kind : PeerKind lastVdev) (ix : ℕ) : Prop :=
  m.aidBitmap ix = false ∧
    match kind with
    | .mlo => ∀ l, m.testLink l ix = false
    | .link l => ∃ v, m.aidMgr l = some v ∧ v.aidBitmap ix = false

/-- The bit marked for such a peer. -/
def take (m : WlanMlVdevAidMgr lastVdev) (kind : PeerKind lastVdev) (ix : ℕ) :
    WlanMlVdevAidMgr lastVdev :=
  match kind with
  | .mlo => (mloPeerSetAidBit m ix).setBit ix
  | .link l => m.onLink l (·.setBit ix)

variable {m m' : WlanMlVdevAidMgr lastVdev} {kind : PeerKind lastVdev}
  {r : WlanMlVdevAidMgr lastVdev × ℕ} {startIdx endIdx ix bound assocId firstAid fuel : ℕ}

/-- The outcome of a search: the AID of a free bit not above the bound, marked, or the
    bitmaps as they were if none of the bits `among` is free. -/
def Finds (m : WlanMlVdevAidMgr lastVdev) (kind : PeerKind lastVdev) (bound : ℕ)
    (among : ℕ → Prop) (r : WlanMlVdevAidMgr lastVdev × ℕ) : Prop :=
  (∃ ix ≤ bound, Free m kind ix ∧ r = (take m kind ix, ix + 1)) ∨
    (r = (m, INVALID_AID) ∧ ∀ ix, among ix → ¬ Free m kind ix)

theorem Finds.mono {among among' : ℕ → Prop} (h : Finds m kind bound among r)
    (hsub : ∀ ix, among' ix → Free m kind ix → among ix) : Finds m kind bound among' r := by
  rcases h with h | ⟨hr, hnone⟩
  · exact .inl h
  · exact .inr ⟨hr, fun ix hix hfree => hnone ix (hsub ix hix hfree) hfree⟩

/-- A search that had a free bit among its bits found one. -/
theorem Finds.found {among among' : ℕ → Prop} (h : Finds m kind bound among r)
    (hix : among ix) (hfree : Free m kind ix) : Finds m kind bound among' r := by
  rcases h with h | ⟨-, hnone⟩
  · exact .inl h
  · exact absurd hfree (hnone ix hix)

theorem checkAidFree_init (m : WlanMlVdevAidMgr lastVdev) (ix : ℕ) :
    ∀ js : List (Fin (lastVdev + 1)), (∀ j ∈ js, j ≠ Fin.last lastVdev) →
      (checkAidFree m ix none (js ++ [Fin.last lastVdev]) = true ↔
        ∀ l ∈ js ++ [Fin.last lastVdev], m.testLink l ix = false) := by
  intro js hjs
  induction js with
  | nil => simp [checkAidFree]
  | cons j js ih =>
    have hj : j ≠ Fin.last lastVdev := hjs j List.mem_cons_self
    have ih := ih fun j' hj' => hjs j' (List.mem_cons_of_mem _ hj')
    by_cases ht : m.testLink j ix <;> simp [checkAidFree, ht, hj, ih]

/-- With no link skipped, the check is that no link has the bit. -/
theorem wlanMloCheckAidFree_none (m : WlanMlVdevAidMgr lastVdev) (ix : ℕ) :
    wlanMloCheckAidFree m ix none = true ↔ ∀ l, m.testLink l ix = false := by
  unfold wlanMloCheckAidFree
  have hmem : ∀ l, l ∈ (List.finRange lastVdev).map Fin.castSucc ++ [Fin.last lastVdev] :=
    fun l => List.finRange_succ_last (n := lastVdev) ▸ List.mem_finRange l
  rw [List.finRange_succ_last, checkAidFree_init]
  · exact ⟨fun h l => h l (hmem l), fun h l _ => h l⟩
  · intro j hj
    obtain ⟨i, -, rfl⟩ := List.mem_map.mp hj
    exact Fin.castSucc_ne_last i

/-- The bits the loop has ahead of it at `i`. -/
def Ahead (startIdx endIdx i ix : ℕ) : Prop :=
  if startIdx < endIdx then i ≤ ix ∧ ix < endIdx else endIdx ≤ ix ∧ ix ≤ i

/-- What follows the loop of `wlan_mlo_alloc_aid`. -/
def afterLoop (kind : PeerKind lastVdev) :
    WlanMlVdevAidMgr lastVdev × ℕ × ℕ → WlanMlVdevAidMgr lastVdev × ℕ
  | (m', assocId, firstAid) => match kind with
    | .mlo => (m', assocId)
    | .link linkIx =>
      if firstAid = 0 then (m', assocId)
      else (m'.onLink linkIx (·.setBit (firstAid - 1)), firstAid)

theorem wlanMloAllocAid_eq :
    wlanMloAllocAid m startIdx endIdx kind =
      (allocLoop m startIdx endIdx kind (startIdx + endIdx + 2) startIdx 0).map
        (afterLoop kind) := by
  unfold wlanMloAllocAid
  cases allocLoop m startIdx endIdx kind (startIdx + endIdx + 2) startIdx 0 with
  | none => rfl
  | some r =>
    cases kind with
    | mlo => rfl
    | link l => by_cases hf : r.2.2 = 0 <;> simp [afterLoop, hf]

/-- The candidate that is taken when no better one comes. -/
def Candidate (m : WlanMlVdevAidMgr lastVdev) (kind : PeerKind lastVdev) (bound firstAid : ℕ) :
    Prop :=
  firstAid ≠ 0 → kind ≠ .mlo ∧ Free m kind (firstAid - 1) ∧ firstAid - 1 ≤ bound

/-- A loop that ends without a better bit takes the candidate. -/
theorem finds_afterLoop (hc : Candidate m kind bound firstAid) {among : ℕ → Prop}
    (hnone : ∀ ix, among ix → ¬ Free m kind ix) :
    Finds m kind bound (fun ix => among ix ∨ ix + 1 = firstAid)
      (afterLoop kind (m, INVALID_AID, firstAid)) := by
  by_cases hf : firstAid = 0
  · subst hf
    refine .inr ⟨by cases kind <;> rfl, fun ix hix => hnone ix ?_⟩
    exact hix.resolve_right (by omega)
  · obtain ⟨hkind, hfree, hle⟩ := hc hf
    refine .inl ⟨firstAid - 1, hle, hfree, ?_⟩
    cases kind with
    | mlo => exact absurd rfl hkind
    | link l => simp [afterLoop, hf, take, Nat.sub_add_cancel (Nat.pos_of_ne_zero hf)]

/-- The step to the next index leaves one bit behind. -/
theorem ahead_update {i j : ℕ} (hu : wlanMloAidIdxUpdate startIdx endIdx i = some j)
    (hix : Ahead startIdx endIdx i ix) :
    ix = i ∨ Ahead startIdx endIdx j ix := by
  unfold wlanMloAidIdxUpdate at hu
  unfold Ahead at *
  split at hu <;> rename_i hlt
  · cases hu
    simp only [hlt, ↓reduceIte] at hix ⊢
    omega
  · split at hu
    · cases hu
    · cases hu
      simp only [hlt, ↓reduceIte] at hix ⊢
      omega

/-- A bit ahead of the next index is ahead of this one. -/
theorem ahead_of_update {i j : ℕ} (hu : wlanMloAidIdxUpdate startIdx endIdx i = some j)
    (hix : Ahead startIdx endIdx j ix) : Ahead startIdx endIdx i ix := by
  unfold wlanMloAidIdxUpdate at hu
  unfold Ahead at *
  split at hu <;> rename_i hlt
  · cases hu
    simp only [hlt, ↓reduceIte] at hix ⊢
    omega
  · split at hu <;> cases hu
    simp only [hlt, ↓reduceIte] at hix ⊢
    omega

theorem ahead_self {i : ℕ} (hi : wlanMloAidIdxCheck startIdx endIdx i = true) :
    Ahead startIdx endIdx i i := by
  unfold wlanMloAidIdxCheck at hi
  unfold Ahead
  split at hi <;> rename_i hlt <;> simpa [hlt] using hi

theorem ahead_last {i : ℕ} (hu : wlanMloAidIdxUpdate startIdx endIdx i = none)
    (hix : Ahead startIdx endIdx i ix) : ix = i := by
  unfold wlanMloAidIdxUpdate at hu
  unfold Ahead at hix
  split at hu <;> rename_i hlt
  · cases hu
  · split at hu
    · simp only [hlt, ↓reduceIte] at hix
      omega
    · cases hu

theorem not_ahead {i : ℕ} (hi : wlanMloAidIdxCheck startIdx endIdx i = false) :
    ¬ Ahead startIdx endIdx i ix := by
  unfold wlanMloAidIdxCheck at hi
  unfold Ahead
  split at hi <;> simp at hi <;> split <;> omega

theorem update_le {i j : ℕ} (hi : wlanMloAidIdxCheck startIdx endIdx i = true)
    (hu : wlanMloAidIdxUpdate startIdx endIdx i = some j)
    (hb : i ≤ bound) (he : endIdx ≤ bound) : j ≤ bound := by
  unfold wlanMloAidIdxCheck at hi
  unfold wlanMloAidIdxUpdate at hu
  split at hu <;> rename_i hlt
  · cases hu
    simp only [hlt, ↓reduceIte, decide_eq_true_eq] at hi
    omega
  · split at hu <;> cases hu
    omega

/-- What the loop still does once the bit at hand is left behind: the candidate stays. -/
theorem finds_next {i : ℕ} {next : Option (WlanMlVdevAidMgr lastVdev × ℕ × ℕ)}
    {l : WlanMlVdevAidMgr lastVdev × ℕ × ℕ}
    (hnext : next = match wlanMloAidIdxUpdate startIdx endIdx i with
      | none => some (m, INVALID_AID, firstAid)
      | some j => allocLoop m startIdx endIdx kind fuel j firstAid)
    (hc : Candidate m kind bound firstAid) (hi : wlanMloAidIdxCheck startIdx endIdx i = true)
    (hb : i ≤ bound) (he : endIdx ≤ bound) (hl : next = some l)
    (ih : ∀ j, j ≤ bound → allocLoop m startIdx endIdx kind fuel j firstAid = some l →
      Finds m kind bound (fun ix => Ahead startIdx endIdx j ix ∨ ix + 1 = firstAid)
        (afterLoop kind l)) :
    Finds m kind bound
      (fun ix => (Ahead startIdx endIdx i ix ∧ ix ≠ i) ∨ ix + 1 = firstAid) (afterLoop kind l) := by
  subst hnext
  cases hu : wlanMloAidIdxUpdate startIdx endIdx i with
  | none =>
    simp only [hu, Option.some.injEq] at hl
    subst hl
    exact finds_afterLoop hc fun ix ⟨hix, hne⟩ => absurd (ahead_last hu hix) hne
  | some j =>
    rw [hu] at hl
    refine (ih j (update_le hi hu hb he) hl).mono fun ix hix _ => ?_
    exact hix.imp (fun ⟨hix, hne⟩ => (ahead_update hu hix).resolve_left hne) id

/-- The loop finds a free bit of those ahead of it, or falls back on its candidate. -/
theorem allocLoop_finds (he : endIdx ≤ bound) {l : WlanMlVdevAidMgr lastVdev × ℕ × ℕ} {i : ℕ}
    (hc : Candidate m kind bound firstAid) (hb : i ≤ bound)
    (hl : allocLoop m startIdx endIdx kind fuel i firstAid = some l) :
    Finds m kind bound (fun ix => Ahead startIdx endIdx i ix ∨ ix + 1 = firstAid)
      (afterLoop kind l) := by
  induction fuel generalizing i firstAid with
  | zero => cases hl
  | succ fuel ih =>
    unfold allocLoop at hl
    extract_lets next at hl
    -- the bit at hand is left behind: it is not free, or there is a candidate
    have skip : ∀ firstAid', Candidate m kind bound firstAid' → next firstAid' = some l →
        (Free m kind i → firstAid' ≠ 0) → (firstAid ≠ 0 → firstAid' = firstAid) →
        wlanMloAidIdxCheck startIdx endIdx i = true →
        Finds m kind bound (fun ix => Ahead startIdx endIdx i ix ∨ ix + 1 = firstAid)
          (afterLoop kind l) := by
      intro firstAid' hc' hl' hnot hkeep hi
      have hfinds := finds_next rfl hc' hi hb he hl' fun j hj => ih hc' hj
      by_cases hf : firstAid' = 0
      · refine hfinds.mono fun ix hix hfree => ?_
        rcases hix with hix | rfl
        · exact .inl ⟨hix, fun hne => hnot (hne ▸ hfree) hf⟩
        · exact absurd (hkeep (Nat.succ_ne_zero ix)) (by omega)
      · exact hfinds.found (.inr (Nat.sub_add_cancel (Nat.pos_of_ne_zero hf))) (hc' hf).2.1
    split at hl <;> rename_i hi
    · cases hl
      exact finds_afterLoop hc fun ix hix => absurd hix (not_ahead hi)
    rw [Bool.not_eq_false] at hi
    split at hl <;> rename_i hml
    · exact skip _ hc hl (fun h => by simp [h.1] at hml) (fun _ => rfl) hi
    rw [Bool.not_eq_true] at hml
    cases kind with
    | mlo =>
      dsimp only at hl
      split at hl <;> rename_i hfree
      · cases hl
        exact .inl ⟨i, hb, ⟨hml, (wlanMloCheckAidFree_none m i).mp hfree⟩, rfl⟩
      · refine skip _ hc hl (fun h => absurd ?_ hfree) (fun _ => rfl) hi
        exact (wlanMloCheckAidFree_none m i).mpr h.2
    | link linkIx =>
      dsimp only at hl
      split at hl <;> rename_i hv
      · cases hl
        refine finds_afterLoop hc fun ix _ hfree => ?_
        obtain ⟨v, hv', -⟩ := hfree.2
        simp [hv] at hv'
      rename_i v
      split at hl <;> rename_i hbit
      · refine skip _ hc hl (fun h => ?_) (fun _ => rfl) hi
        obtain ⟨v', hv', hbit'⟩ := h.2
        rw [hv, Option.some.injEq] at hv'
        simp [← hv', hbit] at hbit'
      rw [Bool.not_eq_true] at hbit
      have hfree : Free m (.link linkIx) i := ⟨hml, v, hv, hbit⟩
      split at hl
      · cases hl
        exact .inl ⟨i, hb, hfree, rfl⟩
      · change next (if firstAid = 0 then i + 1 else firstAid) = some l at hl
        by_cases hf : firstAid = 0
        · rw [if_pos hf] at hl
          exact skip (i + 1) (fun _ => ⟨nofun, hfree, hb⟩) hl (fun _ => Nat.succ_ne_zero i)
            (absurd hf) hi
        · rw [if_neg hf] at hl
          exact skip _ hc hl (fun _ => hf) (fun _ => rfl) hi

/-- The turns of the loop that are left at `i`. -/
def turns (startIdx endIdx i : ℕ) : ℕ :=
  if startIdx < endIdx then endIdx - i else i + 1

/-- The loop ends: each turn leaves one index behind. -/
theorem allocLoop_isSome {i : ℕ} (hfuel : turns startIdx endIdx i < fuel) :
    (allocLoop m startIdx endIdx kind fuel i firstAid).isSome := by
  induction fuel generalizing i firstAid with
  | zero => omega
  | succ fuel ih =>
    unfold allocLoop
    extract_lets next
    have skip : wlanMloAidIdxCheck startIdx endIdx i = true → ∀ f, (next f).isSome := by
      intro hi f
      have hnext : ∀ j, wlanMloAidIdxUpdate startIdx endIdx i = some j →
          turns startIdx endIdx j < fuel := by
        intro j hu
        unfold wlanMloAidIdxCheck at hi
        unfold wlanMloAidIdxUpdate at hu
        unfold turns at *
        split at hu <;> rename_i hlt
        · cases hu
          simp only [hlt, ↓reduceIte, decide_eq_true_eq] at *
          omega
        · split at hu <;> cases hu
          simp only [hlt, ↓reduceIte] at *
          omega
      change (match wlanMloAidIdxUpdate startIdx endIdx i with
        | none => some (m, INVALID_AID, f)
        | some ix => allocLoop m startIdx endIdx kind fuel ix f).isSome
      cases hu : wlanMloAidIdxUpdate startIdx endIdx i with
      | none => rfl
      | some j => exact ih (hnext j hu)
    split
    · rfl
    · rename_i hi
      rw [Bool.not_eq_false] at hi
      split
      · exact skip hi _
      · cases kind with
        | mlo =>
          dsimp only
          split
          · rfl
          · exact skip hi _
        | link l =>
          dsimp only
          split
          · rfl
          · split
            · exact skip hi _
            · split
              · rfl
              · exact skip hi _

/-- A search of one range ends, and finds a free AID of the range if there is one. -/
theorem wlanMloAllocAid_finds (m : WlanMlVdevAidMgr lastVdev) (kind : PeerKind lastVdev)
    (hs : startIdx ≤ bound) (he : endIdx ≤ bound) :
    ∃ r, wlanMloAllocAid m startIdx endIdx kind = some r ∧
      Finds m kind bound (Ahead startIdx endIdx startIdx) r := by
  have hfuel : turns startIdx endIdx startIdx < startIdx + endIdx + 2 := by
    unfold turns
    split <;> omega
  have hsome : (allocLoop m startIdx endIdx kind (startIdx + endIdx + 2) startIdx 0).isSome :=
    allocLoop_isSome hfuel
  obtain ⟨l, hl⟩ := Option.isSome_iff_exists.mp hsome
  refine ⟨afterLoop kind l, by rw [wlanMloAllocAid_eq, hl]; rfl, ?_⟩
  exact (allocLoop_finds he (absurd rfl) hs hl).mono fun ix hix _ => .inl hix

/-- A search of the ranges in turn finds a free AID if one of them has one. -/
theorem allocInTurn_finds (m : WlanMlVdevAidMgr lastVdev) (kind : PeerKind lastVdev)
    (ranges : List (ℕ × ℕ)) (hr : ∀ p ∈ ranges, p.1 ≤ bound ∧ p.2 ≤ bound)
    (hbound : bound + 1 < INVALID_AID) :
    ∃ r, allocInTurn m kind ranges = some r ∧
      Finds m kind bound (fun ix => ∃ p ∈ ranges, Ahead p.1 p.2 p.1 ix) r := by
  induction ranges with
  | nil => exact ⟨_, rfl, .inr ⟨rfl, fun ix ⟨p, hp, _⟩ => absurd hp List.not_mem_nil⟩⟩
  | cons p rest ih =>
    obtain ⟨hs, he⟩ := hr p List.mem_cons_self
    obtain ⟨⟨m', assocId⟩, halloc, hfinds⟩ := wlanMloAllocAid_finds m kind hs he
    unfold allocInTurn
    simp only [halloc]
    rcases hfinds with ⟨ix, hix, hfree, hr'⟩ | ⟨hr', hnone⟩
    · cases hr'
      exact ⟨_, if_pos (by omega), .inl ⟨ix, hix, hfree, rfl⟩⟩
    · cases hr'
      obtain ⟨r, hrest, hfinds⟩ := ih fun p hp => hr p (List.mem_cons_of_mem _ hp)
      refine ⟨r, by simpa using hrest, hfinds.mono fun ix ⟨p', hp', hix⟩ hfree => ?_⟩
      rcases List.mem_cons.mp hp' with rfl | hp'
      · exact absurd hfree (hnone ix hix)
      · exact ⟨p', hp', hix⟩

/-- The ranges that are searched in turn, for either kind of peer. -/
def searched (startAid maxAid : ℕ) (t2lmPeer : Bool) : List (ℕ × ℕ) :=
  let pool := (maxAid - startAid) / AID_NUM_BUCKET
  if t2lmPeer then
    [(pool + startAid, pool + pool + startAid), (pool + pool + startAid, maxAid),
      (pool + startAid, startAid)]
  else
    [(startAid, pool + startAid), (pool + pool + startAid, maxAid),
      (pool + pool + startAid, pool + startAid)]

theorem peerAllocAidIn_eq {startAid maxAid : ℕ} (hle : startAid ≤ maxAid) (t2lmPeer : Bool) :
    peerAllocAidIn m startAid maxAid t2lmPeer kind =
      allocInTurn m kind (searched startAid maxAid t2lmPeer) := by
  unfold peerAllocAidIn searched
  extract_lets pool end1 end2
  have h1 : startAid ≤ end1 := Nat.le_add_left _ _
  have h2 : end1 ≤ end2 := Nat.add_le_add_right (Nat.le_add_left _ _) _
  rw [if_neg (not_lt.2 hle), if_neg (by omega)]
  cases t2lmPeer <;> rfl

/-- The ranges stay below the highest AID, and together they have every bit of the range. -/
theorem searched_spec {startAid maxAid : ℕ} (hle : startAid ≤ maxAid) (t2lmPeer : Bool) :
    (∀ p ∈ searched startAid maxAid t2lmPeer, p.1 ≤ maxAid ∧ p.2 ≤ maxAid) ∧
      ∀ ix, startAid ≤ ix → ix < maxAid →
        ∃ p ∈ searched startAid maxAid t2lmPeer, Ahead p.1 p.2 p.1 ix := by
  unfold searched
  extract_lets pool
  have hpool : pool * 3 ≤ maxAid - startAid := Nat.div_mul_le_self _ _
  generalize pool = p at *
  cases t2lmPeer <;>
    simp only [if_true, Bool.false_eq_true, if_false, List.mem_cons, List.not_mem_nil, or_false,
      forall_eq_or_imp, forall_eq, exists_eq_or_imp, exists_eq_left, Ahead]
  all_goals
    refine ⟨by omega, fun ix h₁ h₂ => ?_⟩
    rcases Nat.eq_zero_or_pos p with rfl | hpos
    · have hroom : startAid < maxAid := Nat.lt_of_le_of_lt h₁ h₂
      simp [hroom, h₁, h₂]
    · have hbelow : startAid < p + startAid := Nat.lt_add_of_pos_left hpos
      have hup : p + startAid < p + p + startAid := by omega
      have hroom : p + p + startAid < maxAid := by omega
      simp only [hbelow, hup, hroom, Nat.not_lt.2 (Nat.le_of_lt hbelow),
        Nat.not_lt.2 (Nat.le_of_lt hup), if_true, if_false]
      omega

end Sm8850.Mlo
