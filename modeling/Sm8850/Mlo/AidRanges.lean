/-
  The range of the association IDs that multi-link peers get.

  Each link has a range of its own, and the multi-link device one that is derived from
  them: its start whenever a link's start is set, its end whenever a link's end is.

  * `Ranges` is what `wlan_vdev_mlme_set_start_aid` and
    `wlan_vdev_mlme_aid_mgr_max_aid_set` work on; the bitmaps are in the manager of
    `Aid`, whose calls take the range here, as it may pass the end of a bitmap;
  * `Reachable` are the ranges after any calls, and `Ranges.Inv` what holds of them: the
    device starts no lower than any link.  Nothing like it holds of the end;
  * **`aidRanges_iff`**: when the AIDs handed out are in the range of every link, and
    when the AIDs that can be set are the free ones of the range.
-/
import Sm8850.Mlo.Aid

namespace Sm8850.Mlo

open WlanMlVdevAidMgr

variable {lastVdev : ℕ}

/-! ## Ranges -/

/-- `start_aid` and `max_aid` of a manager: the AIDs above the one, up to the other. -/
structure AidRange where
  startAid : ℕ
  maxAid : ℕ

/-- The AID is one of the range. -/
def AidRange.Has (r : AidRange) (assocId : ℕ) : Prop :=
  r.startAid < assocId ∧ assocId ≤ r.maxAid

/-- The range is in order, and the bitmap has its bits. -/
def AidRange.Ordered (r : AidRange) : Prop :=
  r.startAid ≤ r.maxAid ∧ r.maxAid ≤ WLAN_UMAC_MAX_AID

/-- The range of the multi-link device, and of each link that has a manager. -/
structure Ranges (lastVdev : ℕ) where
  ml : AidRange
  aidMgr : Fin (lastVdev + 1) → Option AidRange

/-- The AID is in the range of the device and of every link. -/
def Ranges.Within (ρ : Ranges lastVdev) (assocId : ℕ) : Prop :=
  ρ.ml.Has assocId ∧ ∀ l r, ρ.aidMgr l = some r → r.Has assocId

/-- As `wlan_mlo_vdev_aid_mgr_init` leaves them, with a manager on the links given. -/
def Ranges.init (managed : Fin (lastVdev + 1) → Bool) : Ranges lastVdev where
  ml := ⟨0, WLAN_UMAC_MAX_AID⟩
  aidMgr j := if managed j then some ⟨0, WLAN_UMAC_MAX_AID⟩ else none

/-- One turn of the loop of `wlan_vdev_mlme_set_start_aid`. -/
def higherStart (maxAidStart : ℕ) : Option AidRange → ℕ
  | none => maxAidStart
  | some r => if maxAidStart < r.startAid then r.startAid else maxAidStart

/-- `wlan_vdev_mlme_set_start_aid` for the link, if it has a manager. -/
def wlanVdevMlmeSetStartAid (ρ : Ranges lastVdev) (link : Fin (lastVdev + 1)) (startAid : ℕ) :
    Ranges lastVdev :=
  match ρ.aidMgr link with
  | none => ρ
  | some r =>
    let aidMgr := Function.update ρ.aidMgr link (some { r with startAid })
    { ml := { ρ.ml with
        startAid := (List.finRange (lastVdev + 1)).foldl (fun s j => higherStart s (aidMgr j)) 0 }
      aidMgr }

/-- One turn of the loop of `wlan_vdev_mlme_aid_mgr_max_aid_set`.  A count of zero is taken
    for no count yet. -/
def lowerCount (maxStaCount : ℕ) : Option AidRange → ℕ
  | none => maxStaCount
  | some r =>
    let aidmgrStaCount := (r.maxAid + 2 ^ 16 - r.startAid) % 2 ^ 16
    if maxStaCount = 0 then aidmgrStaCount
    else if maxStaCount > aidmgrStaCount then aidmgrStaCount else maxStaCount

/-- `wlan_vdev_mlme_aid_mgr_max_aid_set` for the link, if it has a manager. -/
def wlanVdevMlmeAidMgrMaxAidSet (ρ : Ranges lastVdev) (link : Fin (lastVdev + 1)) (maxAid : ℕ) :
    Ranges lastVdev :=
  match ρ.aidMgr link with
  | none => ρ
  | some r =>
    if maxAid = 0 then ρ
    else
      let aidMgr := Function.update ρ.aidMgr link (some { r with maxAid })
      let count :=
        (List.finRange (lastVdev + 1)).foldl (fun s j => lowerCount s (aidMgr j)) 0
      { ml := { ρ.ml with maxAid := (ρ.ml.startAid + count) % 2 ^ 16 }, aidMgr }

/-- The range of every link is in order. -/
def Ranges.LinksOrdered (ρ : Ranges lastVdev) : Prop :=
  ∀ l r, ρ.aidMgr l = some r → r.Ordered

/-- The ranges after any calls that keep each link's range in order. -/
inductive Ranges.Reachable : Ranges lastVdev → Prop where
  | init (managed : Fin (lastVdev + 1) → Bool) : Reachable (.init managed)
  | setStart {ρ : Ranges lastVdev} (link : Fin (lastVdev + 1)) (startAid : ℕ) :
      Reachable ρ → (wlanVdevMlmeSetStartAid ρ link startAid).LinksOrdered →
      Reachable (wlanVdevMlmeSetStartAid ρ link startAid)
  | setMax {ρ : Ranges lastVdev} (link : Fin (lastVdev + 1)) (maxAid : ℕ) :
      Reachable ρ → (wlanVdevMlmeAidMgrMaxAidSet ρ link maxAid).LinksOrdered →
      Reachable (wlanVdevMlmeAidMgrMaxAidSet ρ link maxAid)

/-! ## Invariant -/

/-- What the calls keep: the device starts no lower than any link, and its AIDs fit in the
    14 bits of one. -/
structure Ranges.Inv (ρ : Ranges lastVdev) : Prop where
  links : ρ.LinksOrdered
  start_le : ∀ l r, ρ.aidMgr l = some r → r.startAid ≤ ρ.ml.startAid
  startAid_le : ρ.ml.startAid ≤ WLAN_UMAC_MAX_AID
  maxAid_le : ρ.ml.maxAid ≤ 2 * WLAN_UMAC_MAX_AID

/-- The start the loop derives is that of no link surpassed, and no higher than needed. -/
theorem higherStart_fold (aidMgr : Fin (lastVdev + 1) → Option AidRange) {bound : ℕ}
    (hbound : ∀ l r, aidMgr l = some r → r.startAid ≤ bound) (js : List (Fin (lastVdev + 1)))
    {s : ℕ} (hs : s ≤ bound) :
    let s' := js.foldl (fun s j => higherStart s (aidMgr j)) s
    s ≤ s' ∧ s' ≤ bound ∧ ∀ j ∈ js, ∀ r, aidMgr j = some r → r.startAid ≤ s' := by
  induction js generalizing s with
  | nil => exact ⟨le_rfl, hs, fun j hj => absurd hj List.not_mem_nil⟩
  | cons j js ih =>
    have hturn : s ≤ higherStart s (aidMgr j) ∧ higherStart s (aidMgr j) ≤ bound ∧
        ∀ r, aidMgr j = some r → r.startAid ≤ higherStart s (aidMgr j) := by
      cases hj : aidMgr j with
      | none => exact ⟨le_rfl, hs, fun r hr => nomatch hr⟩
      | some r =>
        have hr := hbound j r hj
        simp only [higherStart, Option.some.injEq, forall_eq']
        split <;> omega
    obtain ⟨hge, hle, hmem⟩ := ih hturn.2.1
    refine ⟨hturn.1.trans hge, hle, fun j' hj' r hr => ?_⟩
    rcases List.mem_cons.mp hj' with rfl | hj'
    · exact (hturn.2.2 r hr).trans hge
    · exact hmem j' hj' r hr

/-- The count the loop derives is no higher than the highest AID. -/
theorem lowerCount_fold (aidMgr : Fin (lastVdev + 1) → Option AidRange)
    (ho : ∀ l r, aidMgr l = some r → r.Ordered) (js : List (Fin (lastVdev + 1)))
    {s : ℕ} (hs : s ≤ WLAN_UMAC_MAX_AID) :
    js.foldl (fun s j => lowerCount s (aidMgr j)) s ≤ WLAN_UMAC_MAX_AID := by
  induction js generalizing s with
  | nil => exact hs
  | cons j js ih =>
    have hturn : lowerCount s (aidMgr j) ≤ WLAN_UMAC_MAX_AID := by
      cases hj : aidMgr j with
      | none => exact hs
      | some r =>
        obtain ⟨hr, hmax⟩ := ho j r hj
        unfold WLAN_UMAC_MAX_AID at *
        simp only [lowerCount]
        split_ifs <;> omega
    exact ih hturn

theorem Ranges.inv_init (managed : Fin (lastVdev + 1) → Bool) : (Ranges.init managed).Inv := by
  have hlink : ∀ l r, (Ranges.init managed).aidMgr l = some r → r = ⟨0, WLAN_UMAC_MAX_AID⟩ := by
    intro l r hr
    simp only [Ranges.init, Option.ite_none_right_eq_some, Option.some.injEq] at hr
    exact hr.2.symm
  refine ⟨fun l r hr => ?_, fun l r hr => ?_, Nat.zero_le _, Nat.le_mul_of_pos_left _ (by decide)⟩
  · rw [hlink l r hr]
    exact ⟨Nat.zero_le _, le_rfl⟩
  · rw [hlink l r hr]
    exact le_rfl

theorem Ranges.Inv.setStart {ρ : Ranges lastVdev} (hi : ρ.Inv) {link : Fin (lastVdev + 1)}
    {startAid : ℕ} (ho : (wlanVdevMlmeSetStartAid ρ link startAid).LinksOrdered) :
    (wlanVdevMlmeSetStartAid ρ link startAid).Inv := by
  unfold wlanVdevMlmeSetStartAid at *
  cases hr : ρ.aidMgr link with
  | none => exact hi
  | some r =>
    simp only [hr] at ho ⊢
    obtain ⟨-, hle, hmem⟩ := higherStart_fold _ (fun l r hl => (ho l r hl).1.trans (ho l r hl).2)
      (List.finRange (lastVdev + 1)) (Nat.zero_le WLAN_UMAC_MAX_AID)
    exact ⟨ho, fun l r hl => hmem l (List.mem_finRange l) r hl, hle, hi.maxAid_le⟩

theorem Ranges.Inv.setMax {ρ : Ranges lastVdev} (hi : ρ.Inv) {link : Fin (lastVdev + 1)}
    {maxAid : ℕ} (ho : (wlanVdevMlmeAidMgrMaxAidSet ρ link maxAid).LinksOrdered) :
    (wlanVdevMlmeAidMgrMaxAidSet ρ link maxAid).Inv := by
  unfold wlanVdevMlmeAidMgrMaxAidSet at *
  cases hr : ρ.aidMgr link with
  | none => exact hi
  | some r =>
    simp only [hr] at ho ⊢
    split_ifs at ho ⊢
    · exact hi
    · refine ⟨ho, fun l r' hl => ?_, hi.startAid_le, ?_⟩
      · -- no start moves
        dsimp only at hl ⊢
        by_cases hlink : l = link
        · subst hlink
          rw [Function.update_self] at hl
          cases hl
          exact hi.start_le l r hr
        · rw [Function.update_of_ne hlink] at hl
          exact hi.start_le l r' hl
      · have hcount := lowerCount_fold _ ho (List.finRange (lastVdev + 1))
          (Nat.zero_le WLAN_UMAC_MAX_AID)
        refine (Nat.mod_le _ _).trans ?_
        rw [Nat.two_mul]
        exact Nat.add_le_add hi.startAid_le hcount

theorem Ranges.Reachable.inv {ρ : Ranges lastVdev} (h : ρ.Reachable) : ρ.Inv := by
  induction h with
  | init managed => exact inv_init managed
  | setStart link startAid _ ho ih => exact ih.setStart ho
  | setMax link maxAid _ ho ih => exact ih.setMax ho

/-! ## Allocation and setting in a range -/

/-- `wlan_mlo_peer_set_aid` for a multi-link peer, with the range of the manager given. -/
def peerSetAidIn (m : WlanMlVdevAidMgr lastVdev) (range : AidRange) (assocId : ℕ) :
    WlanMlVdevAidMgr lastVdev × Bool :=
  let ix := aidIx assocId
  if m.aidBitmap ix then (m, false)
  else if assocId < range.startAid ∨ assocId ≥ range.maxAid then (m, false)
  else if (List.finRange (lastVdev + 1)).any (m.testLink · ix) then (m, false)
  else ((mloPeerSetAidBit m ix).setBit ix, true)

theorem wlanMloPeerSetAid_eq (m : WlanMlVdevAidMgr lastVdev) (linkIx : Option (Fin (lastVdev + 1)))
    (assocId : ℕ) :
    wlanMloPeerSetAid m true linkIx assocId = peerSetAidIn m ⟨m.startAid, m.maxAid⟩ assocId := by
  simp [wlanMloPeerSetAid, peerSetAidIn]

variable {m m' : WlanMlVdevAidMgr lastVdev} {range : AidRange} {startIdx endIdx fuel i firstAid
  firstAid' assocId ix : ℕ}

/-- An AID is set that is free and whose number, not whose bit, is between the bounds. -/
theorem peerSetAidIn_iff :
    (peerSetAidIn m range assocId).2 = true ↔
      Free m .mlo (aidIx assocId) ∧ range.startAid ≤ assocId ∧ assocId < range.maxAid := by
  have hany : (List.finRange (lastVdev + 1)).any (m.testLink · (aidIx assocId)) = false ↔
      ∀ l, m.testLink l (aidIx assocId) = false := by
    simp
  unfold peerSetAidIn Free
  dsimp only
  rw [← hany]
  split_ifs with hml hrange hlink
  · simp [hml]
  · simp only [false_iff]
    omega
  · simp [hlink]
  · simp only [Bool.not_eq_true] at hml hlink
    simp only [hml, hlink, true_iff, true_and]
    omega

/-- The loop, for a multi-link peer, takes one of the bits ahead of it. -/
theorem allocLoop_ahead
    (hl : allocLoop m startIdx endIdx .mlo fuel i firstAid = some (m', assocId, firstAid')) :
    assocId = INVALID_AID ∨ ∃ ix, Ahead startIdx endIdx i ix ∧ assocId = ix + 1 := by
  induction fuel generalizing i with
  | zero => cases hl
  | succ fuel ih =>
    unfold allocLoop at hl
    extract_lets next at hl
    have skip (hnext : next firstAid = some (m', assocId, firstAid')) :
        assocId = INVALID_AID ∨ ∃ ix, Ahead startIdx endIdx i ix ∧ assocId = ix + 1 := by
      simp only [next] at hnext
      cases hu : wlanMloAidIdxUpdate startIdx endIdx i with
      | none =>
        rw [hu] at hnext
        cases hnext
        exact .inl rfl
      | some j =>
        rw [hu] at hnext
        rcases ih hnext with h | ⟨ix, hix, rfl⟩
        · exact .inl h
        · exact .inr ⟨ix, ahead_of_update hu hix, rfl⟩
    split at hl <;> rename_i hi
    · cases hl
      exact .inl rfl
    rw [Bool.not_eq_false] at hi
    split at hl
    · exact skip hl
    dsimp only at hl
    split at hl
    · cases hl
      exact .inr ⟨i, ahead_self hi, rfl⟩
    · exact skip hl

theorem wlanMloAllocAid_ahead
    (ha : wlanMloAllocAid m startIdx endIdx .mlo = some (m', assocId)) :
    assocId = INVALID_AID ∨ ∃ ix, Ahead startIdx endIdx startIdx ix ∧ assocId = ix + 1 := by
  rw [wlanMloAllocAid_eq] at ha
  obtain ⟨⟨m₁, a, f⟩, hl, hr⟩ := Option.map_eq_some_iff.mp ha
  cases hr
  exact allocLoop_ahead hl

theorem allocInTurn_ahead {ranges : List (ℕ × ℕ)}
    (ha : allocInTurn m .mlo ranges = some (m', assocId)) :
    assocId = INVALID_AID ∨ ∃ p ∈ ranges, ∃ ix, Ahead p.1 p.2 p.1 ix ∧ assocId = ix + 1 := by
  induction ranges generalizing m with
  | nil =>
    cases ha
    exact .inl rfl
  | cons p rest ih =>
    unfold allocInTurn at ha
    split at ha
    · cases ha
    rename_i m₁ a halloc
    split_ifs at ha with hne
    · cases ha
      obtain ⟨ix, hix, rfl⟩ := (wlanMloAllocAid_ahead halloc).resolve_left hne
      exact .inr ⟨p, List.mem_cons_self, ix, hix, rfl⟩
    · rcases ih ha with h | ⟨p', hp', hix⟩
      · exact .inl h
      · exact .inr ⟨p', List.mem_cons_of_mem _ hp', hix⟩

/-- The buckets have the bits of the range, and one bit even when the range is empty. -/
theorem searched_iff {startAid maxAid : ℕ} (hle : startAid ≤ maxAid) (t2lmPeer : Bool) :
    (∃ p ∈ searched startAid maxAid t2lmPeer, Ahead p.1 p.2 p.1 ix) ↔
      startAid ≤ ix ∧ (ix < maxAid ∨ ix = startAid) := by
  unfold searched
  extract_lets pool
  have hpool : pool * 3 ≤ maxAid - startAid := Nat.div_mul_le_self _ _
  have hrest : maxAid - startAid < pool * 3 + 3 := Nat.lt_div_mul_add (by decide)
  generalize pool = p at *
  cases t2lmPeer <;>
    simp only [if_true, Bool.false_eq_true, if_false, List.mem_cons, List.not_mem_nil, or_false,
      exists_eq_or_imp, exists_eq_left, Ahead]
  all_goals
    rcases Nat.eq_zero_or_pos p with rfl | hpos
    · -- fewer than three identifiers: the first buckets are empty
      simp only [Nat.zero_add, Nat.lt_irrefl, if_false]
      split_ifs <;> omega
    · have hbelow : ∀ a, a < p + a := fun a => Nat.lt_add_of_pos_left hpos
      have hroom : p + p + startAid < maxAid := by omega
      have hup : p + startAid < p + p + startAid := by omega
      simp only [hbelow, hroom, hup, Nat.not_lt.2 (Nat.le_of_lt (hbelow _)), if_true, if_false,
        Nat.not_lt.2 (Nat.le_of_lt hup)]
      omega

/-- What an allocation for a multi-link peer returns. -/
theorem peerAllocAidIn_spec (m : WlanMlVdevAidMgr lastVdev) (hle : range.startAid ≤ range.maxAid)
    (hbound : range.maxAid + 1 < INVALID_AID) (t2lmPeer : Bool) :
    ∃ m' assocId, peerAllocAidIn m range.startAid range.maxAid t2lmPeer .mlo = some (m', assocId) ∧
      ((∃ ix, assocId = ix + 1 ∧ Free m .mlo ix ∧ range.startAid ≤ ix ∧
          (ix < range.maxAid ∨ ix = range.startAid)) ∨
        assocId = INVALID_AID ∧ ∀ ix, range.startAid ≤ ix →
          ix < range.maxAid ∨ ix = range.startAid → ¬ Free m .mlo ix) := by
  rw [peerAllocAidIn_eq hle]
  obtain ⟨⟨m', a⟩, halloc, hfinds⟩ :=
    allocInTurn_finds m .mlo _ (searched_spec hle t2lmPeer).1 hbound
  refine ⟨m', a, halloc, ?_⟩
  rcases hfinds with ⟨ix, hix, hfree, hr⟩ | ⟨hr, hnone⟩
  · cases hr
    obtain ⟨p, hp, ix', hahead, heq⟩ := (allocInTurn_ahead halloc).resolve_left (by omega)
    cases Nat.succ.inj heq
    exact .inl ⟨ix, rfl, hfree, (searched_iff hle t2lmPeer).mp ⟨p, hp, hahead⟩⟩
  · cases hr
    exact .inr ⟨rfl, fun ix h₁ h₂ => hnone ix ((searched_iff hle t2lmPeer).mpr ⟨h₁, h₂⟩)⟩

/-! ## The ranges and the AIDs -/

/-- The manager is of the links that have a range. -/
def Fits (m : WlanMlVdevAidMgr lastVdev) (ρ : Ranges lastVdev) : Prop :=
  ∀ l, (m.aidMgr l).isSome = (ρ.aidMgr l).isSome

/-- An allocation for a multi-link peer fails or returns an AID within the ranges. -/
def AllocWithin (ρ : Ranges lastVdev) (m : WlanMlVdevAidMgr lastVdev) : Prop :=
  ∀ t2lmPeer, ∃ m' assocId,
    peerAllocAidIn m ρ.ml.startAid ρ.ml.maxAid t2lmPeer .mlo = some (m', assocId) ∧
      (assocId = INVALID_AID ∨ ρ.Within assocId)

/-- The AIDs a multi-link peer can set are the free ones within the ranges. -/
def SetExact (ρ : Ranges lastVdev) (m : WlanMlVdevAidMgr lastVdev) : Prop :=
  ∀ assocId < 2 ^ 16, (peerSetAidIn m ρ.ml assocId).2 = true ↔
    ρ.Within assocId ∧ Free m .mlo (assocId - 1)

/-- The manager of the ranges with these bits marked for multi-link peers. -/
def Ranges.marked (ρ : Ranges lastVdev) (aidBitmap : ℕ → Bool) : WlanMlVdevAidMgr lastVdev where
  aidBitmap
  startAid := 0
  maxAid := 0
  aidMgr j := (ρ.aidMgr j).map fun _ => ⟨fun _ => false, 0, 0, Nat.zero_le _⟩
  maxAid_le := Nat.zero_le _

theorem Ranges.fits_marked (ρ : Ranges lastVdev) (aidBitmap : ℕ → Bool) :
    Fits (ρ.marked aidBitmap) ρ :=
  fun _ => Option.isSome_map

theorem Ranges.free_marked {ρ : Ranges lastVdev} {aidBitmap : ℕ → Bool} :
    Free (ρ.marked aidBitmap) .mlo ix ↔ aidBitmap ix = false := by
  have hlink : ∀ l, (ρ.marked aidBitmap).testLink l ix = false := by
    intro l
    simp only [testLink, marked]
    cases ρ.aidMgr l <;> rfl
  exact and_iff_left hlink

theorem Ranges.Inv.fits_id {ρ : Ranges lastVdev} (hi : ρ.Inv) :
    ρ.ml.maxAid + 1 < INVALID_AID ∧ ρ.ml.maxAid < 2 ^ 14 := by
  have hmax := hi.maxAid_le
  unfold WLAN_UMAC_MAX_AID at hmax
  unfold INVALID_AID
  omega

/-- An AID of the device is within the ranges if no link's range ends below it. -/
theorem Ranges.Inv.within_iff {ρ : Ranges lastVdev} (hi : ρ.Inv) :
    ρ.Within assocId ↔
      ρ.ml.Has assocId ∧ ∀ l r, ρ.aidMgr l = some r → assocId ≤ r.maxAid := by
  refine and_congr_right fun hml => ⟨fun h l r hr => (h l r hr).2, fun h l r hr => ⟨?_, h l r hr⟩⟩
  exact (hi.start_le l r hr).trans_lt hml.1

/-- Every AID handed out is within the ranges just when the device's range has no AID that
    a link's lacks, and is not empty where it starts. -/
theorem allocWithin_iff {ρ : Ranges lastVdev} (hi : ρ.Inv) :
    (∀ m, Fits m ρ → AllocWithin ρ m) ↔
      ρ.ml.maxAid < ρ.ml.startAid ∨
        (ρ.ml.startAid < ρ.ml.maxAid ∧ ∀ l r, ρ.aidMgr l = some r → ρ.ml.maxAid ≤ r.maxAid) := by
  have hbound := hi.fits_id.1
  constructor
  · intro h
    by_cases hlt : ρ.ml.maxAid < ρ.ml.startAid
    · exact .inl hlt
    rw [not_lt] at hlt
    -- an allocation when `bit` alone is not marked
    have only (bit : ℕ) (h₁ : ρ.ml.startAid ≤ bit) (h₂ : bit < ρ.ml.maxAid ∨ bit = ρ.ml.startAid) :
        ρ.Within (bit + 1) := by
      let m := ρ.marked fun ix => decide (ix ≠ bit)
      have hfree {ix : ℕ} : Free m .mlo ix ↔ ix = bit := by
        rw [Ranges.free_marked]
        simp
      obtain ⟨m₁, a, halloc, hwithin⟩ := h m (ρ.fits_marked _) false
      obtain ⟨m₂, b, halloc', hspec⟩ := peerAllocAidIn_spec m hlt hbound false
      rw [halloc, Option.some.injEq, Prod.mk.injEq] at halloc'
      obtain ⟨-, rfl⟩ := halloc'
      rcases hspec with ⟨ix, rfl, hix, -⟩ | ⟨-, hnone⟩
      · cases hfree.mp hix
        exact hwithin.resolve_left (by omega)
      · exact absurd (hfree.mpr rfl) (hnone bit h₁ h₂)
    have hstart : ρ.ml.startAid < ρ.ml.maxAid := (only _ le_rfl (.inr rfl)).1.2
    refine .inr ⟨hstart, fun l r hr => ?_⟩
    have hlast := only (ρ.ml.maxAid - 1) (Nat.le_sub_one_of_lt hstart) (.inl (by omega))
    rw [Nat.sub_add_cancel (by omega)] at hlast
    exact (hlast.2 l r hr).2
  · intro hcond m _ t2lmPeer
    rcases hcond with hlt | ⟨hlt, hlinks⟩
    · exact ⟨m, INVALID_AID, if_pos hlt, .inl rfl⟩
    obtain ⟨m', a, halloc, hspec⟩ := peerAllocAidIn_spec m hlt.le hbound t2lmPeer
    refine ⟨m', a, halloc, ?_⟩
    rcases hspec with ⟨ix, rfl, -, h₁, h₂⟩ | ⟨rfl, -⟩
    · have hix : ix + 1 ≤ ρ.ml.maxAid := by omega
      refine .inr (hi.within_iff.mpr ⟨⟨Nat.lt_succ_of_le h₁, hix⟩, fun l r hr => ?_⟩)
      exact hix.trans (hlinks l r hr)
    · exact .inl rfl

/-- What can be set is exact just when no free AID stands at either bound, where the two
    comparisons are off by one, and none inside is missing from a link. -/
theorem setExact_iff {ρ : Ranges lastVdev} (hi : ρ.Inv) (m : WlanMlVdevAidMgr lastVdev) :
    SetExact ρ m ↔ (ρ.ml.startAid < ρ.ml.maxAid →
      ¬ Free m .mlo (aidIx ρ.ml.startAid) ∧
      ¬ (ρ.Within ρ.ml.maxAid ∧ Free m .mlo (ρ.ml.maxAid - 1)) ∧
      ∀ assocId, ρ.ml.startAid < assocId → assocId < ρ.ml.maxAid →
        Free m .mlo (assocId - 1) → ρ.Within assocId) := by
  have hmax := hi.fits_id.2
  have hix {assocId : ℕ} (h₁ : ρ.ml.startAid < assocId) (h₂ : assocId < ρ.ml.maxAid) :
      aidIx assocId = assocId - 1 := aidIx_of_lt (by omega) (by omega)
  simp only [SetExact, peerSetAidIn_iff]
  constructor
  · intro h hlt
    refine ⟨fun hfree => ?_, fun hlast => ?_, fun assocId h₁ h₂ hfree => ?_⟩
    · have hwithin := ((h _ (by omega)).mp ⟨hfree, le_rfl, hlt⟩).1
      exact lt_irrefl _ hwithin.1.1
    · exact lt_irrefl _ ((h _ (by omega)).mpr hlast).2.2
    · exact ((h _ (by omega)).mp ⟨(hix h₁ h₂).symm ▸ hfree, h₁.le, h₂⟩).1
  · intro h assocId _
    constructor
    · rintro ⟨hfree, h₁, h₂⟩
      obtain ⟨hstart, -, hin⟩ := h (h₁.trans_lt h₂)
      have hne : ρ.ml.startAid ≠ assocId := fun heq => hstart (heq ▸ hfree)
      rw [hix (by omega) h₂] at hfree
      exact ⟨hin assocId (by omega) h₂ hfree, hfree⟩
    · rintro ⟨hwithin, hfree⟩
      obtain ⟨h₁, h₂⟩ := hwithin.1
      obtain ⟨-, hlast, -⟩ := h (h₁.trans_le h₂)
      have hne : assocId ≠ ρ.ml.maxAid := fun heq => hlast (heq ▸ ⟨hwithin, hfree⟩)
      rw [hix h₁ (by omega)]
      exact ⟨hfree, h₁.le, by omega⟩

/-- **When the AIDs keep to the ranges**, after any calls that set them. -/
theorem aidRanges_iff {ρ : Ranges lastVdev} (hρ : ρ.Reachable) :
    ((∀ m, Fits m ρ → AllocWithin ρ m) ↔
      ρ.ml.maxAid < ρ.ml.startAid ∨
        (ρ.ml.startAid < ρ.ml.maxAid ∧ ∀ l r, ρ.aidMgr l = some r → ρ.ml.maxAid ≤ r.maxAid)) ∧
    ∀ m, Fits m ρ → (SetExact ρ m ↔ (ρ.ml.startAid < ρ.ml.maxAid →
      ¬ Free m .mlo (aidIx ρ.ml.startAid) ∧
      ¬ (ρ.Within ρ.ml.maxAid ∧ Free m .mlo (ρ.ml.maxAid - 1)) ∧
      ∀ assocId, ρ.ml.startAid < assocId → assocId < ρ.ml.maxAid →
        Free m .mlo (assocId - 1) → ρ.Within assocId)) :=
  ⟨allocWithin_iff hρ.inv, fun m _ => setExact_iff hρ.inv m⟩

/-- Two links, the first with the AIDs 1 to 10, the second with those above 50. -/
def twoLinks : Ranges 1 :=
  wlanVdevMlmeAidMgrMaxAidSet (wlanVdevMlmeSetStartAid (.init fun _ => true) ⟨1, Nat.one_lt_two⟩ 50)
    ⟨0, Nat.two_pos⟩ 10

theorem reachable_twoLinks : twoLinks.Reachable := by
  have hsome (j : Fin 2) : j = 0 ∨ j = 1 := by omega
  refine .setMax 0 10 (.setStart 1 50 (.init _) ?_) ?_ <;>
  · intro l r hr
    rcases hsome l with rfl | rfl <;> cases hr <;> exact ⟨by decide, by decide⟩

theorem aidRanges_iff_twoLinks :
    ¬ (∀ m, Fits m twoLinks → AllocWithin twoLinks m) := by
  rw [(aidRanges_iff reachable_twoLinks).1]
  rintro (h | ⟨-, h⟩)
  · exact absurd h (by decide)
  · exact absurd (h 0 ⟨0, 10⟩ rfl) (by decide)

/-- With no AID marked, 51 is handed out, which the first link does not have.  With one link
    and the AIDs 1 to 3, of which the last is free, it is handed out but cannot be set. -/
theorem freed_aid_refused :
    (∃ ρ : Ranges 1, ρ.Reachable ∧ ∃ m, Fits m ρ ∧ ¬ AllocWithin ρ m) ∧
      ∃ ρ : Ranges 0, ρ.Reachable ∧ ∃ m, Fits m ρ ∧ ρ.Within 3 ∧ Free m .mlo 2 ∧
        (peerAllocAidIn m ρ.ml.startAid ρ.ml.maxAid false .mlo).map (·.2) = some 3 ∧
        (peerSetAidIn m ρ.ml 3).2 = false := by
  constructor
  · refine ⟨twoLinks, reachable_twoLinks, twoLinks.marked fun _ => false,
      twoLinks.fits_marked _, fun h => ?_⟩
    obtain ⟨m', a, halloc, hwithin⟩ := h false
    have ha : (peerAllocAidIn (twoLinks.marked fun _ => false) twoLinks.ml.startAid
        twoLinks.ml.maxAid false .mlo).map (·.2) = some 51 := by decide
    rw [halloc, Option.map_some, Option.some.injEq] at ha
    dsimp only at ha
    subst ha
    have hlink := (hwithin.resolve_left (by decide)).2 0 ⟨0, 10⟩ rfl
    exact absurd hlink.2 (by decide)
  · let ρ : Ranges 0 := wlanVdevMlmeAidMgrMaxAidSet (.init fun _ => true) 0 3
    have hlinks {l : Fin 1} {r : AidRange} (hr : ρ.aidMgr l = some r) : r = ⟨0, 3⟩ := by
      obtain rfl : l = 0 := by omega
      cases hr
      rfl
    have ho : ρ.LinksOrdered := fun l r hr => hlinks hr ▸ ⟨by decide, by decide⟩
    refine ⟨ρ, .setMax 0 3 (.init _) ho, ρ.marked fun ix => decide (ix < 2), ρ.fits_marked _,
      ⟨⟨by decide, by decide⟩, fun l r hr => hlinks hr ▸ ⟨by decide, by decide⟩⟩,
      Ranges.free_marked.mpr rfl, by decide, by decide⟩

end Sm8850.Mlo
