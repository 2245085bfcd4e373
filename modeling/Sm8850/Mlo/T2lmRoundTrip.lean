/-
  Decoding a TID-to-link mapping element undoes encoding.

  * `elemLen_eq`: the length of an element is that of the bytes behind its header.
  * `parseT2lmInfo_add`: what is read of an element is `received`: the fields that the flags
    say are there, and zero for the others.
  * **`t2lm_roundTrip`** has both, and the same for the elements of a negotiation.
  * `t2lm_defaultMapping`: the link mappings of an info with the default mapping are not sent.

  A TID with a mapping of its hardware links only is left out: see `HwOnly`.
-/
import Sm8850.Mlo.T2lm

namespace Sm8850.Mlo.T2lm

open Lib.Bytes

variable {t : T2lmInfo} {v : UInt16} {ieLen ind k x : ℕ} {tl : List UInt8} {c : Cursor}
  {tids : List (Fin 8)}

/-- Some TID has a mapping of hardware links and none of links. -/
def T2lmInfo.HwOnly (t : T2lmInfo) : Prop :=
  ∃ tid, t.hwLinkMapTid tid ≠ 0 ∧ t.ieeeLinkMapTid tid = 0

/-- The info that an element carries. -/
def T2lmInfo.received (t : T2lmInfo) (mappingSwitchTime : UInt16) : T2lmInfo :=
  { t with
    mappingSwitchTime := if t.mappingSwitchTimePresent then mappingSwitchTime else 0
    expectedDuration := if t.expectedDurationPresent then t.expectedDuration else 0
    ieeeLinkMapTid := fun tid => if t.defaultLinkMapping then 0 else t.ieeeLinkMapTid tid
    hwLinkMapTid := fun _ => 0 }

/-! ## Control field -/

theorem byteAt_cons_zero (a : UInt8) (l : List UInt8) : byteAt (a :: l) 0 = a.toNat := rfl

theorem byteAt_cons_succ (a : UInt8) (l : List UInt8) (i : ℕ) :
    byteAt (a :: l) (i + 1) = byteAt l i := rfl

theorem toNat_lt_two (b : Bool) : b.toNat < 2 := Bool.toNat_lt b

theorem control_eq (hd : t.direction ≠ .invalid) :
    t.control = t.direction.code + 4 * t.defaultLinkMapping.toNat +
      8 * t.mappingSwitchTimePresent.toNat + 16 * t.expectedDurationPresent.toNat +
      32 * t.linkMappingSize.toNat := by
  unfold T2lmInfo.control
  cases hdir : t.direction
  case invalid => exact absurd hdir hd
  all_goals
    cases t.defaultLinkMapping <;> cases t.mappingSwitchTimePresent <;>
      cases t.expectedDurationPresent <;> cases t.linkMappingSize <;> rfl

theorem code_lt (hd : t.direction ≠ .invalid) : t.direction.code < 3 := by
  cases hdir : t.direction
  case invalid => exact absurd hdir hd
  all_goals decide

theorem ofCode_code (hd : t.direction ≠ .invalid) :
    Direction.ofCode t.direction.code = some t.direction := by
  cases hdir : t.direction
  case invalid => exact absurd hdir hd
  all_goals rfl

theorem control_lt (hd : t.direction ≠ .invalid) : t.control < 64 := by
  have hcode := code_lt hd
  have h1 := toNat_lt_two t.defaultLinkMapping
  have h2 := toNat_lt_two t.mappingSwitchTimePresent
  have h3 := toNat_lt_two t.expectedDurationPresent
  have h4 := toNat_lt_two t.linkMappingSize
  rw [control_eq hd]
  omega

theorem toNat_ne_zero (b : Bool) : (b.toNat ≠ 0) = (b = true) := by cases b <;> simp

/-- The bits of the control field, whatever stands in the second byte. -/
theorem getBits_control (hd : t.direction ≠ .invalid) (x : ℕ) :
    getBits (t.control + 256 * x) 0 2 = t.direction.code ∧
    getBits (t.control + 256 * x) 2 1 = t.defaultLinkMapping.toNat ∧
    getBits (t.control + 256 * x) 3 1 = t.mappingSwitchTimePresent.toNat ∧
    getBits (t.control + 256 * x) 4 1 = t.expectedDurationPresent.toNat ∧
    getBits (t.control + 256 * x) 5 1 = t.linkMappingSize.toNat ∧
    getBits (t.control + 256 * x) 8 8 = x % 256 := by
  have hcode := code_lt hd
  have h1 := toNat_lt_two t.defaultLinkMapping
  have h2 := toNat_lt_two t.mappingSwitchTimePresent
  have h3 := toNat_lt_two t.expectedDurationPresent
  have h4 := toNat_lt_two t.linkMappingSize
  rw [control_eq hd]
  unfold getBits
  refine ⟨?_, ?_, ?_, ?_, ?_, ?_⟩ <;> omega

theorem testBit_presence (t : T2lmInfo) (ind : ℕ) (tids : List (Fin 8)) (k : ℕ) :
    (t.presence ind tids).testBit k = true ↔ ind.testBit k = true ∨
      ∃ tid ∈ tids, tid.val = k ∧ (t.hwLinkMapTid tid ≠ 0 ∨ t.ieeeLinkMapTid tid ≠ 0) := by
  induction tids generalizing ind with
  | nil => simp [T2lmInfo.presence]
  | cons tid tids ih =>
    unfold T2lmInfo.presence
    split <;> rename_i h
    · rw [ih, Nat.testBit_or, Nat.testBit_two_pow]
      simp [h, or_assoc]
    · rw [ih]
      simp [h]

theorem presence_lt (t : T2lmInfo) (tids : List (Fin 8)) (h : ind < 2 ^ 8) :
    t.presence ind tids < 2 ^ 8 := by
  induction tids generalizing ind with
  | nil => exact h
  | cons tid tids ih =>
    unfold T2lmInfo.presence
    split
    · exact ih (Nat.or_lt_two_pow h (Nat.pow_lt_pow_right Nat.one_lt_two tid.isLt))
    · exact ih h

theorem setBits_presence (h : x < 64) (hk : k < 256) : setBits x 8 8 k = x + 256 * k := by
  unfold setBits
  omega

/-! ## Parts -/

/-- The info as it is after the control field. -/
def T2lmInfo.flags (t : T2lmInfo) : T2lmInfo :=
  { T2lmInfo.zero with
    direction := t.direction
    defaultLinkMapping := t.defaultLinkMapping
    mappingSwitchTimePresent := t.mappingSwitchTimePresent
    expectedDurationPresent := t.expectedDurationPresent
    linkMappingSize := t.linkMappingSize }

/-- The presence indicator that an element has. -/
def T2lmInfo.sentPresence (t : T2lmInfo) : ℕ :=
  if t.defaultLinkMapping then 0 else t.presence 0 (List.finRange 8)

theorem parseControl_part (hd : t.direction ≠ .invalid) (hlen : 1 + t.controlPart.2 ≤ ieLen) :
    parseControl ieLen (t.controlPart.1 ++ tl) .zero =
      .ok (⟨t.flags, tl, 1 + t.controlPart.2⟩, t.sentPresence) := by
  have hlt := control_lt hd
  have hpres : t.presence 0 (List.finRange 8) < 2 ^ 8 := presence_lt t _ (by decide)
  -- the reader sees the control bits, and some second byte
  have hcontrol : ∃ x, (if ieLen > WLAN_T2LM_CTRL_SIZE then le16ToCpu (t.controlPart.1 ++ tl)
      else byteAt (t.controlPart.1 ++ tl) 0) = t.control + 256 * x ∧
      (t.defaultLinkMapping = false → x = t.presence 0 (List.finRange 8)) := by
    unfold T2lmInfo.controlPart at hlen ⊢
    cases hdef : t.defaultLinkMapping
    · simp only [hdef, Bool.false_eq_true, ↓reduceIte] at hlen ⊢
      refine ⟨t.presence 0 (List.finRange 8), ?_, fun _ => rfl⟩
      rw [if_pos (show ieLen > WLAN_T2LM_CTRL_SIZE from hlen), setBits_presence hlt hpres]
      simp only [le16ToCpu, htole16, List.cons_append, List.nil_append, byteAt_cons_zero,
        byteAt_cons_succ, UInt8.toNat_ofNat']
      omega
    · simp only [↓reduceIte]
      split
      · refine ⟨byteAt tl 0, ?_, nofun⟩
        simp only [le16ToCpu, List.cons_append, List.nil_append, byteAt_cons_zero,
          byteAt_cons_succ, UInt8.toNat_ofNat']
        omega
      · refine ⟨0, ?_, nofun⟩
        simp only [List.cons_append, List.nil_append, byteAt_cons_zero, UInt8.toNat_ofNat']
        omega
  obtain ⟨x, hx, hpresence⟩ := hcontrol
  obtain ⟨h0, h1, h2, h3, h4, h5⟩ := getBits_control hd x
  unfold parseControl
  simp only [hx, h0, h1, h2, h3, h4, h5, ofCode_code hd, toNat_ne_zero, Bool.decide_eq_true]
  unfold T2lmInfo.controlPart T2lmInfo.sentPresence at *
  cases hdef : t.defaultLinkMapping
  · simp only [hdef, Bool.false_eq_true, ↓reduceIte] at hlen ⊢
    rw [if_neg (Nat.not_lt.mpr hlen), hpresence hdef,
      Nat.mod_eq_of_lt (show _ < 256 from hpres)]
    simp [T2lmInfo.flags, hdef, htole16]
  · simp only [hdef, ↓reduceIte] at hlen ⊢
    rw [if_neg (Nat.not_lt.mpr hlen)]
    simp [T2lmInfo.flags, hdef]

theorem le16ToCpu_htole16 (x : UInt16) (tl : List UInt8) :
    le16ToCpu (htole16 x.toNat ++ tl) = x.toNat := by
  have hlt := x.toNat_lt
  simp only [le16ToCpu, htole16, List.cons_append, List.nil_append, byteAt_cons_zero,
    byteAt_cons_succ, UInt8.toNat_ofNat']
  omega

theorem parseSwitchTime_part
    (hp : c.t2lm.mappingSwitchTimePresent = t.mappingSwitchTimePresent)
    (hptr : c.ptr = (t.switchTimePart v).1 ++ tl)
    (hlen : c.parsed + (t.switchTimePart v).2 ≤ ieLen) :
    parseSwitchTime ieLen c = .ok ⟨{ c.t2lm with
      mappingSwitchTime :=
        if t.mappingSwitchTimePresent then v else c.t2lm.mappingSwitchTime },
      tl, c.parsed + (t.switchTimePart v).2⟩ := by
  unfold parseSwitchTime T2lmInfo.switchTimePart at *
  cases hpres : t.mappingSwitchTimePresent
  · rw [if_neg (by simp [hp, hpres])]
    simp only [hpres, Bool.false_eq_true, ↓reduceIte, List.nil_append] at hptr ⊢
    rw [← hptr]
    rfl
  · rw [if_pos (hp.trans hpres)]
    simp only [hpres, ↓reduceIte] at hptr hlen ⊢
    rw [if_neg (Nat.not_lt.mpr hlen), hptr, le16ToCpu_htole16, UInt16.ofNat_toNat]
    rfl

theorem parseDuration_part
    (hp : c.t2lm.expectedDurationPresent = t.expectedDurationPresent)
    (hzero : c.t2lm.expectedDuration = 0) (hdur : t.expectedDuration.toNat < 2 ^ 24)
    (hptr : c.ptr = t.durationPart.1 ++ tl) (hlen : c.parsed + t.durationPart.2 ≤ ieLen) :
    parseDuration ieLen c = .ok ⟨{ c.t2lm with
      expectedDuration := if t.expectedDurationPresent then t.expectedDuration else 0 },
      tl, c.parsed + t.durationPart.2⟩ := by
  unfold parseDuration T2lmInfo.durationPart at *
  cases hpres : t.expectedDurationPresent
  · rw [if_neg (by simp [hp, hpres])]
    simp only [hpres, Bool.false_eq_true, ↓reduceIte, List.nil_append] at hptr ⊢
    rw [← hptr, ← hzero]
    rfl
  · rw [if_pos (hp.trans hpres)]
    simp only [hpres, ↓reduceIte] at hptr hlen ⊢
    have hd : (0 : UInt32).toNat / 2 ^ 24 * 2 ^ 24 +
        65536 * byteAt (durationBytes t.expectedDuration.toNat ++ tl) 2 +
        256 * byteAt (durationBytes t.expectedDuration.toNat ++ tl) 1 +
        byteAt (durationBytes t.expectedDuration.toNat ++ tl) 0 = t.expectedDuration.toNat := by
      simp only [durationBytes, List.cons_append, List.nil_append, byteAt_cons_zero,
        byteAt_cons_succ, UInt8.toNat_ofNat', UInt32.toNat_zero]
      omega
    rw [if_neg (show ¬ ieLen < c.parsed + WLAN_T2LM_EXPECTED_DURATION_SIZE from
      Nat.not_lt.mpr hlen), hptr, hzero, hd, UInt32.ofNat_toNat]
    rfl

/-- The bytes of one link mapping. -/
def T2lmInfo.mapBytes (t : T2lmInfo) : ℕ := if t.linkMappingSize then 1 else 2

/-- The mappings of the TIDs replaced by those of `t` that it has. -/
def T2lmInfo.mapsOf (t : T2lmInfo) (tids : List (Fin 8)) (map : Fin 8 → UInt16) (tid : Fin 8) :
    UInt16 :=
  if tid ∈ tids ∧ t.ieeeLinkMapTid tid ≠ 0 then t.ieeeLinkMapTid tid else map tid

theorem mapsOf_cons_zero {tid : Fin 8} (hzero : t.ieeeLinkMapTid tid = 0)
    (map : Fin 8 → UInt16) : t.mapsOf (tid :: tids) map = t.mapsOf tids map := by
  funext tid'
  by_cases he : tid' = tid
  · subst he
    simp [T2lmInfo.mapsOf, hzero]
  · simp [T2lmInfo.mapsOf, he]

theorem mapsOf_cons {tid : Fin 8} (hne : t.ieeeLinkMapTid tid ≠ 0) (map : Fin 8 → UInt16) :
    t.mapsOf tids (Function.update map tid (t.ieeeLinkMapTid tid)) =
      t.mapsOf (tid :: tids) map := by
  funext tid'
  by_cases he : tid' = tid
  · subst he
    simp [T2lmInfo.mapsOf, hne]
  · simp [T2lmInfo.mapsOf, he]

/-- The loop over the TIDs reads the mappings that were written, if the presence indicator
    has a bit for just those. -/
theorem parseTids_part {presenceInd : ℕ} (hsize : c.t2lm.linkMappingSize = t.linkMappingSize)
    (hpresence : ∀ tid ∈ tids, presenceInd.testBit tid = true ↔ t.ieeeLinkMapTid tid ≠ 0)
    (hsmall : t.linkMappingSize = true → ∀ tid, (t.ieeeLinkMapTid tid).toNat < 256)
    (hptr : c.ptr = (t.linkMappings tids).1 ++ tl)
    (hlen : c.parsed + (t.linkMappings tids).2 * t.mapBytes ≤ ieLen) :
    parseTids ieLen presenceInd tids c = .ok ⟨{ c.t2lm with
      ieeeLinkMapTid := t.mapsOf tids c.t2lm.ieeeLinkMapTid },
      tl, c.parsed + (t.linkMappings tids).2 * t.mapBytes⟩ := by
  induction tids generalizing c with
  | nil =>
    simp only [T2lmInfo.linkMappings, List.nil_append] at hptr
    have hmaps : t.mapsOf [] c.t2lm.ieeeLinkMapTid = c.t2lm.ieeeLinkMapTid := by
      funext tid
      simp [T2lmInfo.mapsOf]
    rw [hmaps, ← hptr, T2lmInfo.linkMappings, Nat.zero_mul, Nat.add_zero]
    rfl
  | cons tid tids ih =>
    have hpres := hpresence tid List.mem_cons_self
    have hrest := fun tid' h => hpresence tid' (List.mem_cons_of_mem _ h)
    unfold parseTids
    by_cases hzero : t.ieeeLinkMapTid tid = 0
    · -- nothing was written for this TID
      have hbit : presenceInd.testBit tid = false := by
        rw [← Bool.not_eq_true]
        exact fun h => hpres.mp h hzero
      have heq : t.linkMappings (tid :: tids) = t.linkMappings tids := if_pos hzero
      rw [heq] at hptr hlen ⊢
      rw [if_pos hbit, ih hsize hrest hptr hlen, mapsOf_cons_zero hzero]
    · have hbit : ¬ presenceInd.testBit tid = false := by simp [hpres.mpr hzero]
      rw [if_neg hbit, hsize]
      unfold T2lmInfo.linkMappings at hptr hlen ⊢
      rw [if_neg hzero] at hptr hlen ⊢
      cases hone : t.linkMappingSize
      · -- two bytes
        have hbytes : t.mapBytes = 2 := by simp [T2lmInfo.mapBytes, hone]
        simp only [hone, hbytes, Bool.false_eq_true, ↓reduceIte, List.append_assoc] at hptr hlen ⊢
        have hnext := ih (c := c.setMap tid (t.ieeeLinkMapTid tid) 2) hsize hrest
          (by rw [Cursor.setMap, hptr]; rfl) (by rw [hbytes, Cursor.setMap]; dsimp only; omega)
        simp only [Cursor.setMap, mapsOf_cons hzero, hbytes] at hnext
        rw [if_neg (by omega), hptr, le16ToCpu_htole16, UInt16.ofNat_toNat, Nat.add_one_mul,
          Nat.add_comm (_ * 2), ← Nat.add_assoc]
        exact hnext
      · -- one byte
        have hbytes : t.mapBytes = 1 := by simp [T2lmInfo.mapBytes, hone]
        have hbyte : byteAt (UInt8.ofNat (t.ieeeLinkMapTid tid).toNat ::
            ((t.linkMappings tids).1 ++ tl)) 0 = (t.ieeeLinkMapTid tid).toNat := by
          rw [byteAt_cons_zero, UInt8.toNat_ofNat']
          exact Nat.mod_eq_of_lt (hsmall hone tid)
        simp only [hone, hbytes, Bool.true_eq_false, ↓reduceIte, List.cons_append] at hptr hlen ⊢
        have hnext := ih (c := c.setMap tid (t.ieeeLinkMapTid tid) 1) hsize hrest
          (by rw [Cursor.setMap, hptr]; rfl) (by rw [hbytes, Cursor.setMap]; dsimp only; omega)
        simp only [Cursor.setMap, mapsOf_cons hzero, hbytes] at hnext
        rw [if_neg (by omega), hptr, hbyte, UInt16.ofNat_toNat, Nat.add_one_mul,
          Nat.add_comm (_ * 1), ← Nat.add_assoc]
        exact hnext

/-! ## Elements -/

theorem linkMappings_length (t : T2lmInfo) (tids : List (Fin 8)) :
    (t.linkMappings tids).1.length = (t.linkMappings tids).2 * t.mapBytes ∧
      (t.linkMappings tids).2 ≤ tids.length := by
  induction tids with
  | nil => simp [T2lmInfo.linkMappings]
  | cons tid tids ih =>
    obtain ⟨hlen, hle⟩ := ih
    unfold T2lmInfo.linkMappings
    split
    · exact ⟨hlen, Nat.le_succ_of_le hle⟩
    · cases hone : t.linkMappingSize <;>
        simp [T2lmInfo.mapBytes, hone, htole16] at hlen ⊢ <;> omega

/-- What each part adds to the length is the number of its bytes. -/
theorem part_lengths (t : T2lmInfo) (v : UInt16) :
    t.controlPart.1.length = t.controlPart.2 ∧
    (t.switchTimePart v).1.length = (t.switchTimePart v).2 ∧
    t.durationPart.1.length = t.durationPart.2 ∧
    t.mappingsPart.1.length = t.mappingsPart.2 := by
  have hmap := (linkMappings_length t (List.finRange 8)).1
  refine ⟨?_, ?_, ?_, ?_⟩
  · unfold T2lmInfo.controlPart
    split <;> rfl
  · unfold T2lmInfo.switchTimePart
    split <;> rfl
  · unfold T2lmInfo.durationPart
    split <;> rfl
  · unfold T2lmInfo.mappingsPart
    split
    · rfl
    · simp only [hmap]
      unfold T2lmInfo.mapBytes
      split <;> omega

/-- `elem_len` counts the extension id and the bytes behind it. -/
theorem elemLen_eq (t : T2lmInfo) (v : UInt16) : t.elemLen v = 1 + (t.body v).length := by
  obtain ⟨h1, h2, h3, h4⟩ := part_lengths t v
  simp only [T2lmInfo.elemLen, T2lmInfo.body, List.length_append, h1, h2, h3, h4]
  omega

/-- `elem_len` fits its byte. -/
theorem elemLen_lt (t : T2lmInfo) (v : UInt16) : t.elemLen v < 256 := by
  have hcount := (linkMappings_length t (List.finRange 8)).2
  rw [List.length_finRange] at hcount
  unfold T2lmInfo.elemLen T2lmInfo.controlPart T2lmInfo.switchTimePart T2lmInfo.durationPart
    T2lmInfo.mappingsPart
  split_ifs <;> simp <;> omega

theorem addT2lmInfoIe_eq (t : T2lmInfo) (v : UInt16) (tl : List UInt8) :
    addT2lmInfoIe t (some v) ++ tl = WLAN_ELEMID_EXTN_ELEM :: UInt8.ofNat (t.elemLen v) ::
      WLAN_EXTN_ELEMID_T2LM :: (t.body v ++ tl) := rfl

theorem byteAt_elemLen (t : T2lmInfo) (v : UInt16) (tl : List UInt8) :
    byteAt (addT2lmInfoIe t (some v) ++ tl) 1 = t.elemLen v := by
  rw [addT2lmInfoIe_eq, byteAt_cons_succ, byteAt_cons_zero, UInt8.toNat_ofNat']
  exact Nat.mod_eq_of_lt (elemLen_lt t v)

/-- An element can be sent: it has a direction, and its fields fit. -/
structure T2lmInfo.Sendable (t : T2lmInfo) : Prop where
  direction : t.direction ≠ .invalid
  maps : t.linkMappingSize = true → ∀ tid, (t.ieeeLinkMapTid tid).toNat < 256
  duration : t.expectedDuration.toNat < 2 ^ 24

/-- **What is read of an element is what it carries.** -/
theorem parseT2lmInfo_add (h : t.Sendable) (hhw : t.defaultLinkMapping = false → ¬ t.HwOnly) :
    parseT2lmInfo (addT2lmInfoIe t (some v) ++ tl) .zero = .ok (t.received v) := by
  obtain ⟨h1, h2, h3, h4⟩ := part_lengths t v
  have hlen : t.elemLen v = 1 + t.controlPart.2 + (t.switchTimePart v).2 + t.durationPart.2 +
    t.mappingsPart.2 := rfl
  have hctrl : 1 ≤ t.controlPart.2 := by
    unfold T2lmInfo.controlPart
    split <;> simp
  have hdrop : (addT2lmInfoIe t (some v) ++ tl).drop 3 = t.controlPart.1 ++
      ((t.switchTimePart v).1 ++ (t.durationPart.1 ++ (t.mappingsPart.1 ++ tl))) := by
    simp only [addT2lmInfoIe_eq, List.drop_succ_cons, List.drop_zero, T2lmInfo.body,
      List.append_assoc]
  have hmin : ¬ t.elemLen v < WLAN_T2LM_CTRL_SIZE := by
    unfold WLAN_T2LM_CTRL_SIZE
    omega
  unfold parseT2lmInfo
  simp only [byteAt_elemLen, hdrop, hmin, ↓reduceIte]
  rw [parseControl_part h.direction (by omega)]
  simp only [Except.bind, bind]
  rw [parseSwitchTime_part (t := t) rfl rfl (by dsimp only; omega)]
  simp only
  rw [parseDuration_part (t := t) rfl rfl h.duration rfl (by dsimp only; omega)]
  simp only
  cases hdef : t.defaultLinkMapping
  · have hflags : t.flags.defaultLinkMapping = false := hdef
    have hpresence : ∀ tid ∈ List.finRange 8,
        t.sentPresence.testBit tid = true ↔ t.ieeeLinkMapTid tid ≠ 0 := by
      intro tid _
      simp only [T2lmInfo.sentPresence, hdef, Bool.false_eq_true, ↓reduceIte, testBit_presence,
        Nat.zero_testBit, false_or]
      constructor
      · rintro ⟨tid', -, he, hne⟩
        obtain rfl : tid' = tid := Fin.ext he
        exact hne.elim (fun hne hzero => hhw hdef ⟨tid', hne, hzero⟩) id
      · exact fun hne => ⟨tid, List.mem_finRange tid, rfl, .inr hne⟩
    have hpart : t.mappingsPart = ((t.linkMappings (List.finRange 8)).1,
        (t.linkMappings (List.finRange 8)).2 * t.mapBytes) := by
      simp only [T2lmInfo.mappingsPart, hdef, Bool.false_eq_true, ↓reduceIte, T2lmInfo.mapBytes]
      cases t.linkMappingSize <;> simp
    simp only [hflags, Bool.false_eq_true, ↓reduceIte]
    rw [parseTids_part (t := t) rfl hpresence h.maps (by rw [hpart])
      (by rw [hpart] at hlen; dsimp only at *; omega)]
    simp only
    rw [if_neg (by rw [hpart] at hlen; dsimp only at *; omega)]
    have hmaps : t.mapsOf (List.finRange 8) (fun _ => 0) = t.ieeeLinkMapTid := by
      funext tid
      by_cases hzero : t.ieeeLinkMapTid tid = 0 <;> simp [T2lmInfo.mapsOf, hzero]
    simp [T2lmInfo.flags, T2lmInfo.received, T2lmInfo.zero, hdef, hmaps]
  · have hflags : t.flags.defaultLinkMapping = true := hdef
    have hpart : t.mappingsPart.2 = 0 := by
      simp [T2lmInfo.mappingsPart, hdef]
    simp only [hflags, ↓reduceIte]
    rw [if_neg (by omega)]
    simp [T2lmInfo.flags, T2lmInfo.received, T2lmInfo.zero, hdef]

/-! ## Negotiations -/

theorem element_length (t : T2lmInfo) (v : UInt16) :
    (addT2lmInfoIe t (some v)).length = t.elemLen v + 2 := by
  rw [← List.append_nil (addT2lmInfoIe t (some v)), addT2lmInfoIe_eq, elemLen_eq]
  simp only [List.length_cons, List.append_nil]
  omega

/-- The entry at the place of a direction: it has that direction or none, and it can be sent
    if it has one. -/
structure Entry (t : T2lmInfo) (d : Direction) : Prop where
  placed : t.direction = d ∨ t.direction = .invalid
  sendable : t.direction ≠ .invalid → t.Sendable
  mapped : t.direction ≠ .invalid → t.defaultLinkMapping = false → ¬ t.HwOnly

/-- A round of the loop reads the element at the pointer. -/
theorem parseLoop_element {n : Negotiation} {frameLen parsed rounds : ℕ} (h : t.Sendable)
    (hhw : t.defaultLinkMapping = false → ¬ t.HwOnly)
    (hlen : parsed + (addT2lmInfoIe t (some v)).length ≤ frameLen) :
    parseLoop frameLen (rounds + 1) n (addT2lmInfoIe t (some v) ++ tl) parsed =
      parseLoop frameLen rounds (n.set (t.received v)) tl
        (parsed + (addT2lmInfoIe t (some v)).length) := by
  have hlength := element_length t v
  have hone : 1 ≤ t.elemLen v := by
    rw [elemLen_eq]
    omega
  have hdrop : (addT2lmInfoIe t (some v) ++ tl).drop (t.elemLen v + 2) = tl := by
    rw [← hlength, List.drop_left]
  have hheader : (addT2lmInfoIe t (some v) ++ tl).getD 0 0 = WLAN_ELEMID_EXTN_ELEM ∧
      (addT2lmInfoIe t (some v) ++ tl).getD 2 0 = WLAN_EXTN_ELEMID_T2LM := ⟨rfl, rfl⟩
  rw [parseLoop, if_neg (by omega), if_neg (by omega), if_neg (by omega), if_pos hheader]
  simp only [byteAt_elemLen, parseT2lmInfo_add h hhw, hdrop]
  rw [if_neg (by omega), hlength]
  rfl

theorem parseLoop_end {n : Negotiation} {frameLen rounds : ℕ} (hpos : 0 < frameLen) :
    parseLoop frameLen (rounds + 1) n tl frameLen = .returned (.ok n) := by
  rw [parseLoop, if_neg (by omega), if_pos rfl]

/-- What is recovered of an entry: what its element carries, or none if it has none. -/
def Recovered (t : T2lmInfo) (v : UInt16) (t' : T2lmInfo) : Prop :=
  if t.direction = .invalid then t'.direction = .invalid else t' = t.received v

theorem recovered_invalid {t' : T2lmInfo} (h : t.direction = .invalid)
    (h' : t'.direction = .invalid) : Recovered t v t' := by
  rw [Recovered, if_pos h]
  exact h'

theorem recovered_received (h : t.direction ≠ .invalid) : Recovered t v (t.received v) := by
  rw [Recovered, if_neg h]

theorem element_pos (t : T2lmInfo) (v : UInt16) : 0 < (addT2lmInfoIe t (some v)).length := by
  rw [element_length]
  omega

/-- A frame with one element. -/
theorem parseT2lmIe_one (n₀ : Negotiation) (h : t.Sendable)
    (hhw : t.defaultLinkMapping = false → ¬ t.HwOnly) :
    parseT2lmIe n₀ (addT2lmInfoIe t (some v)) (addT2lmInfoIe t (some v)).length =
      .ok (n₀.invalid.set (t.received v)) := by
  have hround : parseLoop (addT2lmInfoIe t (some v)).length 3 n₀.invalid
      (addT2lmInfoIe t (some v) ++ []) 0 = _ :=
    parseLoop_element h hhw (by rw [Nat.zero_add])
  rw [List.append_nil, Nat.zero_add, parseLoop_end (element_pos t v)] at hround
  rw [parseT2lmIe, hround]

/-- A frame with two elements. -/
theorem parseT2lmIe_two {u : T2lmInfo} (n₀ : Negotiation) (h : t.Sendable)
    (hhw : t.defaultLinkMapping = false → ¬ t.HwOnly) (hu : u.Sendable)
    (hhwu : u.defaultLinkMapping = false → ¬ u.HwOnly) :
    parseT2lmIe n₀ (addT2lmInfoIe t (some v) ++ addT2lmInfoIe u (some v))
      (addT2lmInfoIe t (some v) ++ addT2lmInfoIe u (some v)).length =
      .ok ((n₀.invalid.set (t.received v)).set (u.received v)) := by
  have hpos := element_pos t v
  rw [List.length_append]
  have hround : parseLoop ((addT2lmInfoIe t (some v)).length +
      (addT2lmInfoIe u (some v)).length) 3 n₀.invalid
      (addT2lmInfoIe t (some v) ++ addT2lmInfoIe u (some v)) 0 = _ :=
    parseLoop_element h hhw (by omega)
  have hround₂ : parseLoop ((addT2lmInfoIe t (some v)).length +
      (addT2lmInfoIe u (some v)).length) 2 (n₀.invalid.set (t.received v))
      (addT2lmInfoIe u (some v) ++ []) (0 + (addT2lmInfoIe t (some v)).length) = _ :=
    parseLoop_element hu hhwu (by omega)
  rw [List.append_nil] at hround₂
  rw [hround₂, Nat.zero_add, parseLoop_end (by omega)] at hround
  rw [parseT2lmIe, hround]

theorem set_received {n : Negotiation} (v : UInt16) :
    n.set (t.received v) = match t.direction with
      | .dl => { n with dl := t.received v }
      | .ul => { n with ul := t.received v }
      | .bidi => { n with bidi := t.received v }
      | .invalid => n := rfl

theorem addEntry_invalid (h : t.direction = .invalid) : addEntry t (some v) = [] :=
  if_neg (not_not.mpr h)

theorem addEntry_valid (h : t.direction ≠ .invalid) :
    addEntry t (some v) = addT2lmInfoIe t (some v) := if_pos h

/-- The elements of a negotiation are read back. -/
theorem parseT2lmIe_add {n : Negotiation} (n₀ : Negotiation) (hdl : Entry n.dl .dl)
    (hul : Entry n.ul .ul) (hbidi : Entry n.bidi .bidi) (hclash : ¬ n.Clash)
    (hsome : n.dl.direction ≠ .invalid ∨ n.ul.direction ≠ .invalid ∨
      n.bidi.direction ≠ .invalid) :
    ∃ bytes n', addT2lmIe n (some v) = some bytes ∧
      parseT2lmIe n₀ bytes bytes.length = .ok n' ∧ Recovered n.dl v n'.dl ∧
      Recovered n.ul v n'.ul ∧ Recovered n.bidi v n'.bidi := by
  have hadd : addT2lmIe n (some v) = some (addEntry n.dl (some v) ++ addEntry n.ul (some v) ++
      addEntry n.bidi (some v)) := if_neg hclash
  rcases hbidi.placed with hb | hb
  · -- a BIDI entry is alone
    have hd : n.dl.direction = .invalid := hdl.placed.resolve_left fun h => hclash ⟨.inl h, hb⟩
    have hu : n.ul.direction = .invalid := hul.placed.resolve_left fun h => hclash ⟨.inr h, hb⟩
    have hne : n.bidi.direction ≠ .invalid := by simp [hb]
    rw [addEntry_invalid hd, addEntry_invalid hu, addEntry_valid hne] at hadd
    refine ⟨_, _, hadd, parseT2lmIe_one n₀ (hbidi.sendable hne) (hbidi.mapped hne), ?_⟩
    rw [set_received, hb]
    exact ⟨recovered_invalid hd rfl, recovered_invalid hu rfl, recovered_received hne⟩
  · rw [addEntry_invalid hb, List.append_nil] at hadd
    rcases hdl.placed with hd | hd
    · have hned : n.dl.direction ≠ .invalid := by simp [hd]
      rw [addEntry_valid hned] at hadd
      rcases hul.placed with hu | hu
      · have hneu : n.ul.direction ≠ .invalid := by simp [hu]
        rw [addEntry_valid hneu] at hadd
        refine ⟨_, _, hadd, parseT2lmIe_two n₀ (hdl.sendable hned) (hdl.mapped hned)
          (hul.sendable hneu) (hul.mapped hneu), ?_⟩
        rw [set_received, hu, set_received, hd]
        exact ⟨recovered_received hned, recovered_received hneu, recovered_invalid hb rfl⟩
      · rw [addEntry_invalid hu, List.append_nil] at hadd
        refine ⟨_, _, hadd, parseT2lmIe_one n₀ (hdl.sendable hned) (hdl.mapped hned), ?_⟩
        rw [set_received, hd]
        exact ⟨recovered_received hned, recovered_invalid hu rfl, recovered_invalid hb rfl⟩
    · rw [addEntry_invalid hd, List.nil_append] at hadd
      rcases hul.placed with hu | hu
      · have hneu : n.ul.direction ≠ .invalid := by simp [hu]
        rw [addEntry_valid hneu] at hadd
        refine ⟨_, _, hadd, parseT2lmIe_one n₀ (hul.sendable hneu) (hul.mapped hneu), ?_⟩
        rw [set_received, hu]
        exact ⟨recovered_invalid hd rfl, recovered_received hneu, recovered_invalid hb rfl⟩
      · simp [hd, hu, hb] at hsome

/-- **Decoding undoes encoding.**  The length of an element is that of the bytes behind its
    header, what is read of it are the fields it carries, and the elements of a negotiation
    are read back to the entries they were written for. -/
theorem t2lm_roundTrip :
    (∀ t : T2lmInfo, t.Sendable →
      byteAt (addT2lmInfoIe t (some t.mappingSwitchTime)) 1 + 2 =
        (addT2lmInfoIe t (some t.mappingSwitchTime)).length ∧
      ((t.defaultLinkMapping = false → ¬ t.HwOnly) →
        parseT2lmInfo (addT2lmInfoIe t (some t.mappingSwitchTime)) .zero =
          .ok (t.received t.mappingSwitchTime))) ∧
    ∀ (n n₀ : Negotiation) (v : UInt16), Entry n.dl .dl → Entry n.ul .ul → Entry n.bidi .bidi →
      ¬ n.Clash → (n.dl.direction ≠ .invalid ∨ n.ul.direction ≠ .invalid ∨
        n.bidi.direction ≠ .invalid) →
      ∃ bytes n', addT2lmIe n (some v) = some bytes ∧
        parseT2lmIe n₀ bytes bytes.length = .ok n' ∧ Recovered n.dl v n'.dl ∧
        Recovered n.ul v n'.ul ∧ Recovered n.bidi v n'.bidi := by
  refine ⟨fun t h => ⟨?_, fun hhw => ?_⟩, fun n n₀ v => parseT2lmIe_add n₀⟩
  · have hbyte := byteAt_elemLen t t.mappingSwitchTime []
    rw [List.append_nil] at hbyte
    rw [hbyte, element_length]
  · have hparse : parseT2lmInfo (addT2lmInfoIe t (some t.mappingSwitchTime) ++ []) .zero = _ :=
      parseT2lmInfo_add h hhw
    rwa [List.append_nil] at hparse

/-- A BIDI info that maps TID 0 to links 0 and 1 and the other TIDs to none. -/
def bidiInfo : T2lmInfo :=
  { T2lmInfo.zero with
    direction := .bidi
    ieeeLinkMapTid := fun tid => if tid.val = 0 then 3 else 0 }

theorem t2lm_roundTrip_bidiInfo : bidiInfo.Sendable ∧ ¬ bidiInfo.HwOnly ∧
    parseT2lmInfo (addT2lmInfoIe bidiInfo (some 0)) .zero = .ok (bidiInfo.received 0) := by
  have hsend : bidiInfo.Sendable := ⟨by decide, nofun, by decide⟩
  have hhw : ¬ bidiInfo.HwOnly := fun ⟨_, h, _⟩ => h rfl
  exact ⟨hsend, hhw, (t2lm_roundTrip.1 bidiInfo hsend).2 fun _ => hhw⟩

/-- An info with the default mapping and a mapping of TID 0: the mapping is not sent. -/
theorem t2lm_defaultMapping :
    ∃ t t' : T2lmInfo, t.Sendable ∧
      parseT2lmInfo (addT2lmInfoIe t (some t.mappingSwitchTime)) .zero = .ok t' ∧
      t'.ieeeLinkMapTid 0 ≠ t.ieeeLinkMapTid 0 := by
  let t : T2lmInfo := { T2lmInfo.zero with
    direction := .bidi
    defaultLinkMapping := true
    ieeeLinkMapTid := fun _ => 1 }
  have ht : t.Sendable := ⟨by decide, nofun, by decide⟩
  have hparse : parseT2lmInfo (addT2lmInfoIe t (some 0) ++ []) .zero = _ :=
    parseT2lmInfo_add ht nofun
  rw [List.append_nil] at hparse
  exact ⟨t, t.received 0, ht, hparse, by decide⟩

end Sm8850.Mlo.T2lm
