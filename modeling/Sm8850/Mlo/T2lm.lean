/-
  The TID-to-link mapping element: `wlan_mlo_t2lm.c`.

  * `addT2lmInfoIe` writes an element, with its length counted as the parts are written,
    and `parseT2lmInfo` reads one; a pointer into the frame is the bytes from there on.
  * `addT2lmIe` and `parseT2lmIe` do so for the elements of a negotiation.
  * `T2lmInfo.received` is what an element says of an info.
-/
import Sm8850.Lib.Bytes
import Mathlib.Data.List.FinRange

namespace Sm8850.Mlo.T2lm

open Lib.Bytes

/-! ## Data -/

def WLAN_ELEMID_EXTN_ELEM : UInt8 := 255

def WLAN_EXTN_ELEMID_T2LM : UInt8 := 109

def WLAN_T2LM_CTRL_SIZE : ℕ := 2

def WLAN_T2LM_EXPECTED_DURATION_SIZE : ℕ := 3

/-- `enum wlan_t2lm_direction`. -/
inductive Direction where
  | dl | ul | bidi | invalid
  deriving DecidableEq

/-- `QDF_STATUS`, as far as the functions fail. -/
inductive QdfStatus where
  | eProto | eNullValue | eFailure

/-- The number of a direction; `WLAN_T2LM_MAX_DIRECTION`, 3, is none. -/
def Direction.code : Direction → ℕ
  | dl => 0
  | ul => 1
  | bidi => 2
  | invalid => 4

/-- The direction of two bits, up to `WLAN_T2LM_BIDI_DIRECTION`. -/
def Direction.ofCode : ℕ → Option Direction
  | 0 => some dl
  | 1 => some ul
  | 2 => some bidi
  | _ => none

/-- `struct wlan_t2lm_info`. -/
structure T2lmInfo where
  direction : Direction
  defaultLinkMapping : Bool
  mappingSwitchTimePresent : Bool
  expectedDurationPresent : Bool
  mappingSwitchTime : UInt16
  expectedDuration : UInt32
  ieeeLinkMapTid : Fin 8 → UInt16
  hwLinkMapTid : Fin 8 → UInt16
  linkMappingSize : Bool

/-- An info set to zero. -/
def T2lmInfo.zero : T2lmInfo :=
  { direction := .dl
    defaultLinkMapping := false
    mappingSwitchTimePresent := false
    expectedDurationPresent := false
    mappingSwitchTime := 0
    expectedDuration := 0
    ieeeLinkMapTid := fun _ => 0
    hwLinkMapTid := fun _ => 0
    linkMappingSize := false }

/-- `QDF_SET_BITS`. -/
def setBits (var index numBits val : ℕ) : ℕ :=
  var - var / 2 ^ index % 2 ^ numBits * 2 ^ index + val % 2 ^ numBits * 2 ^ index

/-- `QDF_GET_BITS`. -/
def getBits (val index numBits : ℕ) : ℕ := val / 2 ^ index % 2 ^ numBits

/-- A 16-bit field as it is written. -/
def htole16 (v : ℕ) : List UInt8 := [UInt8.ofNat v, UInt8.ofNat (v / 256)]

/-- A 16-bit field as it is read. -/
def le16ToCpu (l : List UInt8) : ℕ := byteAt l 0 + 256 * byteAt l 1

/-- The low bytes of a duration, as they are copied. -/
def durationBytes (v : ℕ) : List UInt8 :=
  [UInt8.ofNat v, UInt8.ofNat (v / 256), UInt8.ofNat (v / 65536)]

/-! ## Writing -/

/-- The control field without the presence indicator. -/
def T2lmInfo.control (t : T2lmInfo) : ℕ :=
  let c := setBits 0 0 2 t.direction.code
  let c := setBits c 2 1 t.defaultLinkMapping.toNat
  let c := setBits c 3 1 t.mappingSwitchTimePresent.toNat
  let c := setBits c 4 1 t.expectedDurationPresent.toNat
  setBits c 5 1 t.linkMappingSize.toNat

/-- `link_mapping_presence_indicator`, over the TIDs that are left. -/
def T2lmInfo.presence (t : T2lmInfo) (ind : ℕ) : List (Fin 8) → ℕ
  | [] => ind
  | tid :: tids =>
    if t.hwLinkMapTid tid ≠ 0 ∨ t.ieeeLinkMapTid tid ≠ 0 then t.presence (ind ||| 2 ^ tid.val) tids
    else t.presence ind tids

/-- The loop that writes the link mappings of the TIDs that are left: the bytes, and
    `num_tids`. -/
def T2lmInfo.linkMappings (t : T2lmInfo) : List (Fin 8) → List UInt8 × ℕ
  | [] => ([], 0)
  | tid :: tids =>
    if t.ieeeLinkMapTid tid = 0 then t.linkMappings tids
    else
      let rest := t.linkMappings tids
      if t.linkMappingSize then
        (UInt8.ofNat (t.ieeeLinkMapTid tid).toNat :: rest.1, rest.2 + 1)
      else (htole16 (t.ieeeLinkMapTid tid).toNat ++ rest.1, rest.2 + 1)

/-- The part of an element: its bytes, and what it adds to `elem_len`. -/
abbrev Part := List UInt8 × ℕ

/-- The control field. -/
def T2lmInfo.controlPart (t : T2lmInfo) : Part :=
  if t.defaultLinkMapping then ([UInt8.ofNat t.control], 1)
  else (htole16 (setBits t.control 8 8 (t.presence 0 (List.finRange 8))), 2)

/-- The mapping switch time, which is the vdev's. -/
def T2lmInfo.switchTimePart (t : T2lmInfo) (mappingSwitchTime : UInt16) : Part :=
  if t.mappingSwitchTimePresent then (htole16 mappingSwitchTime.toNat, 2) else ([], 0)

/-- The expected duration. -/
def T2lmInfo.durationPart (t : T2lmInfo) : Part :=
  if t.expectedDurationPresent then (durationBytes t.expectedDuration.toNat, 3) else ([], 0)

/-- The link mappings of the TIDs. -/
def T2lmInfo.mappingsPart (t : T2lmInfo) : Part :=
  if t.defaultLinkMapping then ([], 0)
  else
    let m := t.linkMappings (List.finRange 8)
    (m.1, if t.linkMappingSize then m.2 else m.2 * 2)

/-- The bytes behind the header. -/
def T2lmInfo.body (t : T2lmInfo) (mappingSwitchTime : UInt16) : List UInt8 :=
  t.controlPart.1 ++ (t.switchTimePart mappingSwitchTime).1 ++ t.durationPart.1 ++ t.mappingsPart.1

/-- `elem_len`: the extension id, then what each part adds. -/
def T2lmInfo.elemLen (t : T2lmInfo) (mappingSwitchTime : UInt16) : ℕ :=
  1 + t.controlPart.2 + (t.switchTimePart mappingSwitchTime).2 + t.durationPart.2 +
    t.mappingsPart.2

/-- `wlan_mlo_add_t2lm_info_ie`: the bytes up to the pointer it returns.  The mapping switch
    time is that of the vdev, which may be gone. -/
def addT2lmInfoIe (t : T2lmInfo) (mappingSwitchTime : Option UInt16) : List UInt8 :=
  match mappingSwitchTime with
  | none =>
    if t.mappingSwitchTimePresent then []
    else [WLAN_ELEMID_EXTN_ELEM, UInt8.ofNat (t.elemLen 0), WLAN_EXTN_ELEMID_T2LM] ++ t.body 0
  | some v =>
    [WLAN_ELEMID_EXTN_ELEM, UInt8.ofNat (t.elemLen v), WLAN_EXTN_ELEMID_T2LM] ++ t.body v

/-! ## Reading -/

/-- Where the reader is: the info so far, the pointer, and `ie_len_parsed`. -/
structure Cursor where
  t2lm : T2lmInfo
  ptr : List UInt8
  parsed : ℕ

/-- The control field of an element of length `ieLen` from `field` on, with the presence
    indicator. -/
def parseControl (ieLen : ℕ) (field : List UInt8) (t : T2lmInfo) :
    Except QdfStatus (Cursor × ℕ) :=
  let control := if ieLen > WLAN_T2LM_CTRL_SIZE then le16ToCpu field else byteAt field 0
  match Direction.ofCode (getBits control 0 2) with
  | none => .error .eNullValue
  | some dir =>
    let t := { t with
      direction := dir
      defaultLinkMapping := getBits control 2 1 ≠ 0
      mappingSwitchTimePresent := getBits control 3 1 ≠ 0
      expectedDurationPresent := getBits control 4 1 ≠ 0
      linkMappingSize := getBits control 5 1 ≠ 0 }
    if t.defaultLinkMapping then
      if ieLen < 1 + 1 then .error .eProto else .ok (⟨t, field.drop 1, 1 + 1⟩, 0)
    else
      if ieLen < 1 + 2 then .error .eProto
      else .ok (⟨t, field.drop 2, 1 + 2⟩, getBits control 8 8)

def parseSwitchTime (ieLen : ℕ) (c : Cursor) : Except QdfStatus Cursor :=
  if c.t2lm.mappingSwitchTimePresent then
    if ieLen < c.parsed + 2 then .error .eProto
    else .ok ⟨{ c.t2lm with mappingSwitchTime := UInt16.ofNat (le16ToCpu c.ptr) },
      c.ptr.drop 2, c.parsed + 2⟩
  else .ok c

def parseDuration (ieLen : ℕ) (c : Cursor) : Except QdfStatus Cursor :=
  if c.t2lm.expectedDurationPresent then
    if ieLen < c.parsed + WLAN_T2LM_EXPECTED_DURATION_SIZE then .error .eProto
    else
      -- the high byte of the field stays as it is
      let d := c.t2lm.expectedDuration.toNat / 2 ^ 24 * 2 ^ 24 +
        65536 * byteAt c.ptr 2 + 256 * byteAt c.ptr 1 + byteAt c.ptr 0
      .ok ⟨{ c.t2lm with expectedDuration := UInt32.ofNat d }, c.ptr.drop 3, c.parsed + 3⟩
  else .ok c

/-- The mapping of a TID read from a field of `n` bytes. -/
def Cursor.setMap (c : Cursor) (tid : Fin 8) (map : UInt16) (n : ℕ) : Cursor where
  t2lm := { c.t2lm with ieeeLinkMapTid := Function.update c.t2lm.ieeeLinkMapTid tid map }
  ptr := c.ptr.drop n
  parsed := c.parsed + n

/-- The loop over the TIDs that are left. -/
def parseTids (ieLen presenceInd : ℕ) : List (Fin 8) → Cursor → Except QdfStatus Cursor
  | [], c => .ok c
  | tid :: tids, c =>
    if presenceInd.testBit tid = false then parseTids ieLen presenceInd tids c
    else if c.t2lm.linkMappingSize = false then
      if ieLen < c.parsed + 2 then .error .eProto
      else parseTids ieLen presenceInd tids (c.setMap tid (UInt16.ofNat (le16ToCpu c.ptr)) 2)
    else
      if ieLen < c.parsed + 1 then .error .eProto
      else parseTids ieLen presenceInd tids (c.setMap tid (UInt16.ofNat (byteAt c.ptr 0)) 1)

/-- `wlan_mlo_parse_t2lm_info`; what a failed call leaves in the info is not said. -/
def parseT2lmInfo (ie : List UInt8) (t : T2lmInfo) : Except QdfStatus T2lmInfo := do
  let ieLen := byteAt ie 1
  if ieLen < WLAN_T2LM_CTRL_SIZE then .error .eProto
  else
    let (c, presenceInd) ← parseControl ieLen (ie.drop 3) t
    let c ← parseSwitchTime ieLen c
    let c ← parseDuration ieLen c
    if c.t2lm.defaultLinkMapping then
      if ieLen > c.parsed then .error .eProto else .ok c.t2lm
    else
      let c ← parseTids ieLen presenceInd (List.finRange 8) c
      if ieLen > c.parsed then .error .eProto else .ok c.t2lm

/-! ## Negotiations -/

/-- The `t2lm_info` of a negotiation, by `WLAN_T2LM_*_DIRECTION`. -/
structure Negotiation where
  dl : T2lmInfo
  ul : T2lmInfo
  bidi : T2lmInfo

/-- Both a BIDI entry and one of the others. -/
def Negotiation.Clash (n : Negotiation) : Prop :=
  (n.dl.direction = .dl ∨ n.ul.direction = .ul) ∧ n.bidi.direction = .bidi

instance (n : Negotiation) : Decidable n.Clash := inferInstanceAs (Decidable (_ ∧ _))

/-- The element of an entry, if it has one. -/
def addEntry (t : T2lmInfo) (mappingSwitchTime : Option UInt16) : List UInt8 :=
  if t.direction ≠ .invalid then addT2lmInfoIe t mappingSwitchTime else []

/-- `wlan_mlo_add_t2lm_ie`. -/
def addT2lmIe (n : Negotiation) (mappingSwitchTime : Option UInt16) : Option (List UInt8) :=
  if n.Clash then none
  else some (addEntry n.dl mappingSwitchTime ++ addEntry n.ul mappingSwitchTime ++
    addEntry n.bidi mappingSwitchTime)

/-- The entry of the info's direction replaced. -/
def Negotiation.set (n : Negotiation) (t : T2lmInfo) : Negotiation :=
  match t.direction with
  | .dl => { n with dl := t }
  | .ul => { n with ul := t }
  | .bidi => { n with bidi := t }
  | .invalid => n

/-- The negotiation with no entry. -/
def Negotiation.invalid (n : Negotiation) : Negotiation where
  dl := { n.dl with direction := .invalid }
  ul := { n.ul with direction := .invalid }
  bidi := { n.bidi with direction := .invalid }

/-- How the loop of `wlan_mlo_parse_t2lm_ie` ends: it returns, or runs out of rounds. -/
inductive LoopEnd where
  | returned (r : Except QdfStatus Negotiation)
  | done (n : Negotiation)

/-- The rounds that are left of the loop of `wlan_mlo_parse_t2lm_ie`. -/
def parseLoop (frameLen : ℕ) : ℕ → Negotiation → List UInt8 → ℕ → LoopEnd
  | 0, n, _, _ => .done n
  | rounds + 1, n, ie, parsed =>
    if frameLen = 0 then .returned (.error .eNullValue)
    else if frameLen = parsed then .returned (.ok n)
    else if frameLen < parsed + 3 then .returned (.error .eProto)
    else if ie.getD 0 0 = WLAN_ELEMID_EXTN_ELEM ∧ ie.getD 2 0 = WLAN_EXTN_ELEMID_T2LM then
      let parsed := parsed + byteAt ie 1 + 2
      if frameLen < parsed then .returned (.error .eProto)
      else match parseT2lmInfo ie .zero with
        | .error e => .returned (.error e)
        | .ok t => parseLoop frameLen rounds (n.set t) (ie.drop (byteAt ie 1 + 2)) parsed
    else parseLoop frameLen rounds n ie parsed

/-- `wlan_mlo_parse_t2lm_ie`, on a frame of `frameLen` bytes. -/
def parseT2lmIe (n : Negotiation) (ie : List UInt8) (frameLen : ℕ) :
    Except QdfStatus Negotiation :=
  match parseLoop frameLen 3 n.invalid ie 0 with
  | .returned r => r
  | .done n => if n.Clash then .error .eFailure else .ok n

end Sm8850.Mlo.T2lm
