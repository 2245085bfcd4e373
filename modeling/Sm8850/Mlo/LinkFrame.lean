/-
  The elements of a link-specific frame: the merge in `util_gen_link_reqrsp_cmn` of
  `utils_mlo.c`.

  * `findEid`, `findExtnEid`: the first element with an ID.
  * `getNoninheritlists`, `evalIeInNoninheritlist`: the Non-Inheritance element of the profile.
  * `addMlieForPrbRspGen`: the Multi-Link element of a probe response.
  * `mergeReporting`, `copyRemaining`: the passes over the elements of the reporting STA and
    over what is left of the profile.
  * `mergeIes`: both.

  The sections of elements are what the function has found before: that of the frame, with the
  place of its Multi-Link element, and that of the requested STA profile.  A pointer into a
  section is the section's bytes from there on.
-/
import Sm8850.Mlo.LinkInfo

namespace Sm8850.Mlo.LinkFrame

open Lib.Bytes LinkInfo

/-! ## Finding an element -/

/-- `util_find_eid`: where the first element with the ID starts. -/
def findEid (eid : UInt8) : List UInt8 → Option ℕ
  | id :: len :: rest =>
    if len.toNat ≤ rest.length then
      if id = eid then some 0
      else (findEid eid (rest.drop len.toNat)).map (2 + len.toNat + ·)
    else none
  | _ => none
termination_by l => l.length
decreasing_by
  simp only [List.length_drop, List.length_cons]
  omega

theorem findEid_cons (eid id len : UInt8) (rest : List UInt8) :
    findEid eid (id :: len :: rest) =
      if len.toNat ≤ rest.length then
        if id = eid then some 0
        else (findEid eid (rest.drop len.toNat)).map (2 + len.toNat + ·)
      else none := by
  rw [findEid]

/-- `util_find_extn_eid`: where the first element with the ID and the extension starts. -/
def findExtnEid (eid extnEid : UInt8) : List UInt8 → Option ℕ
  | id :: len :: rest =>
    if 2 < 2 + rest.length ∧ len.toNat ≤ rest.length then
      if len ≠ 0 ∧ id = eid ∧ rest.head? = some extnEid then some 0
      else (findExtnEid eid extnEid (rest.drop len.toNat)).map (2 + len.toNat + ·)
    else none
  | _ => none
termination_by l => l.length
decreasing_by
  simp only [List.length_drop, List.length_cons]
  omega

/-- The element ID at the start of the bytes, its length field and its ID extension, once it is
    checked that they are there. -/
def idPos (l : List UInt8) : UInt8 := l.getD 0 0

def tagLenPos (l : List UInt8) : UInt8 := l.getD 1 0

def idextPos (l : List UInt8) : UInt8 := l.getD 2 0

/-- The size of the element at the start of the bytes, with its header. -/
def ieSize (l : List UInt8) : ℕ := (tagLenPos l).toNat + 2

/-- The checks of an element that the two sections share; `WLAN_ELEMID_EXTN_ELEM` is 255. -/
def validateIe (minSize : ℕ) (l : List UInt8) : Except Error Unit :=
  if l.length < 1 then .error .eProto
  else if l.length < 2 then .error .eProto
  else if idPos l = 255 ∧ l.length < 3 then .error .eProto
  else if idPos l = 255 ∧ ieSize l < 2 + 1 then .error .eProto
  else if ieSize l < minSize then .error .eProto
  else if l.length < ieSize l then .error .eProto
  else .ok ()

/-- `util_validate_reportingsta_ie`: a vendor-specific element, with the ID 221, has an OUI and
    its type. -/
def validateReportingstaIe (l : List UInt8) : Except Error Unit :=
  validateIe (if idPos l = 221 then 2 + 4 else 2) l

/-- `util_validate_sta_prof_ie`. -/
def validateStaProfIe (l : List UInt8) : Except Error Unit :=
  if l.length = 0 then .error .eInval else validateIe 2 l

/-! ## Non-Inheritance -/

/-- The lists of a Non-Inheritance element, with the element ID extension 56. -/
def getNoninheritlists (buff : List UInt8) : Except Error (List UInt8 × List UInt8) :=
  if buff.length = 0 then .error .eInval
  else
    match findExtnEid 255 56 buff with
    | none => .ok ([], [])
    | some off =>
      let ie := buff.drop off
      if ie.length < 2 then .error .eProto
      else if ie.length < ieSize ie then .error .eProto
      else if ieSize ie < 5 then .error .eProto
      else do
        let unparsedLen := (tagLenPos ie).toNat - 1
        let elemlistLen := le (← bytesAt ie 3 1)
        let unparsedLen := unparsedLen - 1
        if unparsedLen - 1 < elemlistLen then .error .eProto
        else do
          let elemlist ← bytesAt ie 4 elemlistLen
          let unparsedLen := unparsedLen - elemlistLen
          let elemextlistLen := le (← bytesAt ie (3 + elemlistLen + 1) 1)
          let unparsedLen := unparsedLen - 1
          if unparsedLen < elemextlistLen then .error .eProto
          else do
            let elemextlist ← bytesAt ie (3 + elemlistLen + 2) elemextlistLen
            if 0 < unparsedLen - elemextlistLen then .error .eProto
            else return (elemlist, elemextlist)

/-- `util_eval_ie_in_noninheritlist`. -/
def evalIeInNoninheritlist (ie : List UInt8) (totalIeLen : ℕ)
    (elemlist elemextlist : List UInt8) : Except Error Bool :=
  if totalIeLen < 0 + 1 then .error .eInval
  else if idPos ie = 255 ∧ totalIeLen < 2 + 1 then .error .eInval
  else if idPos ie ≠ 255 then .ok (decide (idPos ie ∈ elemlist))
  else .ok (decide (idextPos ie ∈ elemextlist))

/-! ## The frame -/

inductive Subtype where
  | assocReq | reassocReq | assocResp | reassocResp | probeResp | action
  deriving DecidableEq

/-- What the passes only read: the size of the frame to be made, the STA profile's link ID and
    lists, how much of the reporting section there is from the Multi-Link element on, and
    whether memory can be allocated. -/
structure Merge where
  subtype : Subtype
  maxsize : ℕ
  linkid : UInt8
  mlieRem : ℕ
  elemlist : List UInt8
  elemextlist : List UInt8
  malloc : Bool

/-- The frame made so far, and the section of the STA profile. -/
structure State where
  linkFrame : List UInt8
  staProf : List UInt8

/-- Copy an element into the frame. -/
def copyIe (m : Merge) (linkFrame ie : List UInt8) : Except Error (List UInt8) :=
  if linkFrame.length + ie.length ≤ m.maxsize then .ok (linkFrame ++ ie) else .error .eNomem

/-! ## Multi-Link element -/

/-- `util_get_mlie_common_info_len`; `WLAN_ML_VARIANT_BASIC` is 0, and
    `WLAN_EXTN_ELEMID_MULTI_LINK` is 107. -/
def getMlieCommonInfoLen (mlieseq : List UInt8) (mlieseqlen : ℕ) : Except Error ℕ :=
  if mlieseqlen = 0 then .error .eNullValue
  else if mlieseqlen < 5 then .error .eInval
  else if idPos mlieseq ≠ 255 ∨ idextPos mlieseq ≠ 107 then .error .eInval
  else do
    let mlcontrol := le (← bytesAt mlieseq 3 2)
    if mlcontrol % 8 ≠ 0 then .error .eInval
    else if mlieseqlen < 5 + 1 + 6 then .error .eProto
    else return le (← bytesAt mlieseq 5 1)

/-- The control field with bit 1 set in its presence bitmap, which has the upper twelve bits. -/
def setPresence (mlcontrol : ℕ) : ℕ := mlcontrol % 16 + 16 * ((mlcontrol / 16) ||| 2)

/-- The link ID in the low four bits of an octet. -/
def setLinkid (b linkid : UInt8) : UInt8 := (b &&& 0xf0) ||| (linkid &&& 0x0f)

/-- The Multi-Link element with its common info only. -/
def rebuiltMlie (mlie : List UInt8) (commonInfoLen : ℕ) (linkid : UInt8) : List UInt8 :=
  let mlcontrol := setPresence (le ((mlie.drop 3).take 2))
  let frame := [255, UInt8.ofNat (commonInfoLen + 5 - 2), 107, UInt8.ofNat mlcontrol,
    UInt8.ofNat (mlcontrol / 256)] ++ (mlie.drop 5).take commonInfoLen
  frame.set 12 (setLinkid (frame.getD 12 0) linkid)

/-- `util_add_mlie_for_prb_rsp_gen`.  Where the common info does not fit into the element, it
    returns the status of the call before, a success, and adds nothing. -/
def addMlieForPrbRspGen (m : Merge) (reportingstaIe linkFrame : List UInt8) :
    Except Error (List UInt8) := do
  let reportingstaIeLen := (tagLenPos reportingstaIe).toNat
  let commonInfoLen ← getMlieCommonInfoLen reportingstaIe reportingstaIeLen
  if reportingstaIeLen < commonInfoLen ∨ reportingstaIeLen - commonInfoLen < 5 then
    return linkFrame
  else
    let mlieLen := commonInfoLen + 5
    if m.maxsize - linkFrame.length < mlieLen then .error .eNomem
    else if m.malloc = false then .error .eNomem
    else if m.linkid = 0xff ∨ mlieLen ≤ 12 then .error .eInval
    else return linkFrame ++ rebuiltMlie reportingstaIe commonInfoLen m.linkid

/-! ## Elements of the reporting STA -/

/-- The element of the STA profile with the same ID and extension. -/
def findStaProfIe (reportingstaIe staProf : List UInt8) : Option ℕ :=
  if staProf.length = 0 then none
  else if idPos reportingstaIe = 255 then
    findExtnEid 255 (idextPos reportingstaIe) staProf
  else findEid (idPos reportingstaIe) staProf

/-- An element of the reporting STA: it is inherited, or that of the profile is copied and
    marked with the ID 0.  A vendor-specific one is left for later, if at least
    `MIN_VENDOR_TAG_LEN` octets of the profile are left from the profile's one on. -/
def mergeIe (m : Merge) (reportingstaIe : List UInt8) (s : State) : Except Error State :=
  match findStaProfIe reportingstaIe s.staProf with
  | none => do
    let size := ieSize reportingstaIe
    let isIn ← evalIeInNoninheritlist reportingstaIe size m.elemlist m.elemextlist
    if isIn then return s
    else
      let linkFrame ← copyIe m s.linkFrame (reportingstaIe.take size)
      return { s with linkFrame }
  | some off => do
    let staProfIe := s.staProf.drop off
    validateStaProfIe staProfIe
    if idPos reportingstaIe = 221 ∧ 7 ≤ staProfIe.length then return s
    else
      let linkFrame ← copyIe m s.linkFrame (staProfIe.take (ieSize staProfIe))
      return { linkFrame, staProf := s.staProf.set off 0 }

/-- The loop over the fragments behind the Multi-Link element; `WLAN_ELEMID_FRAGMENT` is 242.
    It stays at a fragment that ends the frame. -/
def skipFragments (l : List UInt8) : Except Error (List UInt8) :=
  if idPos l = 242 ∧ ieSize l < l.length then do
    let next := l.drop (ieSize l)
    validateReportingstaIe next
    skipFragments next
  else .ok l
termination_by l.length
decreasing_by
  rw [List.length_drop]
  unfold ieSize at *
  omega

theorem length_skipFragments {l l' : List UInt8} (h : skipFragments l = .ok l') :
    l'.length ≤ l.length := by
  induction l using skipFragments.induct with
  | case1 l hfrag next ih =>
    rw [skipFragments, if_pos hfrag] at h
    obtain ⟨-, -, h⟩ := Elem.bind_eq_ok.1 h
    exact (ih h).trans (by rw [List.length_drop]; omega)
  | case2 l hlast =>
    rw [skipFragments, if_neg hlast] at h
    cases h
    exact Nat.le_refl _

/-- What the loop over the elements of the reporting STA does with one. -/
def mergeStep (m : Merge) (l : List UInt8) (s : State) : Except Error State :=
  if idPos l = 255 ∧ idextPos l = 107 then
    if m.subtype = .probeResp ∧ l.length = m.mlieRem then do
      let linkFrame ← addMlieForPrbRspGen m l s.linkFrame
      return { s with linkFrame }
    else .ok s
  else mergeIe m l s

/-- Where the loop goes on: behind the element, and behind the fragments of a Multi-Link
    element. -/
def nextIe (l : List UInt8) : Except Error (List UInt8) := do
  let next := l.drop (ieSize l)
  validateReportingstaIe next
  if idPos l = 255 ∧ idextPos l = 107 then skipFragments next else return next

theorem length_nextIe {l next : List UInt8} (h : nextIe l = .ok next) (hne : 0 < l.length) :
    next.length < l.length := by
  obtain ⟨-, -, h⟩ := Elem.bind_eq_ok.1 h
  have hdrop : (l.drop (ieSize l)).length < l.length := by
    rw [List.length_drop]
    unfold ieSize
    omega
  split at h
  · exact (length_skipFragments h).trans_lt hdrop
  · cases h
    exact hdrop

/-- The loop over the elements of the reporting STA. -/
def mergeReporting (m : Merge) (l : List UInt8) (s : State) : Except Error State :=
  if l.length = 0 ∨ l.length < ieSize l then .ok s
  else
    match mergeStep m l s with
    | .error e => .error e
    | .ok s =>
      if ieSize l = l.length then .ok s
      else
        match _h : nextIe l with
        | .error e => .error e
        | .ok next => mergeReporting m next s
termination_by l.length
decreasing_by exact length_nextIe _h (by omega)

/-! ## The rest of the STA profile -/

/-- The loop over the elements of the STA profile that are not marked.  It marks them too, which
    nothing reads any more. -/
def copyRemaining (m : Merge) (l linkFrame : List UInt8) : Except Error (List UInt8) :=
  if l.length = 0 then .ok linkFrame
  else do
    validateStaProfIe l
    let linkFrame ← if idPos l = 0 then .ok linkFrame
      else copyIe m linkFrame (l.take (ieSize l))
    copyRemaining m (l.drop (ieSize l)) linkFrame
termination_by l.length
decreasing_by
  rw [List.length_drop]
  unfold ieSize
  omega

/-- A request and a probe response have an SSID element, with the ID 0, for the reporting STA;
    a response and an action frame have none, also not in the profile. -/
def ssidIe (subtype : Subtype) (frameIesection staProf : List UInt8) : Except Error ℕ :=
  match findEid 0 frameIesection with
  | some off =>
    if subtype = .assocReq ∨ subtype = .reassocReq ∨ subtype = .probeResp then .ok off
    else .error .eProto
  | none =>
    if subtype = .assocReq ∨ subtype = .reassocReq ∨ subtype = .probeResp then .error .eProto
    else if (findEid 0 staProf).isSome then .error .eProto
    else .ok 0

/-- The part of `util_gen_link_reqrsp_cmn` that fills in the elements, behind what is there of
    the link-specific frame. -/
def mergeIes (subtype : Subtype) (maxsize : ℕ) (linkid : UInt8) (malloc : Bool)
    (frameIesection : List UInt8) (mlieseq : ℕ) (staProf linkFrame : List UInt8) :
    Except Error (List UInt8) := do
  let (elemlist, elemextlist) ← getNoninheritlists staProf
  let start ← ssidIe subtype frameIesection staProf
  let l := frameIesection.drop start
  validateReportingstaIe l
  let m : Merge :=
    { subtype, maxsize, linkid, mlieRem := frameIesection.length - mlieseq, elemlist,
      elemextlist, malloc }
  let s ← mergeReporting m l { linkFrame, staProf }
  copyRemaining m s.staProf s.linkFrame

end Sm8850.Mlo.LinkFrame
