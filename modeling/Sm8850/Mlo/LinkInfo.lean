/-
  The Link Info field of a Multi-Link element: `utils_mlo.c`.

  * `parsePerstaprofileStactrl`: the fields of a per-STA profile.
  * `subelem`: the payload of the current subelement, put together in place if it is a sequence
    of fragments, and what is behind it.
  * `walk`: the loop over the subelements, which the two parsers share.
  * `parsePartnerInfo`, `findPerstaProf`: the parsers.

  A pointer into the field is its remaining bytes from there on.
-/
import Sm8850.Elem.Fragseq

namespace Sm8850.Mlo.LinkInfo

open Lib.Bytes Elem

/-! ## Per-STA profiles -/

/-- An error of `QDF_STATUS`, or an access outside of a buffer. -/
inductive Error where
  | eInval | eProto | eFailure | eNomem | eNullValue | outOfBounds
  deriving DecidableEq

/-- `n` bytes of a payload. -/
def bytesAt (payload : List UInt8) (off n : ℕ) : Except Error (List UInt8) :=
  match slice payload off n with
  | some b => .ok b
  | none => .error .outOfBounds

/-- A little-endian number. -/
def le : List UInt8 → ℕ
  | [] => 0
  | b :: l => b.toNat + 256 * le l

/-- `mlo_nstr_info`. -/
structure NstrInfo where
  linkId : ℕ
  nstrLpBitmap : ℕ

/-- What the parsers take from a per-STA profile. -/
structure Perstaprof where
  linkid : ℕ
  macaddr : Option (List UInt8)
  nstrInfo : Option NstrInfo
  staprof : Option (List UInt8)

/-- The parsed lengths of the payload and of its STA Info field. -/
structure Parsed where
  payloadLen : ℕ
  staInfoLen : ℕ

/-- Go over a field of STA Info that the STA control field announces. -/
def Parsed.field (c : Parsed) (payloadLen staInfoLen : ℕ) (present : Bool) (size : ℕ) :
    Except Error Parsed :=
  if present then
    if payloadLen < c.payloadLen + size then .error .eProto
    else if staInfoLen < c.staInfoLen + size then .error .eProto
    else .ok { payloadLen := c.payloadLen + size, staInfoLen := c.staInfoLen + size }
  else .ok c

/-- The NSTR bitmap of a complete profile has one octet or two. -/
def nstrSize (stacontrol : ℕ) : ℕ := if stacontrol.testBit 10 then 2 else 1

/-- The part behind STA Info, and behind fields that are not known. -/
def parseStaprof (payload : List UInt8) (staInfoLen : ℕ) (c : Parsed) :
    Except Error (List UInt8) :=
  if c.staInfoLen < staInfoLen ∧ payload.length < c.payloadLen + (staInfoLen - c.staInfoLen) then
    .error .eProto
  else
    let parsed := c.payloadLen + (staInfoLen - c.staInfoLen)
    if payload.length = parsed then .error .eProto
    else bytesAt payload parsed (payload.length - parsed)

/-- A value that is read if the STA control field announces it. -/
def ifPresent {α : Type} (present : Bool) (x : Except Error α) : Except Error (Option α) :=
  if present then x.map some else .ok none

/-- The NSTR info of a complete profile. -/
def nstrAt (payload : List UInt8) (off stacontrol : ℕ) : Except Error NstrInfo :=
  (bytesAt payload off (nstrSize stacontrol)).map fun b =>
    { linkId := stacontrol % 16, nstrLpBitmap := le b }

/-- The fields of STA Info behind the MAC address, and the STA profile.  The beacon interval,
    the TSF offset, the DTIM info and the change count are skipped. -/
def parseStaInfo (isStaprofReqd : Bool) (payload : List UInt8) (stacontrol staInfoLen : ℕ)
    (macaddr : Option (List UInt8)) (c : Parsed) : Except Error Perstaprof := do
  let completeprofile := stacontrol.testBit 4
  let c ← c.field payload.length staInfoLen (stacontrol.testBit 6) 2
  if stacontrol.testBit 7 ∧ completeprofile = false then .error .eProto
  else do
    let c ← c.field payload.length staInfoLen (stacontrol.testBit 7) 8
    let c ← c.field payload.length staInfoLen (stacontrol.testBit 8) 2
    let nstrlp := completeprofile && stacontrol.testBit 9
    let nstrlpoffset := c.payloadLen
    let c ← c.field payload.length staInfoLen nstrlp (nstrSize stacontrol)
    let nstrInfo ← ifPresent nstrlp (nstrAt payload nstrlpoffset stacontrol)
    let c ← c.field payload.length staInfoLen (stacontrol.testBit 11) 1
    let staprof ← ifPresent isStaprofReqd (parseStaprof payload staInfoLen c)
    return { linkid := stacontrol % 16, macaddr, nstrInfo, staprof }

/-- `util_parse_bvmlie_perstaprofile_stactrl`. -/
def parsePerstaprofileStactrl (isStaprofReqd : Bool) (payload : List UInt8) :
    Except Error Perstaprof :=
  if payload.length = 0 then .error .eInval
  else if payload.length < 2 then .error .eProto
  else do
    let stacontrol := le (← bytesAt payload 0 2)
    if payload.length < 2 + 1 then .error .eProto
    else do
      let staInfoLen := le (← bytesAt payload 2 1)
      let c : Parsed := { payloadLen := 3, staInfoLen := 1 }
      let macaddrp := stacontrol.testBit 5
      let c ← c.field payload.length staInfoLen macaddrp 6
      let macaddr ← ifPresent macaddrp (bytesAt payload 3 6)
      parseStaInfo isStaprofReqd payload stacontrol staInfoLen macaddr c

/-! ## Subelements -/

/-- `WLAN_ML_LINFO_SUBELEMID_FRAGMENT` is 254. -/
def linfo : ElemUnit := .subelem 254

def ofFault : Fault → Error
  | .eInval => .eInval
  | .eProto => .eProto
  | .outOfBounds => .outOfBounds

def lift {α : Type} : Except Fault α → Except Error α
  | .ok a => .ok a
  | .error e => .error (ofFault e)

/-- The remaining bytes with the current subelement defragmented, and its payload's length. -/
def defragSubelem (l : List UInt8) : Except Error (List UInt8 × ℕ) := do
  match ← lift (fragseqInfo linfo l) with
  | some (totallen, payloadlen) =>
    if payloadlen = 0 then .error .eFailure
    else do
      let (out, defraglen) ← lift (defragFragseq true linfo l [])
      if defraglen ≠ payloadlen then .error .eFailure
      else if totallen < payloadlen + 2 then .error .outOfBounds
      else return (out.take (l.length - (totallen - payloadlen - 2)), payloadlen)
  | none => do
    let len ← lift (read l 1)
    if l.length < 2 + len.toNat then .error .eProto else return (l, len.toNat)

/-- The ID and the payload of the current subelement, and the bytes behind it. -/
def subelem (l : List UInt8) : Except Error (UInt8 × List UInt8 × List UInt8) := do
  let id ← lift (read l 0)
  let (l, payloadlen) ← defragSubelem l
  let payload ← bytesAt l 2 payloadlen
  return (id, payload, l.drop (2 + payloadlen))

theorem length_bytesAt {l b : List UInt8} {off n : ℕ} (h : bytesAt l off n = .ok b) :
    off + n ≤ l.length := by
  unfold bytesAt at h
  split at h
  · exact (slice_eq_some ‹_›).1
  · cases h

theorem length_defragSubelem {l l' : List UInt8} {n : ℕ} (h : defragSubelem l = .ok (l', n)) :
    l'.length ≤ l.length := by
  obtain ⟨info, -, h⟩ := bind_eq_ok.1 h
  rcases info with _ | ⟨totallen, payloadlen⟩
  · obtain ⟨len, -, h⟩ := bind_eq_ok.1 h
    split_ifs at h
    cases h
    exact Nat.le_refl _
  · dsimp only at h
    split at h
    · cases h
    obtain ⟨⟨out, defraglen⟩, -, h⟩ := bind_eq_ok.1 h
    dsimp only at h
    split at h
    · cases h
    split at h
    · cases h
    cases h
    exact (List.length_take_le _ _).trans (Nat.sub_le _ _)

/-- A subelement takes its header at least. -/
theorem length_subelem {l payload rest : List UInt8} {id : UInt8}
    (h : subelem l = .ok (id, payload, rest)) : rest.length < l.length := by
  obtain ⟨id', -, h⟩ := bind_eq_ok.1 h
  obtain ⟨⟨l', n⟩, hdefrag, h⟩ := bind_eq_ok.1 h
  obtain ⟨payload', hpayload, h⟩ := bind_eq_ok.1 h
  cases h
  have hlen := length_defragSubelem hdefrag
  have hwithin := length_bytesAt hpayload
  rw [List.length_drop]
  omega

/-! ## The loop -/

/-- What the loop does with a subelement: it goes on, or it returns. -/
inductive Visit (σ ρ : Type) where
  | next (s : σ)
  | done (r : ρ)

/-- The loop over the subelements. -/
def walk {σ ρ : Type} (failed : σ → Error → ρ) (ended : σ → ρ)
    (visit : σ → UInt8 → List UInt8 → Visit σ ρ) (s : σ) (l : List UInt8) : ρ :=
  if l.length = 0 then ended s
  else if l.length < 2 then failed s .eProto
  else
    match _h : subelem l with
    | .error e => failed s e
    | .ok (id, payload, rest) =>
      match visit s id payload with
      | .done r => r
      | .next s => walk failed ended visit s rest
termination_by l.length
decreasing_by exact length_subelem _h

/-! ## The parsers -/

/-- An entry of `partner_link_info`; only an association response has a status code. -/
structure PartnerLink where
  linkId : ℕ
  linkAddr : List UInt8
  linkStatusCode : Option (List UInt8)
  deriving DecidableEq

/-- `mlo_partner_info`, with the entries in use of its two arrays. -/
structure PartnerInfo where
  partnerLinkInfo : List PartnerLink
  nstrInfo : List NstrInfo

/-- The sizes of the two arrays. -/
structure Sizes where
  partnerLinkInfo : ℕ
  nstrInfo : ℕ

/-- The entry for the NSTR info of a profile, if there is one. -/
def addNstrInfo (sizes : Sizes) (info : PartnerInfo) : Option NstrInfo → Option PartnerInfo
  | none => some info
  | some n =>
    if sizes.nstrInfo ≤ info.nstrInfo.length then none
    else some { info with nstrInfo := info.nstrInfo ++ [n] }

/-- The entry for the MAC address of a profile. -/
def addPartnerLink (sizes : Sizes) (assocResp : Bool) (info : PartnerInfo) (p : Perstaprof)
    (macaddr : List UInt8) : Except Error PartnerInfo :=
  if sizes.partnerLinkInfo ≤ info.partnerLinkInfo.length then .error .eNomem
  else if assocResp then
    let staprof := p.staprof.getD []
    if staprof.length < 2 + 2 then .error .eProto
    else do
      let statuscode ← bytesAt staprof 2 2
      return { info with partnerLinkInfo := info.partnerLinkInfo ++
        [{ linkId := p.linkid, linkAddr := macaddr, linkStatusCode := some statuscode }] }
  else
    .ok { info with partnerLinkInfo := info.partnerLinkInfo ++
      [{ linkId := p.linkid, linkAddr := macaddr, linkStatusCode := none }] }

/-- The body of the loop of `util_parse_partner_info_from_linkinfo`;
    `WLAN_ML_LINFO_SUBELEMID_PERSTAPROFILE` is 0. -/
def visitPartner (sizes : Sizes) (assocResp : Bool) (info : PartnerInfo) (id : UInt8)
    (payload : List UInt8) : Visit PartnerInfo (PartnerInfo × Option Error) :=
  if id = 0 then
    match parsePerstaprofileStactrl true payload with
    | .error e => .done (info, some e)
    | .ok p =>
      match addNstrInfo sizes info p.nstrInfo with
      | none => .done (info, some .eNomem)
      | some info =>
        match p.macaddr with
        | none => .next info
        | some macaddr =>
          match addPartnerLink sizes assocResp info p macaddr with
          | .error e => .done (info, some e)
          | .ok info => .next info
  else .next info

/-- `util_parse_partner_info_from_linkinfo`: the partner info, also where it ends early, and the
    error.  The number of partner links starts at zero, that of the NSTR entries where it was. -/
def parsePartnerInfo (sizes : Sizes) (assocResp : Bool) (linkinfo : List UInt8)
    (info : PartnerInfo) : PartnerInfo × Option Error :=
  if linkinfo.length = 0 then (info, some .eNullValue)
  else
    walk (fun info e => (info, some e)) (fun info => (info, none)) (visitPartner sizes assocResp)
      { info with partnerLinkInfo := [] } linkinfo

/-- The body of the loop of `util_find_bvmlie_persta_prof_for_linkid`. -/
def visitPersta (reqLinkId : ℕ) (id : UInt8) (payload : List UInt8) :
    Visit Unit (Except Error (List UInt8)) :=
  if id = 0 then
    match parsePerstaprofileStactrl false payload with
    | .error e => .done (.error e)
    | .ok p => if reqLinkId = p.linkid then .done (.ok payload) else .next ()
  else .next ()

/-- `util_find_bvmlie_persta_prof_for_linkid`: the payload of the per-STA profile. -/
def findPerstaProf (reqLinkId : ℕ) (linkinfo : List UInt8) : Except Error (List UInt8) :=
  if linkinfo.length = 0 then .error .eNullValue
  else walk (fun _ e => .error e) (fun _ => .error .eProto) (fun _ => visitPersta reqLinkId) ()
    linkinfo

end Sm8850.Mlo.LinkInfo
