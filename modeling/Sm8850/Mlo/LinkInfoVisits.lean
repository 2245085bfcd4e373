/-
  Fragmentation is transparent to the parsers of the Link Info field.

  * `encode`: the bytes of a list of subelements, with long payloads as sequences of fragments.
  * `walk_encode`: on these bytes the loop visits the payloads of the list in order.
  * `visits_partner`, `visits_persta`: what the two parsers make of the payloads.
  * `subelem_ne_fault`, `walk_induction`: on any bytes the accesses stay within the buffer.
  * **`linkinfo_transparent`** has all of it.
-/
import Sm8850.Mlo.LinkInfo
import Sm8850.Elem.FragseqWrite

namespace Sm8850.Mlo.LinkInfo

open Lib.Bytes Elem

variable {σ ρ : Type} {failed : σ → Error → ρ} {ended : σ → ρ}
variable {visit : σ → UInt8 → List UInt8 → Visit σ ρ}
variable {l payload tail : List UInt8} {id : UInt8} {xs : List (UInt8 × List UInt8)}

/-! ## Encodings -/

/-- A subelement, as a fragment sequence where that is required. -/
def encodeSubelem (x : UInt8 × List UInt8) : List UInt8 :=
  match requirements linfo x.1 x.2.length with
  | none => x.1 :: UInt8.ofNat x.2.length :: x.2
  | some req =>
    let buff := [0, 0] ++ x.2 ++ List.replicate (req - 2 - x.2.length) 0
    match createFragseq true linfo x.1 0 buff x.2.length [] with
    | .ok (out, len) => out.take len
    | .error _ => []

def encode (xs : List (UInt8 × List UInt8)) : List UInt8 := xs.flatMap encodeSubelem

/-- No fragment, and of fewer than 2 ^ 16 full fragments. -/
def Encodable (x : UInt8 × List UInt8) : Prop := x.1 ≠ 254 ∧ x.2.length / 255 < 2 ^ 16

theorem linfo_payloadlen : linfo.payloadlen id payload = payload.length := rfl

theorem linfo_body : linfo.body id 0 payload = payload := rfl

theorem encodeSubelem_short (h : payload.length ≤ 255) :
    encodeSubelem (id, payload) = id :: UInt8.ofNat payload.length :: payload := by
  have hreq : requirements linfo id payload.length = none := by
    have hsmall : payload.length ≤ (if linfo.hasExt id then 254 else 255) := h
    rw [requirements, creationParams, if_pos hsmall]
    rfl
  simp only [encodeSubelem, hreq]

theorem encodeSubelem_long (h : 255 < payload.length) (hfrags : payload.length / 255 < 2 ^ 16) :
    encodeSubelem (id, payload) = fragSequence 254 id payload := by
  have hn : 255 < payload.length + linfo.ext id := h
  have hnum : (payload.length + linfo.ext id) / 255 < 2 ^ 16 := hfrags
  have hparams := creationParams_eq linfo id payload.length hn (Nat.lt_trans hnum (by decide))
  have hext : linfo.ext id = 0 := rfl
  rw [hext, Nat.add_zero] at hparams
  have hreq : requirements linfo id payload.length =
      some (2 + payload.length + 2 * ((payload.length - 1) / 255)) := by
    rw [requirements, hparams]
    rfl
  have hgrow : 2 + payload.length + 2 * ((payload.length - 1) / 255) - 2 - payload.length =
      2 * ((payload.length - 1) / 255) := by omega
  have hcreate : createFragseq true linfo id 0
      ([0, 0] ++ payload ++ List.replicate (2 * ((payload.length - 1) / 255)) 0) payload.length [] =
      _ := createFragseq_inline hn hnum 0 [] rfl
        (by rw [List.length_replicate, hext]; rfl)
  rw [List.length_replicate, hext, Nat.add_zero, Nat.sub_self, List.take_zero, List.append_nil,
    linfo_body] at hcreate
  simp only [encodeSubelem, hreq, hgrow, hcreate]
  exact List.take_of_length_le (by rw [length_fragSequence _ _ h]; omega)

/-- A subelement starts with its ID and a length that it has. -/
theorem exists_encodeSubelem {x : UInt8 × List UInt8} (hx : Encodable x) :
    ∃ (len : UInt8) (rest : List UInt8), encodeSubelem x = x.1 :: len :: rest ∧
      len.toNat ≤ rest.length := by
  obtain ⟨id, payload⟩ := x
  by_cases h : payload.length ≤ 255
  · refine ⟨_, _, encodeSubelem_short h, ?_⟩
    rw [UInt8.toNat_ofNat']
    exact Nat.mod_le _ _
  · refine ⟨255, _, encodeSubelem_long (Nat.lt_of_not_le h) hx.2, ?_⟩
    rw [List.length_append, List.length_take]
    have hfull : (255 : UInt8).toNat = 255 := rfl
    omega

/-- What follows a subelement is no fragment. -/
theorem closes_encode (h : ∀ x ∈ xs, Encodable x) : Closes linfo (encode xs) := by
  rcases xs with _ | ⟨x, xs⟩
  · trivial
  · obtain ⟨len, rest, heq, hlen⟩ := exists_encodeSubelem (h x (List.mem_cons_self ..))
    rw [encode, List.flatMap_cons, heq, List.cons_append, List.cons_append]
    refine ⟨?_, (h x (List.mem_cons_self ..)).1⟩
    rw [List.length_append]
    omega

/-! ## One subelement -/

theorem lift_eq_ok {α : Type} {x : Except Fault α} {a : α} (h : x = .ok a) : lift x = .ok a := by
  rw [h]
  rfl

theorem bytesAt_eq {a b d : List UInt8} {off n : ℕ} (ha : a.length = off) (hb : b.length = n) :
    bytesAt (a ++ b ++ d) off n = .ok b := by
  rw [bytesAt, slice_append ha hb]

/-- A short payload is not taken for a sequence. -/
theorem fragseqInfo_short {len : UInt8} (hlen : payload.length = len.toNat)
    (htail : Closes linfo tail) :
    fragseqInfo linfo (id :: len :: (payload ++ tail)) = .ok none := by
  have hread : read (id :: len :: (payload ++ tail)) 1 = .ok len := rfl
  have hwhole : ¬ (id :: len :: (payload ++ tail)).length < 2 + len.toNat := by
    simp only [List.length_cons, List.length_append]
    omega
  rw [fragseqInfo, if_neg (by simp), if_neg (by simp), hread]
  simp only [bind, Except.bind, if_neg hwhole, successorfrag_of_closes hlen htail]

theorem subelem_short (h : payload.length ≤ 255) (htail : Closes linfo tail) :
    subelem (encodeSubelem (id, payload) ++ tail) = .ok (id, payload, tail) := by
  have hlen : payload.length = (UInt8.ofNat payload.length).toNat := by
    rw [UInt8.toNat_ofNat']
    omega
  rw [encodeSubelem_short h]
  set len := UInt8.ofNat payload.length
  have hdefrag : defragSubelem (id :: len :: (payload ++ tail)) =
      .ok (id :: len :: (payload ++ tail), payload.length) := by
    have hread : read (id :: len :: (payload ++ tail)) 1 = .ok len := rfl
    have hwhole : ¬ (id :: len :: (payload ++ tail)).length < 2 + len.toNat := by
      simp only [List.length_cons, List.length_append]
      omega
    simp only [defragSubelem, lift_eq_ok (fragseqInfo_short hlen htail), bind, Except.bind,
      lift_eq_ok hread, if_neg hwhole, pure, Except.pure, hlen]
  have hread0 : read (id :: len :: (payload ++ tail)) 0 = .ok id := rfl
  have hbytes : bytesAt (id :: len :: (payload ++ tail)) 2 payload.length = .ok payload :=
    bytesAt_eq (a := [id, len]) rfl rfl
  have hrest : (id :: len :: (payload ++ tail)).drop (2 + payload.length) = tail := by
    rw [← List.drop_drop]
    exact List.drop_left
  simp only [subelem, List.cons_append, lift_eq_ok hread0, hdefrag, bind, Except.bind, hbytes,
    hrest, pure, Except.pure]

theorem subelem_long (h : 255 < payload.length) (htail : Closes linfo tail) :
    subelem (fragSequence 254 id payload ++ tail) = .ok (id, payload, tail) := by
  have hinfo := fragseqInfo_fragSequence (k := linfo) id h htail
  obtain ⟨stale, hjoin, hstale⟩ := joinFrags_inline (k := linfo) h htail id []
  rw [← (defragFragseq_fragSequence (k := linfo) h htail []).1] at hjoin
  change fragseqInfo linfo (fragSequence 254 id payload ++ tail) = _ at hinfo
  change defragFragseq true linfo (fragSequence 254 id payload ++ tail) [] = _ at hjoin
  rw [linfo_payloadlen] at hinfo hjoin
  have hlen := length_fragSequence 254 id h
  change fragseqInfo linfo _ = .ok (some ((fragSequence 254 id payload).length, _)) at hinfo
  have htake : (id :: 255 :: (payload ++ tail ++ stale)).take
      ((fragSequence 254 id payload ++ tail).length -
        ((fragSequence 254 id payload).length - payload.length - 2)) =
      id :: 255 :: (payload ++ tail) := by
    have hrem : (fragSequence 254 id payload ++ tail).length -
        ((fragSequence 254 id payload).length - payload.length - 2) =
        (id :: 255 :: (payload ++ tail)).length := by
      simp only [List.length_append, List.length_cons]
      omega
    rw [hrem]
    exact List.take_left
  have hdefrag : defragSubelem (fragSequence 254 id payload ++ tail) =
      .ok (id :: 255 :: (payload ++ tail), payload.length) := by
    simp only [defragSubelem, lift_eq_ok hinfo, lift_eq_ok hjoin, bind, Except.bind, htake]
    rw [if_neg (by omega), if_neg (by simp), if_neg (by omega)]
    rfl
  have hread0 : read (fragSequence 254 id payload ++ tail) 0 = .ok id := rfl
  have hbytes : bytesAt (id :: 255 :: (payload ++ tail)) 2 payload.length = .ok payload :=
    bytesAt_eq (a := [id, 255]) rfl rfl
  have hrest : (id :: 255 :: (payload ++ tail)).drop (2 + payload.length) = tail := by
    rw [← List.drop_drop]
    exact List.drop_left
  simp only [subelem, lift_eq_ok hread0, hdefrag, bind, Except.bind, hbytes, hrest, pure,
    Except.pure]

/-- **A subelement** is read as its payload, however it is encoded. -/
theorem subelem_encode (hfrags : payload.length / 255 < 2 ^ 16) (htail : Closes linfo tail) :
    subelem (encodeSubelem (id, payload) ++ tail) = .ok (id, payload, tail) := by
  by_cases h : payload.length ≤ 255
  · exact subelem_short h htail
  · rw [encodeSubelem_long (Nat.lt_of_not_le h) hfrags]
    exact subelem_long (Nat.lt_of_not_le h) htail

/-! ## All subelements -/

/-- The visits to a list of payloads. -/
def visits (ended : σ → ρ) (visit : σ → UInt8 → List UInt8 → Visit σ ρ) :
    σ → List (UInt8 × List UInt8) → ρ
  | s, [] => ended s
  | s, x :: xs =>
    match visit s x.1 x.2 with
    | .done r => r
    | .next s => visits ended visit s xs

/-- **The loop** visits the payloads in order. -/
theorem walk_encode (h : ∀ x ∈ xs, Encodable x) (s : σ) :
    walk failed ended visit s (encode xs) = visits ended visit s xs := by
  induction xs generalizing s with
  | nil =>
    have hempty : (encode []).length = 0 := rfl
    rw [walk, if_pos hempty]
    rfl
  | cons x xs ih =>
    have hx := h x (List.mem_cons_self ..)
    have hxs : ∀ y ∈ xs, Encodable y := fun y hy => h y (List.mem_cons_of_mem _ hy)
    obtain ⟨len, rest, heq, -⟩ := exists_encodeSubelem hx
    have hsub : subelem (encode (x :: xs)) = .ok (x.1, x.2, encode xs) :=
      subelem_encode hx.2 (closes_encode hxs)
    have hlong : 2 ≤ (encode (x :: xs)).length := by
      rw [encode, List.flatMap_cons, heq]
      simp only [List.length_append, List.length_cons]
      omega
    rw [walk, if_neg (by omega), if_neg (by omega), hsub]
    simp only [visits]
    cases visit s x.1 x.2 with
    | done r => rfl
    | next s => exact ih hxs s

/-! ## No access outside of the field -/

section Faults

variable {α β : Type} {present isStaprofReqd : Bool} {c c' : Parsed} {payloadLen staInfoLen : ℕ}
variable {size stacontrol off n : ℕ} {macaddr : Option (List UInt8)}

theorem bind_ne_fault {x : Except Error α} {f : α → Except Error β}
    (hx : x ≠ .error .outOfBounds) (hf : ∀ a, x = .ok a → f a ≠ .error .outOfBounds) :
    x >>= f ≠ .error .outOfBounds := by
  cases x with
  | error e => exact fun h => hx (by cases h; rfl)
  | ok a => exact hf a rfl

theorem map_ne_fault {x : Except Error α} {f : α → β} (hx : x ≠ .error .outOfBounds) :
    x.map f ≠ .error .outOfBounds := by
  cases x with
  | error e => exact fun h => hx (by cases h; rfl)
  | ok a => exact nofun

theorem lift_ne_fault {x : Except Fault α} (hx : x ≠ .error .outOfBounds) :
    lift x ≠ .error .outOfBounds := by
  rcases x with (_ | _ | _) | a
  · exact nofun
  · exact nofun
  · exact absurd rfl hx
  · exact nofun

theorem bytesAt_ne_fault (h : off + n ≤ l.length) : bytesAt l off n ≠ .error .outOfBounds := by
  rw [bytesAt, slice_eq h]
  exact nofun

theorem ifPresent_ne_fault {x : Except Error α} (hx : present = true → x ≠ .error .outOfBounds) :
    ifPresent present x ≠ .error .outOfBounds := by
  unfold ifPresent
  split
  · exact map_ne_fault (hx ‹_›)
  · exact nofun

theorem field_ne_fault :
    c.field payloadLen staInfoLen present size ≠ .error .outOfBounds := by
  unfold Parsed.field
  split_ifs <;> exact nofun

/-- The parsed length stays within the payload. -/
theorem field_le (h : c.field payloadLen staInfoLen present size = .ok c')
    (hc : c.payloadLen ≤ payloadLen) :
    c'.payloadLen ≤ payloadLen ∧ (present = true → c.payloadLen + size ≤ payloadLen) := by
  unfold Parsed.field at h
  split_ifs at h with hp
  · cases h
    exact ⟨by dsimp only; omega, fun _ => by omega⟩
  · cases h
    exact ⟨hc, fun h => absurd h hp⟩

theorem parseStaprof_ne_fault (hc : c.payloadLen ≤ payload.length) :
    parseStaprof payload staInfoLen c ≠ .error .outOfBounds := by
  unfold parseStaprof
  split
  · exact nofun
  dsimp only
  split
  · exact nofun
  · exact bytesAt_ne_fault (by omega)

theorem parseStaInfo_ne_fault (hc : c.payloadLen ≤ payload.length) :
    parseStaInfo isStaprofReqd payload stacontrol staInfoLen macaddr c ≠
      .error .outOfBounds := by
  refine bind_ne_fault field_ne_fault fun c₁ h₁ => ?_
  have hc₁ := (field_le h₁ hc).1
  dsimp only
  split
  · exact nofun
  refine bind_ne_fault field_ne_fault fun c₂ h₂ => ?_
  have hc₂ := (field_le h₂ hc₁).1
  refine bind_ne_fault field_ne_fault fun c₃ h₃ => ?_
  have hc₃ := (field_le h₃ hc₂).1
  refine bind_ne_fault field_ne_fault fun c₄ h₄ => ?_
  obtain ⟨hc₄, hnstr⟩ := field_le h₄ hc₃
  refine bind_ne_fault (ifPresent_ne_fault fun hp => ?_) fun nstrInfo _ => ?_
  · exact map_ne_fault (bytesAt_ne_fault (hnstr hp))
  refine bind_ne_fault field_ne_fault fun c₅ h₅ => ?_
  have hc₅ := (field_le h₅ hc₄).1
  refine bind_ne_fault (ifPresent_ne_fault fun _ => parseStaprof_ne_fault hc₅) fun staprof _ => ?_
  exact nofun

/-- A per-STA profile is read within its payload. -/
theorem parsePerstaprofileStactrl_ne_fault :
    parsePerstaprofileStactrl isStaprofReqd payload ≠ .error .outOfBounds := by
  unfold parsePerstaprofileStactrl
  split
  · exact nofun
  split
  · exact nofun
  refine bind_ne_fault (bytesAt_ne_fault (by omega)) fun control _ => ?_
  dsimp only
  split
  · exact nofun
  refine bind_ne_fault (bytesAt_ne_fault (by omega)) fun len _ => ?_
  refine bind_ne_fault field_ne_fault fun c h => ?_
  obtain ⟨hc, hmac⟩ := field_le h (by dsimp only; omega)
  refine bind_ne_fault (ifPresent_ne_fault fun hp => bytesAt_ne_fault (hmac hp)) fun mac _ => ?_
  exact parseStaInfo_ne_fault hc

/-- The bytes of a subelement are read and moved within the field, whatever it holds. -/
theorem subelem_ne_fault (h : 2 ≤ l.length) : subelem l ≠ .error .outOfBounds := by
  obtain ⟨id, hid⟩ := exists_read (l := l) (i := 0) (by omega)
  obtain ⟨len, hlen⟩ := exists_read (l := l) (i := 1) (by omega)
  cases hinfo : fragseqInfo linfo l with
  | error e =>
    have he := lift_ne_fault (x := fragseqInfo linfo l) fragseqInfo_ne_fault
    refine bind_ne_fault (lift_ne_fault (by rw [hid]; exact nofun)) fun _ _ =>
      bind_ne_fault (bind_ne_fault he fun a ha => ?_) fun a ha => ?_
    · rw [hinfo] at ha
      cases ha
    · obtain ⟨info, ha, -⟩ := bind_eq_ok.1 ha
      rw [hinfo] at ha
      cases ha
  | ok info =>
    rcases info with _ | ⟨totallen, payloadlen⟩
    · refine bind_ne_fault (lift_ne_fault (by rw [hid]; exact nofun)) fun _ _ => ?_
      simp only [defragSubelem, lift_eq_ok hinfo, lift_eq_ok hlen, bind, Except.bind]
      split_ifs with hshort
      · exact nofun
      · exact bind_ne_fault (bytesAt_ne_fault (Nat.le_of_not_lt hshort)) fun _ _ => nofun
    · obtain ⟨id, b, tail, rfl, hb, htail⟩ := exists_fragSequence hinfo
      change subelem (fragSequence 254 id b ++ tail) ≠ _
      rw [subelem_long hb htail]
      exact nofun

theorem walk_induction {P : ρ → Prop} (hfailed : ∀ s e, e ≠ .outOfBounds → P (failed s e))
    (hended : ∀ s, P (ended s)) (hdone : ∀ s id payload r, visit s id payload = .done r → P r)
    (s : σ) (l : List UInt8) : P (walk failed ended visit s l) := by
  induction hn : l.length using Nat.strong_induction_on generalizing s l with
  | _ n ih =>
    subst hn
    rw [walk]
    split
    · exact hended s
    split
    · exact hfailed s _ nofun
    split
    · next e he => exact hfailed s e fun h => subelem_ne_fault (by omega) (h ▸ he)
    · next id payload rest hsub =>
      split
      · next r hr => exact hdone s id payload r hr
      · next s' _ => exact ih _ (length_subelem hsub) s' rest rfl

theorem addPartnerLink_ne_fault {sizes : Sizes} {assocResp : Bool} {info : PartnerInfo}
    {p : Perstaprof} {macaddr : List UInt8} :
    addPartnerLink sizes assocResp info p macaddr ≠ .error .outOfBounds := by
  unfold addPartnerLink
  split
  · exact nofun
  split
  · dsimp only
    split
    · exact nofun
    · exact bind_ne_fault (bytesAt_ne_fault (by omega)) fun _ _ => nofun
  · exact nofun

theorem parsePartnerInfo_ne_fault {sizes : Sizes} {assocResp : Bool} {info : PartnerInfo} :
    (parsePartnerInfo sizes assocResp l info).2 ≠ some .outOfBounds := by
  unfold parsePartnerInfo
  split
  · exact nofun
  refine walk_induction (P := fun r : PartnerInfo × Option Error => r.2 ≠ some .outOfBounds)
    ?_ ?_ ?_ _ l
  · intro s e he h
    exact he (Option.some.inj h)
  · intro s h
    cases h
  · intro s id payload r hr h
    unfold visitPartner at hr
    split at hr
    · split at hr
      · next e he =>
        cases hr
        cases h
        exact parsePerstaprofileStactrl_ne_fault he
      split at hr
      · cases hr
        cases h
      split at hr
      · cases hr
      split at hr
      · next e he =>
        cases hr
        cases h
        exact addPartnerLink_ne_fault he
      · cases hr
    · cases hr

theorem findPerstaProf_ne_fault {reqLinkId : ℕ} :
    findPerstaProf reqLinkId l ≠ .error .outOfBounds := by
  unfold findPerstaProf
  split
  · exact nofun
  refine walk_induction (P := fun r : Except Error (List UInt8) => r ≠ .error .outOfBounds)
    ?_ ?_ ?_ _ l
  · intro s e he h
    cases h
    exact he rfl
  · intro s h
    cases h
  · intro s id payload r hr h
    unfold visitPersta at hr
    split at hr
    · split at hr
      · next e he =>
        cases hr
        cases h
        exact parsePerstaprofileStactrl_ne_fault he
      split at hr
      · cases hr
        cases h
      · cases hr
    · cases hr

end Faults

/-! ## What the parsers return -/

section Returns

variable {sizes : Sizes} {assocResp : Bool} {reqLinkId : ℕ}

/-- The partner entry of a subelement, if it is a per-STA profile with a MAC address. -/
def partnerLink (assocResp : Bool) (x : UInt8 × List UInt8) : Option PartnerLink :=
  if x.1 = 0 then
    match parsePerstaprofileStactrl true x.2 with
    | .error _ => none
    | .ok p => p.macaddr.map fun macaddr =>
      { linkId := p.linkid
        linkAddr := macaddr
        linkStatusCode := if assocResp then some (((p.staprof.getD []).drop 2).take 2) else none }
  else none

/-- Why a per-STA profile ends the parse: its fields, a full array, or an association response
    without a status code. -/
def Rejects (sizes : Sizes) (assocResp : Bool) (info : PartnerInfo) (x : UInt8 × List UInt8)
    (e : Error) : Prop :=
  x.1 = 0 ∧
    (parsePerstaprofileStactrl true x.2 = .error e ∨
      (e = .eNomem ∧ (sizes.partnerLinkInfo ≤ info.partnerLinkInfo.length ∨
        sizes.nstrInfo ≤ info.nstrInfo.length)) ∨
      (e = .eProto ∧ assocResp = true ∧ ∃ p, parsePerstaprofileStactrl true x.2 = .ok p ∧
        (p.staprof.getD []).length < 4))

/-- The entries are those of all subelements, or of the ones in front of a rejected one. -/
def PartnersOf (sizes : Sizes) (assocResp : Bool) (xs : List (UInt8 × List UInt8))
    (r : PartnerInfo × Option Error) : Prop :=
  (r.2 = none → r.1.partnerLinkInfo = xs.filterMap (partnerLink assocResp)) ∧
    ∀ e, r.2 = some e → ∃ front x back, xs = front ++ x :: back ∧
      Rejects sizes assocResp r.1 x e ∧
      r.1.partnerLinkInfo = front.filterMap (partnerLink assocResp)

/-- A per-STA profile of the link that is asked for. -/
def Matches (reqLinkId : ℕ) (x : UInt8 × List UInt8) : Prop :=
  x.1 = 0 ∧ ∃ p, parsePerstaprofileStactrl false x.2 = .ok p ∧ p.linkid = reqLinkId

/-- Another subelement, or the per-STA profile of another link. -/
def Passes (reqLinkId : ℕ) (x : UInt8 × List UInt8) : Prop :=
  x.1 = 0 → ∃ p, parsePerstaprofileStactrl false x.2 = .ok p ∧ p.linkid ≠ reqLinkId

theorem addNstrInfo_eq_some {info info' : PartnerInfo} {n : Option NstrInfo}
    (h : addNstrInfo sizes info n = some info') :
    info'.partnerLinkInfo = info.partnerLinkInfo := by
  unfold addNstrInfo at h
  split at h
  · cases h
    rfl
  · split at h
    · cases h
    · cases h
      rfl

theorem addNstrInfo_eq_none {info : PartnerInfo} {n : Option NstrInfo}
    (h : addNstrInfo sizes info n = none) : sizes.nstrInfo ≤ info.nstrInfo.length := by
  unfold addNstrInfo at h
  split at h
  · cases h
  · split at h
    · assumption
    · cases h

/-- An entry that is added is the last. -/
theorem addPartnerLink_eq_ok {info info' : PartnerInfo} {p : Perstaprof} {macaddr : List UInt8}
    (h : addPartnerLink sizes assocResp info p macaddr = .ok info') :
    info'.partnerLinkInfo = info.partnerLinkInfo ++
      [{ linkId := p.linkid
         linkAddr := macaddr
         linkStatusCode :=
           if assocResp then some (((p.staprof.getD []).drop 2).take 2) else none }] := by
  unfold addPartnerLink at h
  split at h
  · cases h
  split at h
  · next hassoc =>
    dsimp only at h
    split at h
    · cases h
    obtain ⟨b, hb, h⟩ := bind_eq_ok.1 h
    cases h
    unfold bytesAt at hb
    split at hb
    · next b' hslice =>
      cases hb
      rw [(slice_eq_some hslice).2, if_pos hassoc]
    · cases hb
  · next hassoc =>
    cases h
    rw [if_neg hassoc]

/-- An entry is not added to a full array, nor without the status code of a response. -/
theorem addPartnerLink_eq_error {info : PartnerInfo} {p : Perstaprof} {macaddr : List UInt8}
    {e : Error} (h : addPartnerLink sizes assocResp info p macaddr = .error e) :
    (e = .eNomem ∧ sizes.partnerLinkInfo ≤ info.partnerLinkInfo.length) ∨
      (e = .eProto ∧ assocResp = true ∧ (p.staprof.getD []).length < 4) := by
  unfold addPartnerLink at h
  split at h
  · next hfull =>
    cases h
    exact .inl ⟨rfl, hfull⟩
  split at h
  · next hassoc =>
    dsimp only at h
    split at h
    · next hshort =>
      cases h
      exact .inr ⟨rfl, hassoc, hshort⟩
    · next hlong =>
      have hb : bytesAt (p.staprof.getD []) 2 2 = .ok (((p.staprof.getD []).drop 2).take 2) := by
        rw [bytesAt, slice_eq (by omega)]
      rw [hb] at h
      cases h
  · cases h

/-- A visit adds the entry of its subelement. -/
theorem visitPartner_next {info info' : PartnerInfo} {x : UInt8 × List UInt8}
    (h : visitPartner sizes assocResp info x.1 x.2 = .next info') :
    info'.partnerLinkInfo = info.partnerLinkInfo ++ (partnerLink assocResp x).toList := by
  by_cases hid : x.1 = 0
  · rw [visitPartner, if_pos hid] at h
    rw [partnerLink, if_pos hid]
    cases hp : parsePerstaprofileStactrl true x.2 with
    | error e =>
      rw [hp] at h
      cases h
    | ok p =>
      rw [hp] at h
      dsimp only at h ⊢
      cases hnstr : addNstrInfo sizes info p.nstrInfo with
      | none =>
        rw [hnstr] at h
        cases h
      | some info₁ =>
        rw [hnstr] at h
        dsimp only at h
        rw [← addNstrInfo_eq_some hnstr]
        cases hmac : p.macaddr with
        | none =>
          rw [hmac] at h
          cases h
          exact (List.append_nil _).symm
        | some macaddr =>
          rw [hmac] at h
          dsimp only at h
          cases hadd : addPartnerLink sizes assocResp info₁ p macaddr with
          | error e =>
            rw [hadd] at h
            cases h
          | ok info₂ =>
            rw [hadd] at h
            cases h
            exact addPartnerLink_eq_ok hadd
  · rw [visitPartner, if_neg hid] at h
    cases h
    rw [partnerLink, if_neg hid]
    exact (List.append_nil _).symm

/-- A visit that ends the parse rejects its subelement and adds no entry. -/
theorem visitPartner_done {info : PartnerInfo} {r : PartnerInfo × Option Error}
    {x : UInt8 × List UInt8} (h : visitPartner sizes assocResp info x.1 x.2 = .done r) :
    ∃ e, r.2 = some e ∧ Rejects sizes assocResp r.1 x e ∧
      r.1.partnerLinkInfo = info.partnerLinkInfo := by
  by_cases hid : x.1 = 0
  · rw [visitPartner, if_pos hid] at h
    cases hp : parsePerstaprofileStactrl true x.2 with
    | error e =>
      rw [hp] at h
      cases h
      exact ⟨e, rfl, ⟨hid, .inl hp⟩, rfl⟩
    | ok p =>
      rw [hp] at h
      dsimp only at h
      cases hnstr : addNstrInfo sizes info p.nstrInfo with
      | none =>
        rw [hnstr] at h
        cases h
        exact ⟨_, rfl, ⟨hid, .inr (.inl ⟨rfl, .inr (addNstrInfo_eq_none hnstr)⟩)⟩, rfl⟩
      | some info₁ =>
        rw [hnstr] at h
        dsimp only at h
        cases hmac : p.macaddr with
        | none =>
          rw [hmac] at h
          cases h
        | some macaddr =>
          rw [hmac] at h
          dsimp only at h
          cases hadd : addPartnerLink sizes assocResp info₁ p macaddr with
          | error e =>
            rw [hadd] at h
            cases h
            refine ⟨e, rfl, ⟨hid, .inr ?_⟩, addNstrInfo_eq_some hnstr⟩
            exact (addPartnerLink_eq_error hadd).imp (fun h => ⟨h.1, .inl h.2⟩)
              (fun h => ⟨h.1, h.2.1, p, hp, h.2.2⟩)
          | ok info₂ =>
            rw [hadd] at h
            cases h
  · rw [visitPartner, if_neg hid] at h
    cases h

theorem partnersOf_visits (info : PartnerInfo) :
    let r := visits (fun info => (info, none)) (visitPartner sizes assocResp) info xs
    (r.2 = none →
        r.1.partnerLinkInfo = info.partnerLinkInfo ++ xs.filterMap (partnerLink assocResp)) ∧
      ∀ e, r.2 = some e → ∃ front x back, xs = front ++ x :: back ∧
        Rejects sizes assocResp r.1 x e ∧
        r.1.partnerLinkInfo =
          info.partnerLinkInfo ++ front.filterMap (partnerLink assocResp) := by
  induction xs generalizing info with
  | nil =>
    refine ⟨fun _ => (List.append_nil _).symm, fun e he => ?_⟩
    cases he
  | cons x xs ih =>
    dsimp only [visits]
    cases hvisit : visitPartner sizes assocResp info x.1 x.2 with
    | done r =>
      obtain ⟨e, he, hrejects, hlinks⟩ := visitPartner_done hvisit
      refine ⟨fun h => ?_, fun e' he' => ?_⟩
      · rw [he] at h
        cases h
      · rw [he] at he'
        cases he'
        exact ⟨[], x, xs, rfl, hrejects, by rw [hlinks]; exact (List.append_nil _).symm⟩
    | next info' =>
      have hnext := visitPartner_next hvisit
      obtain ⟨hdone, herror⟩ := ih info'
      have hcons : ∀ ys : List (UInt8 × List UInt8),
          info'.partnerLinkInfo ++ ys.filterMap (partnerLink assocResp) =
            info.partnerLinkInfo ++ (x :: ys).filterMap (partnerLink assocResp) := by
        intro ys
        rw [hnext, List.append_assoc, List.filterMap_cons]
        cases partnerLink assocResp x <;> rfl
      refine ⟨fun h => by rw [hdone h, hcons], fun e he => ?_⟩
      obtain ⟨front, y, back, rfl, hrejects, hlinks⟩ := herror e he
      exact ⟨x :: front, y, back, rfl, hrejects, by rw [hlinks, hcons]⟩

/-- A subelement is the one asked for, is passed, or is a malformed profile. -/
theorem visitPersta_cases (reqLinkId : ℕ) (x : UInt8 × List UInt8) :
    (Matches reqLinkId x ∧ ¬ Passes reqLinkId x ∧
        visitPersta reqLinkId x.1 x.2 = .done (.ok x.2)) ∨
      (Passes reqLinkId x ∧ ¬ Matches reqLinkId x ∧ visitPersta reqLinkId x.1 x.2 = .next ()) ∨
      (¬ Passes reqLinkId x ∧ ¬ Matches reqLinkId x ∧
        ∃ e, visitPersta reqLinkId x.1 x.2 = .done (.error e)) := by
  unfold visitPersta
  by_cases hid : x.1 = 0
  · rw [if_pos hid]
    cases hparse : parsePerstaprofileStactrl false x.2 with
    | error e =>
      have hnone : ∀ p, parsePerstaprofileStactrl false x.2 ≠ .ok p := by
        intro p hp
        rw [hparse] at hp
        cases hp
      exact .inr (.inr ⟨fun h => hnone _ (h hid).choose_spec.1,
        fun h => hnone _ h.2.choose_spec.1, e, rfl⟩)
    | ok p =>
      dsimp only
      split
      · next hreq =>
        refine .inl ⟨⟨hid, p, hparse, hreq.symm⟩, fun h => ?_, rfl⟩
        obtain ⟨q, hq, hlink⟩ := h hid
        rw [hparse] at hq
        cases hq
        exact hlink hreq.symm
      · next hreq =>
        refine .inr (.inl ⟨fun _ => ⟨p, hparse, Ne.symm hreq⟩, fun h => ?_, rfl⟩)
        obtain ⟨-, q, hq, hlink⟩ := h
        rw [hparse] at hq
        cases hq
        exact hreq hlink.symm
  · rw [if_neg hid]
    exact .inr (.inl ⟨fun h => absurd h hid, fun h => hid h.1, rfl⟩)

/-- The profile found is the first of its link, with no malformed one in front. -/
theorem visits_persta {payload : List UInt8} :
    visits (fun _ => .error .eProto) (fun _ => visitPersta reqLinkId) () xs = .ok payload ↔
      ∃ front x back, xs = front ++ x :: back ∧ x.2 = payload ∧ Matches reqLinkId x ∧
        ∀ y ∈ front, Passes reqLinkId y := by
  induction xs with
  | nil =>
    refine ⟨fun h => (by cases h), ?_⟩
    rintro ⟨front, x, back, h, -⟩
    exact absurd h.symm (List.append_ne_nil_of_right_ne_nil _ (List.cons_ne_nil _ _))
  | cons x xs ih =>
    rw [visits]
    constructor
    · intro h
      obtain ⟨hmatch, -, hvisit⟩ | ⟨hpass, -, hvisit⟩ | ⟨-, -, e, hvisit⟩ :=
        visitPersta_cases reqLinkId x
      · rw [hvisit] at h
        cases h
        exact ⟨[], x, xs, rfl, rfl, hmatch, fun z hz => by cases hz⟩
      · rw [hvisit] at h
        obtain ⟨front, y, back, rfl, hpayload, hmatch, hfront⟩ := ih.1 h
        refine ⟨x :: front, y, back, rfl, hpayload, hmatch, fun z hz => ?_⟩
        rcases List.mem_cons.1 hz with rfl | hz
        · exact hpass
        · exact hfront z hz
      · rw [hvisit] at h
        cases h
    · rintro ⟨front, y, back, heq, rfl, hmatch, hfront⟩
      rcases front with _ | ⟨z, front⟩
      · cases heq
        obtain ⟨-, -, hvisit⟩ | ⟨-, hno, -⟩ | ⟨-, hno, -⟩ :=
          visitPersta_cases reqLinkId x
        · rw [hvisit]
        · exact absurd hmatch hno
        · exact absurd hmatch hno
      · cases heq
        have hpass := hfront x (List.mem_cons_self ..)
        obtain ⟨-, hno, -⟩ | ⟨-, -, hvisit⟩ | ⟨hno, -⟩ :=
          visitPersta_cases reqLinkId x
        · exact absurd hpass hno
        · rw [hvisit]
          exact ih.2 ⟨front, y, back, rfl, rfl, hmatch,
            fun z hz => hfront z (List.mem_cons_of_mem _ hz)⟩
        · exact absurd hpass hno

theorem length_encode (hxs : xs ≠ []) (h : ∀ x ∈ xs, Encodable x) : (encode xs).length ≠ 0 := by
  rcases xs with _ | ⟨x, xs⟩
  · exact absurd rfl hxs
  · obtain ⟨len, rest, heq, -⟩ := exists_encodeSubelem (h x (List.mem_cons_self ..))
    rw [encode, List.flatMap_cons, heq]
    exact nofun

theorem parsePartnerInfo_encode (hxs : xs ≠ []) (h : ∀ x ∈ xs, Encodable x)
    (info : PartnerInfo) :
    parsePartnerInfo sizes assocResp (encode xs) info =
      visits (fun info => (info, none)) (visitPartner sizes assocResp)
        { info with partnerLinkInfo := [] } xs := by
  rw [parsePartnerInfo, if_neg (length_encode hxs h), walk_encode h]

theorem findPerstaProf_encode (hxs : xs ≠ []) (h : ∀ x ∈ xs, Encodable x) :
    findPerstaProf reqLinkId (encode xs) =
      visits (fun _ => .error .eProto) (fun _ => visitPersta reqLinkId) () xs := by
  rw [findPerstaProf, if_neg (length_encode hxs h), walk_encode h]

/-- **Fragmentation is transparent**: the parsers visit the payloads in order, up to one that
    ends the parse.  Each per-STA profile with a MAC address in front of it has its partner
    entry, and the profile found is the first of its link, with no malformed one in front.  On
    any bytes the loop ends, and every access is within the field. -/
theorem linkinfo_transparent (sizes : Sizes) (assocResp : Bool) (info : PartnerInfo)
    (reqLinkId : ℕ) (hxs : xs ≠ []) (h : ∀ x ∈ xs, Encodable x) :
    parsePartnerInfo sizes assocResp (encode xs) info =
        visits (fun info => (info, none)) (visitPartner sizes assocResp)
          { info with partnerLinkInfo := [] } xs ∧
      PartnersOf sizes assocResp xs (parsePartnerInfo sizes assocResp (encode xs) info) ∧
      (∀ payload, findPerstaProf reqLinkId (encode xs) = .ok payload ↔
        ∃ front x back, xs = front ++ x :: back ∧ x.2 = payload ∧ Matches reqLinkId x ∧
          ∀ y ∈ front, Passes reqLinkId y) ∧
      ∀ l, (parsePartnerInfo sizes assocResp l info).2 ≠ some .outOfBounds ∧
        findPerstaProf reqLinkId l ≠ .error .outOfBounds := by
  refine ⟨parsePartnerInfo_encode hxs h info, ?_, ?_, ?_⟩
  · rw [parsePartnerInfo_encode hxs h]
    exact partnersOf_visits _
  · intro payload
    rw [findPerstaProf_encode hxs h]
    exact visits_persta
  · intro l
    exact ⟨parsePartnerInfo_ne_fault, findPerstaProf_ne_fault⟩

/-- A per-STA profile of link 1 behind a fragmented vendor subelement. -/
theorem findPerstaProf_behind_fragments :
    findPerstaProf 1 (encode [(221, List.replicate 300 7), (0, [1, 0, 1, 9])]) =
      .ok [1, 0, 1, 9] :=
  ((linkinfo_transparent { partnerLinkInfo := 2, nstrInfo := 2 } false
    { partnerLinkInfo := [], nstrInfo := [] } 1 (List.cons_ne_nil _ _) (by
      intro x hx
      simp only [List.mem_cons, List.not_mem_nil, or_false] at hx
      rcases hx with rfl | rfl
      · exact ⟨by decide, by rw [List.length_replicate]; decide⟩
      · exact ⟨by decide, by decide⟩)).2.2.1 _).2
    ⟨[(221, List.replicate 300 7)], (0, [1, 0, 1, 9]), [], rfl, rfl, ⟨rfl, _, rfl, rfl⟩, by
      intro y hy h
      rw [List.mem_singleton.1 hy] at h
      exact absurd h (by decide)⟩

/-- A per-STA profile without a payload ends the parse: the profile of link 1 behind it has no
    partner entry and is not found. -/
theorem not_visited_behind_empty :
    [(0, []), (0, [33, 0, 7, 1, 2, 3, 4, 5, 6, 9])].filterMap (partnerLink false) =
        [{ linkId := 1, linkAddr := [1, 2, 3, 4, 5, 6], linkStatusCode := none }] ∧
      parsePartnerInfo { partnerLinkInfo := 2, nstrInfo := 2 } false
          (encode [(0, []), (0, [33, 0, 7, 1, 2, 3, 4, 5, 6, 9])])
          { partnerLinkInfo := [], nstrInfo := [] } =
        ({ partnerLinkInfo := [], nstrInfo := [] }, some .eInval) ∧
      findPerstaProf 1 (encode [(0, []), (0, [33, 0, 7, 1, 2, 3, 4, 5, 6, 9])]) =
        .error .eInval := by
  have h : ∀ x ∈ [((0 : UInt8), ([] : List UInt8)), (0, [33, 0, 7, 1, 2, 3, 4, 5, 6, 9])],
      Encodable x := by
    intro x hx
    simp only [List.mem_cons, List.not_mem_nil, or_false] at hx
    rcases hx with rfl | rfl <;> exact ⟨by decide, by decide⟩
  refine ⟨by decide, ?_, ?_⟩
  · rw [parsePartnerInfo_encode (List.cons_ne_nil _ _) h]
    rfl
  · rw [findPerstaProf_encode (List.cons_ne_nil _ _) h]
    rfl

end Returns

end Sm8850.Mlo.LinkInfo
