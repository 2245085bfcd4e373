/-
  Sections of elements, and what the code finds in them.

  * `Ie`, `encodeIes`: an element, and the bytes of a list of elements.
  * `encodeIes_injective`: a section is made of one list of elements.
  * `validateIe_bytes`, `findEid_first`, `findExtnEid_first`: the element at the start of the
    bytes, and the first one with an ID.
-/
import Sm8850.Mlo.LinkFrame

namespace Sm8850.Mlo.LinkFrame

open Lib.Bytes LinkInfo

/-! ## Elements -/

/-- An element: its ID and what is behind its length field. -/
structure Ie where
  id : UInt8
  body : List UInt8
  fits : body.length < 256

namespace Ie

def bytes (e : Ie) : List UInt8 := e.id :: UInt8.ofNat e.body.length :: e.body

/-- The ID extension of an element with the ID 255. -/
def extn (e : Ie) : Option UInt8 := if e.id = 255 then e.body.head? else none

/-- What an element is known by: its ID and its extension. -/
def key (e : Ie) : UInt8 × Option UInt8 := (e.id, e.extn)

/-- The element with its ID overwritten. -/
def mark (e : Ie) : Ie := { e with id := 0 }

/-- An element with the ID 255 has an extension. -/
def HasExtn (e : Ie) : Prop := e.id = 255 → e.body ≠ []

variable {e e' : Ie} {l : List UInt8}

theorem length_bytes : e.bytes.length = e.body.length + 2 := rfl

theorem toNat_length : (UInt8.ofNat e.body.length).toNat = e.body.length := by
  have h := e.fits
  rw [UInt8.toNat_ofNat']
  omega

@[simp] theorem idPos_bytes : idPos (e.bytes ++ l) = e.id := rfl

@[simp] theorem tagLenPos_bytes : (tagLenPos (e.bytes ++ l)).toNat = e.body.length := toNat_length

@[simp] theorem ieSize_bytes : ieSize (e.bytes ++ l) = e.bytes.length := by
  rw [ieSize, tagLenPos_bytes, length_bytes]

@[simp] theorem take_bytes : (e.bytes ++ l).take e.bytes.length = e.bytes := List.take_left

@[simp] theorem drop_bytes : (e.bytes ++ l).drop e.bytes.length = l := List.drop_left

theorem idextPos_bytes {x : UInt8} (h : e.body.head? = some x) :
    idextPos (e.bytes ++ l) = x := by
  obtain ⟨body, hbody⟩ : ∃ body, e.body = x :: body := List.head?_eq_some_iff.1 h
  rw [idextPos, bytes, hbody]
  rfl

theorem key_eq_iff_of_id (h : e.id ≠ 255) : e'.key = e.key ↔ e'.id = e.id := by
  refine ⟨fun hkey => congrArg Prod.fst hkey, fun hid => ?_⟩
  rw [key, key, extn, extn, hid, if_neg h, if_neg h]

theorem key_eq_extn {x : UInt8} : e.key = (255, some x) ↔ e.id = 255 ∧ e.body.head? = some x := by
  constructor
  · intro hkey
    have hid : e.id = 255 := congrArg Prod.fst hkey
    have hextn : e.extn = some x := congrArg Prod.snd hkey
    rw [extn, if_pos hid] at hextn
    exact ⟨hid, hextn⟩
  · rintro ⟨hid, hx⟩
    rw [key, extn, if_pos hid, hid, hx]

theorem key_eq_iff_of_extn {x : UInt8} (hid : e.id = 255) (h : e.body.head? = some x) :
    e'.key = e.key ↔ e'.id = 255 ∧ e'.body.head? = some x := by
  rw [key_eq_extn.2 ⟨hid, h⟩]
  exact key_eq_extn

theorem HasExtn.exists_head (h : e.HasExtn) (hid : e.id = 255) : ∃ x, e.body.head? = some x := by
  cases hbody : e.body with
  | nil => exact absurd hbody (h hid)
  | cons x body => exact ⟨x, rfl⟩

theorem hasExtn_of_key {x : UInt8} (h : e.key = (255, some x)) : e.HasExtn := by
  intro _ hbody
  have hhead := (key_eq_extn.1 h).2
  rw [hbody] at hhead
  cases hhead

@[simp] theorem mark_id : e.mark.id = 0 := rfl

@[simp] theorem length_bytes_mark : e.mark.bytes.length = e.bytes.length := rfl

theorem mark_eq (h : e.id = 0) : e.mark = e := by
  obtain ⟨id, body, fits⟩ := e
  cases h
  rfl

end Ie

/-- The bytes of a section. -/
def encodeIes (es : List Ie) : List UInt8 := es.flatMap Ie.bytes

section Sections

variable {e : Ie} {es es' a b : List Ie} {l : List UInt8}

@[simp] theorem encodeIes_nil : encodeIes [] = [] := rfl

@[simp] theorem encodeIes_cons : encodeIes (e :: es) = e.bytes ++ encodeIes es := by
  rw [encodeIes, List.flatMap_cons]
  rfl

@[simp] theorem encodeIes_append : encodeIes (a ++ b) = encodeIes a ++ encodeIes b :=
  List.flatMap_append

theorem encodeIes_eq_nil : encodeIes es = [] ↔ es = [] := by
  cases es with
  | nil => exact iff_of_true rfl rfl
  | cons e es => exact iff_of_false (by rw [encodeIes_cons]; exact nofun) nofun

/-- A section is made of one list of elements. -/
theorem encodeIes_injective (h : encodeIes es = encodeIes es') : es = es' := by
  induction es generalizing es' with
  | nil => exact (encodeIes_eq_nil.1 h.symm).symm
  | cons e es ih =>
    cases es' with
    | nil => exact encodeIes_eq_nil.1 h
    | cons e' es' =>
      rw [encodeIes_cons, encodeIes_cons] at h
      have hid : e.id = e'.id := by
        rw [← Ie.idPos_bytes (e := e), h, Ie.idPos_bytes]
      have hlen : e.body.length = e'.body.length := by
        rw [← Ie.tagLenPos_bytes (e := e) (l := encodeIes es), h, Ie.tagLenPos_bytes]
      have hbytes := List.append_inj h (by rw [Ie.length_bytes, Ie.length_bytes, hlen])
      have hbody : e.body = e'.body := by
        have hdrop := congrArg (List.drop 2) hbytes.1
        exact hdrop
      have he : e = e' := by
        obtain ⟨id, body, fits⟩ := e
        obtain ⟨id', body', fits'⟩ := e'
        cases hid
        cases hbody
        rfl
      rw [he, ih hbytes.2]

/-- Overwriting the ID of an element marks it. -/
theorem set_encodeIes :
    (encodeIes (a ++ e :: b)).set (encodeIes a).length 0 = encodeIes (a ++ e.mark :: b) := by
  rw [encodeIes_append, encodeIes_append, List.set_append_right _ _ (Nat.le_refl _), Nat.sub_self,
    encodeIes_cons, encodeIes_cons]
  rfl

theorem drop_encodeIes :
    (encodeIes (a ++ e :: b)).drop (encodeIes a).length = e.bytes ++ encodeIes b := by
  rw [encodeIes_append, List.drop_left, encodeIes_cons]

/-- The first of a list with a property. -/
theorem exists_first (p : Ie → Prop) (es : List Ie) :
    (∀ x ∈ es, ¬ p x) ∨ ∃ a e b, es = a ++ e :: b ∧ p e ∧ ∀ x ∈ a, ¬ p x := by
  induction es with
  | nil => exact .inl nofun
  | cons e es ih =>
    by_cases he : p e
    · exact .inr ⟨[], e, es, rfl, he, nofun⟩
    · rcases ih with hnone | ⟨a, x, b, rfl, hx, hfirst⟩
      · exact .inl fun y hy => (List.mem_cons.1 hy).elim (fun h => h ▸ he) (hnone y)
      · exact .inr ⟨e :: a, x, b, rfl, hx, fun y hy =>
          (List.mem_cons.1 hy).elim (fun h => h ▸ he) (hfirst y)⟩

/-! ## Checks -/

theorem validateIe_bytes {minSize : ℕ} (h : validateIe minSize (e.bytes ++ l) = .ok ()) :
    e.HasExtn := by
  intro hid hbody
  unfold validateIe at h
  split_ifs at h with _ _ _ hextn
  rw [Ie.idPos_bytes, Ie.ieSize_bytes, Ie.length_bytes, hbody] at hextn
  exact hextn ⟨hid, by decide⟩

theorem hasExtn_of_validateReporting (h : validateReportingstaIe (e.bytes ++ l) = .ok ()) :
    e.HasExtn :=
  validateIe_bytes h

/-! ## Searches -/

variable {eid x : UInt8}

theorem findEid_cons_eq (h : e.id = eid) : findEid eid (encodeIes (e :: es)) = some 0 := by
  rw [encodeIes_cons, Ie.bytes, List.cons_append, List.cons_append, findEid_cons, if_pos, if_pos h]
  rw [Ie.toNat_length, List.length_append]
  exact Nat.le_add_right _ _

theorem findEid_cons_ne (h : e.id ≠ eid) :
    findEid eid (encodeIes (e :: es)) =
      (findEid eid (encodeIes es)).map (e.bytes.length + ·) := by
  rw [encodeIes_cons, Ie.bytes, List.cons_append, List.cons_append, findEid_cons, if_pos, if_neg h,
    Ie.toNat_length, List.drop_left, Nat.add_comm 2]
  · rfl
  · rw [Ie.toNat_length, List.length_append]
    exact Nat.le_add_right _ _

theorem findEid_eq_none (h : ∀ e ∈ es, e.id ≠ eid) : findEid eid (encodeIes es) = none := by
  induction es with
  | nil =>
    rw [encodeIes_nil, findEid]
    rintro _ _ _ ⟨⟩
  | cons e es ih =>
    rw [findEid_cons_ne (h e (List.mem_cons_self ..)),
      ih fun x hx => h x (List.mem_cons_of_mem _ hx)]
    rfl

/-- **The first element** with the ID is found. -/
theorem findEid_first (ha : ∀ x ∈ a, x.id ≠ eid) (he : e.id = eid) :
    findEid eid (encodeIes (a ++ e :: b)) = some (encodeIes a).length := by
  induction a with
  | nil => exact findEid_cons_eq he
  | cons y a ih =>
    rw [List.cons_append, findEid_cons_ne (ha y (List.mem_cons_self ..)),
      ih fun x hx => ha x (List.mem_cons_of_mem _ hx), Option.map_some, encodeIes_cons,
      List.length_append]

theorem findExtnEid_cons_eq (hid : e.id = eid) (hx : e.body.head? = some x) :
    findExtnEid eid x (encodeIes (e :: es)) = some 0 := by
  obtain ⟨body, hbody⟩ : ∃ body, e.body = x :: body := List.head?_eq_some_iff.1 hx
  have hlen : UInt8.ofNat e.body.length ≠ 0 := by
    intro h
    have hnat := Ie.toNat_length (e := e)
    rw [h, hbody] at hnat
    cases hnat
  rw [encodeIes_cons, Ie.bytes, List.cons_append, List.cons_append, findExtnEid, if_pos, if_pos]
  · exact ⟨hlen, hid, by rw [hbody]; rfl⟩
  · rw [Ie.toNat_length, List.length_append, hbody, List.length_cons]
    omega

theorem findExtnEid_cons_ne (h : ¬ (e.id = eid ∧ e.body.head? = some x)) :
    findExtnEid eid x (encodeIes (e :: es)) =
      (findExtnEid eid x (encodeIes es)).map (e.bytes.length + ·) := by
  rw [encodeIes_cons, Ie.bytes, List.cons_append, List.cons_append, findExtnEid]
  by_cases hempty : e.body ++ encodeIes es = []
  · obtain ⟨-, hes⟩ := List.append_eq_nil_iff.1 hempty
    rw [if_neg (by rw [hempty]; exact fun h => absurd h.1 (by decide)), hes, findExtnEid]
    · rfl
    · rintro _ _ _ ⟨⟩
  · have hpos := List.length_pos_of_ne_nil hempty
    rw [if_pos, if_neg, Ie.toNat_length, List.drop_left, Nat.add_comm 2]
    · rfl
    · rintro ⟨hlen, hid, hx⟩
      refine h ⟨hid, ?_⟩
      cases hbody : e.body with
      | nil => rw [hbody] at hlen; exact absurd rfl hlen
      | cons y body => rwa [hbody] at hx
    · refine ⟨by omega, ?_⟩
      rw [Ie.toNat_length, List.length_append]
      exact Nat.le_add_right _ _

theorem findExtnEid_eq_none (h : ∀ e ∈ es, ¬ (e.id = eid ∧ e.body.head? = some x)) :
    findExtnEid eid x (encodeIes es) = none := by
  induction es with
  | nil =>
    rw [encodeIes_nil, findExtnEid]
    rintro _ _ _ ⟨⟩
  | cons e es ih =>
    rw [findExtnEid_cons_ne (h e (List.mem_cons_self ..)),
      ih fun y hy => h y (List.mem_cons_of_mem _ hy)]
    rfl

/-- **The first element** with the ID and the extension is found. -/
theorem findExtnEid_first (ha : ∀ y ∈ a, ¬ (y.id = eid ∧ y.body.head? = some x))
    (hid : e.id = eid) (hx : e.body.head? = some x) :
    findExtnEid eid x (encodeIes (a ++ e :: b)) = some (encodeIes a).length := by
  induction a with
  | nil => exact findExtnEid_cons_eq hid hx
  | cons y a ih =>
    rw [List.cons_append, findExtnEid_cons_ne (ha y (List.mem_cons_self ..)),
      ih fun z hz => ha z (List.mem_cons_of_mem _ hz), Option.map_some, encodeIes_cons,
      List.length_append]

end Sections

end Sm8850.Mlo.LinkFrame
