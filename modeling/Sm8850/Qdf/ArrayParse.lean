/-
  When the array parsers do what their comments say.

  * The parts of a string are what is between its commas; `accept` is what the loop stores for
    one of them, and `readParts` how far it gets (`arrayLoop_spec`).
  * `ArrayMeets`: a list of integers of the type is stored as that, on all others the parser
    fails, and nothing is stored but the integers that the parts denote.
  * `Overread`: the parts that are taken for an integer they do not denote.  Besides those of
    the scalar parsers these are the integers that need more than 32 bits, as
    `qdf_int32_array_parse` checks for 64.
  * **`arrayParse_meets_iff`**: the parsers meet this unless such a part is reached, or a zero
    of an unsigned type has a minus.
-/
import Mathlib.Data.List.Forall2
import Sm8850.Qdf.Misread

namespace Sm8850.Qdf

open Lib

/-! ## The array types -/

inductive ArrayType
  | int32 | uint32 | uint16 | uint8

namespace ArrayType

/-- The type of the elements. -/
def elem : ArrayType → IntType
  | int32 => .int32
  | uint32 => .uint32
  | uint16 => .uint16
  | uint8 => .uint8

/-- The type that the range check is made for. -/
def checked : ArrayType → IntType
  | int32 => .int64
  | uint32 => .uint32
  | uint16 => .uint16
  | uint8 => .uint8

/-- The check of one element. -/
def check : (t : ArrayType) → BitVec 64 → Bool → Option (BitVec t.elem.width)
  | int32 => int32Elem
  | uint32 => uintElem 32
  | uint16 => uintElem 16
  | uint8 => uintElem 8

/-- The parser for an array of the type. -/
def parse : (t : ArrayType) → List UInt8 → ℕ → ArrayResult t.elem.width
  | int32 => qdfInt32ArrayParse
  | uint32 => qdfUint32ArrayParse
  | uint16 => qdfUint16ArrayParse
  | uint8 => qdfUint8ArrayParse

theorem parse_eq (t : ArrayType) (s : List UInt8) (arraySize : ℕ) :
    t.parse s arraySize = arrayLoop t.check arraySize s [] := by
  cases t <;> rfl

end ArrayType

variable {t : ArrayType} {s p rest post : List UInt8} {ps : List (List UInt8)} {l : Literal}
  {value : BitVec 64} {negate : Bool} {arraySize k : ℕ} {i : ℤ}

/-! ## Statement -/

/-- The parts of a list. -/
def parts (s : List UInt8) : List (List UInt8) := s.splitOn ','.toUInt8

/-- The string denotes the list of integers. -/
def DenotesList (s : List UInt8) (is : List ℤ) : Prop := List.Forall₂ Denotes (parts s) is

/-- What is to hold of a call. -/
structure ArrayMeets (t : ArrayType) (s : CString) (arraySize : ℕ) : Prop where
  stores : ∀ is, DenotesList s.bytes is → is.length ≤ arraySize → (∀ i ∈ is, t.elem.Fits i) →
    ∃ xs, t.parse s.bytes arraySize = ⟨.success, xs, some xs.length⟩ ∧ xs.map t.elem.read = is
  fails : (∀ is, DenotesList s.bytes is → is.length ≤ arraySize → ¬ ∀ i ∈ is, t.elem.Fits i) →
    (t.parse s.bytes arraySize).status ≠ .success
  elements : ∀ (k : ℕ) (x : BitVec t.elem.width),
    (t.parse s.bytes arraySize).stored[k]? = some x →
      ∃ p, (parts s.bytes)[k]? = some p ∧ Denotes p (t.elem.read x)

/-- The parts that are taken for an integer they do not denote. -/
inductive Overread (t : ArrayType) (p : List UInt8) : Prop
  | noDigit (l : Literal) : Spells p l → l.radix ≠ .dec → l.digits = [] → l.SignFits t.elem →
      Overread t p
  | overflow (l : Literal) : Spells p l → 2 ^ 64 ≤ l.magnitude → l.Grows →
      t.checked.Fits l.wrapped → l.SignFits t.elem → Overread t p
  | narrowed (i : ℤ) : Denotes p i → t.checked.Fits i → ¬ t.elem.Fits i → Overread t p

/-- The parts that are read as what they denote. -/
def WellRead (t : ArrayType) (p : List UInt8) : Prop :=
  ∃ l, Spells p l ∧ l.digits ≠ [] ∧ t.elem.Fits l.number ∧ l.SignFits t.elem

/-- The strings that the parser gets wrong: such a part comes after well read ones, or the
    integers are all of an unsigned type but there is a zero with a minus. -/
inductive ArrayMisread (t : ArrayType) (s : CString) (arraySize : ℕ) : Prop
  | overread (k : ℕ) (p : List UInt8) : k < arraySize → (parts s.bytes)[k]? = some p →
      Overread t p → (∀ j < k, ∀ q, (parts s.bytes)[j]? = some q → WellRead t q) →
      ArrayMisread t s arraySize
  | minusZero (p : List UInt8) (l : Literal) : (parts s.bytes).length ≤ arraySize →
      (∀ q ∈ parts s.bytes, ∃ i, Denotes q i ∧ t.elem.Fits i) → p ∈ parts s.bytes → Spells p l →
      l.digits ≠ [] → l.magnitude = 0 → ¬ l.SignFits t.elem → ArrayMisread t s arraySize

/-! ## One element -/

/-- What is stored for a part. -/
def accept (t : ArrayType) (p : List UInt8) : Option (BitVec t.elem.width) :=
  (qdfIntParse p).toOption.bind fun r => t.check r.1 r.2

theorem fits_read (t : IntType) (x : BitVec t.width) : t.Fits (t.read x) := by
  have hlt := x.isLt
  have hlow := BitVec.le_toInt x
  have hhigh := BitVec.toInt_lt (x := x)
  have hnat : (0 : ℤ) ≤ x.toNat ∧ (x.toNat : ℤ) < 2 ^ t.width :=
    ⟨Int.natCast_nonneg _, by exact_mod_cast hlt⟩
  cases t with
  | int32 => exact ⟨hlow, hhigh⟩
  | int64 => exact ⟨hlow, hhigh⟩
  | uint8 => exact hnat
  | uint16 => exact hnat
  | uint32 => exact hnat
  | uint64 => exact hnat

/-- The check of `qdf_int32_array_parse` is that for 64 bits; the lower half is stored. -/
theorem int32Elem_spec (value : BitVec 64) (negate : Bool) :
    (int32Elem value negate = none ∧ ¬ Takes .int64 value negate) ∨
      ∃ x, int32Elem value negate = some x ∧ Takes .int64 value negate ∧
        (IntType.int32.Fits (signedNumber value negate) →
          IntType.int32.read x = signedNumber value negate) := by
  have hcheck := int64_check value negate
  have helem : int32Elem value negate =
      if (if negate then 0 < (-value).toInt else value.toInt < 0) then none
      else some ((if negate then -value else value).setWidth 32) := by
    cases negate <;> rfl
  rw [helem]
  rcases hcheck with ⟨hout, hnot⟩ | ⟨hin, hx, hfits⟩
  · exact .inl ⟨if_pos hout, fun htakes => hnot htakes.1⟩
  · refine .inr ⟨_, if_neg hin, ⟨hfits, fun _ => rfl⟩, fun hfits32 => ?_⟩
    rw [← hx] at hfits32 ⊢
    exact toInt_setWidth_32 ((int32_check _).2 hfits32)

theorem uintElem_eq {w : ℕ} (value : BitVec 64) (negate : Bool) : uintElem w value negate =
    if negate = true ∨ 2 ^ w ≤ value.toNat then none else some (value.setWidth w) := by
  unfold uintElem
  simp only [ne_eq, uint_check, Nat.not_lt, or_comm]

/-- The check of the other array parsers is that for their own type. -/
theorem uintElem_spec (u : IntType) (hsigned : u.signed = false) (value : BitVec 64)
    (negate : Bool) :
    (uintElem u.width value negate = none ∧ ¬ Takes u value negate) ∨
      ∃ x, uintElem u.width value negate = some x ∧ Takes u value negate ∧
        (u.Fits (signedNumber value negate) → u.read x = signedNumber value negate) := by
  rw [uintElem_eq]
  by_cases hrefused : negate = true ∨ 2 ^ u.width ≤ value.toNat
  · refine .inl ⟨if_pos hrefused, fun htakes => ?_⟩
    obtain ⟨hfits, hsign⟩ := htakes
    cases negate with
    | true => exact absurd (hsign rfl) (by rw [hsigned]; exact Bool.false_ne_true)
    | false =>
      unfold IntType.Fits at hfits
      rw [hsigned] at hfits
      have hlarge : 2 ^ u.width ≤ value.toNat := hrefused.resolve_left Bool.false_ne_true
      have hlt : (value.toNat : ℤ) < 2 ^ u.width := hfits.2
      exact absurd hlarge (Nat.not_le.2 (by exact_mod_cast hlt))
  · obtain ⟨hneg, hlarge⟩ := not_or.1 hrefused
    obtain rfl : negate = false := Bool.eq_false_iff.2 hneg
    have hlt : value.toNat < 2 ^ u.width := Nat.not_le.1 hlarge
    have hlt' : (value.toNat : ℤ) < 2 ^ u.width := by exact_mod_cast hlt
    refine .inr ⟨_, if_neg hrefused, ⟨?_, fun h => absurd h Bool.false_ne_true⟩, fun _ => ?_⟩
    · unfold IntType.Fits
      rw [hsigned]
      exact ⟨Int.natCast_nonneg _, hlt'⟩
    · unfold IntType.read
      rw [hsigned]
      show (((value.setWidth u.width).toNat : ℕ) : ℤ) = value.toNat
      rw [BitVec.toNat_setWidth, Nat.mod_eq_of_lt hlt]

/-- **What an element check takes**, and when it keeps the number. -/
theorem check_spec (t : ArrayType) (value : BitVec 64) (negate : Bool) :
    (t.check value negate = none ∧ ¬ Takes t.checked value negate) ∨
      ∃ x, t.check value negate = some x ∧ Takes t.checked value negate ∧
        (t.elem.Fits (signedNumber value negate) →
          t.elem.read x = signedNumber value negate) := by
  cases t with
  | int32 => exact int32Elem_spec value negate
  | uint32 => exact uintElem_spec .uint32 rfl value negate
  | uint16 => exact uintElem_spec .uint16 rfl value negate
  | uint8 => exact uintElem_spec .uint8 rfl value negate

variable {x : BitVec t.elem.width}

theorem signFits_checked (t : ArrayType) (l : Literal) :
    l.SignFits t.checked ↔ l.SignFits t.elem := by
  cases t <;> rfl

/-- What is stored for a literal. -/
theorem accept_literal (h : Spells p l) (hfull : l.Full) :
    (l.Grows ∧ t.checked.Fits l.wrapped ∧ l.SignFits t.elem ∧
        ∃ x, accept t p = some x ∧ (t.elem.Fits l.wrapped → t.elem.read x = l.wrapped)) ∨
      (¬ (l.Grows ∧ t.checked.Fits l.wrapped ∧ l.SignFits t.elem) ∧ accept t p = none) := by
  obtain ⟨hok, herror⟩ := qdfIntParse_literal h hfull
  by_cases hgrows : l.Grows
  · have haccept : accept t p =
        t.check (BitVec.ofNat 64 l.magnitude) (decide (l.sign = .minus)) := by
      unfold accept
      rw [hok hgrows]
      rfl
    have hspec := check_spec t (BitVec.ofNat 64 l.magnitude) (decide (l.sign = .minus))
    rw [takes_literal, signedNumber_literal, ← haccept, signFits_checked] at hspec
    rcases hspec with ⟨hnone, hnot⟩ | ⟨x, hx, htakes, hread⟩
    · exact .inr ⟨fun h => hnot h.2, hnone⟩
    · exact .inl ⟨hgrows, htakes.1, htakes.2, x, hx, hread⟩
  · obtain ⟨status, hstatus⟩ := herror hgrows
    refine .inr ⟨fun h => hgrows h.1, ?_⟩
    unfold accept
    rw [hstatus]
    rfl

/-- What is stored comes from a literal. -/
theorem spells_of_accept (hp : 0 ∉ p) (h : accept t p = some x) : ∃ l, Spells p l ∧ l.Full := by
  unfold accept at h
  cases hparse : qdfIntParse p with
  | error status =>
    rw [hparse] at h
    cases h
  | ok r =>
    obtain ⟨l, hl, hfull, -⟩ := qdfIntParse_ok hp hparse
    exact ⟨l, hl, hfull⟩

theorem checked_of_elem {i : ℤ} (h : t.elem.Fits i) : t.checked.Fits i := by
  cases t with
  | int32 =>
    obtain ⟨hlow, hhigh⟩ : -2 ^ 31 ≤ i ∧ i < 2 ^ 31 := h
    exact ⟨by show -2 ^ 63 ≤ i; omega, by show i < 2 ^ 63; omega⟩
  | uint32 => exact h
  | uint16 => exact h
  | uint8 => exact h

/-- A well read part is stored as what it denotes. -/
theorem accept_of_wellRead (h : WellRead t p) :
    ∃ x, accept t p = some x ∧ Denotes p (t.elem.read x) := by
  obtain ⟨l, hl, hdigits, hfits, hsign⟩ := h
  have hlt := magnitude_lt_of_fits hfits
  have hwrapped := wrapped_of_lt hlt
  rw [← hwrapped] at hfits
  rcases accept_literal hl (l.full_of_digits hdigits) (t := t) with
    ⟨-, -, -, x, hx, hread⟩ | ⟨hnot, -⟩
  · exact ⟨x, hx, l, hl, hdigits, by rw [hread hfits, hwrapped]⟩
  · exact absurd ⟨l.grows_of_lt hlt, checked_of_elem hfits, hsign⟩ hnot

/-- Where a part is stored as something else, it is one of the three kinds. -/
theorem wellRead_or_overread (hp : 0 ∉ p) (h : accept t p = some x) :
    WellRead t p ∨ Overread t p := by
  obtain ⟨l, hl, hfull⟩ := spells_of_accept hp h
  rcases accept_literal hl hfull (t := t) with ⟨hgrows, hchecked, hsign, -⟩ | ⟨-, hnone⟩
  · by_cases hdigits : l.digits = []
    · exact .inr (.noDigit l hl (fun hdec => hfull hdec hdigits) hdigits hsign)
    rcases Nat.lt_or_ge l.magnitude (2 ^ 64) with hlt | hlarge
    · rw [wrapped_of_lt hlt] at hchecked
      by_cases hfits : t.elem.Fits l.number
      · exact .inl ⟨l, hl, hdigits, hfits, hsign⟩
      · exact .inr (.narrowed _ ⟨l, hl, hdigits, rfl⟩ hchecked hfits)
    · exact .inr (.overflow l hl hlarge hgrows hchecked hsign)
  · rw [hnone] at h
    cases h

/-- What is stored for such a part is nothing that it denotes. -/
theorem accept_of_overread (h : Overread t p) :
    ∃ x, accept t p = some x ∧ ¬ Denotes p (t.elem.read x) := by
  have hstored : ∀ l : Literal, Spells p l → l.Full → l.Grows → t.checked.Fits l.wrapped →
      l.SignFits t.elem → (l.digits ≠ [] → ¬ t.elem.Fits l.number) →
      ∃ x, accept t p = some x ∧ ¬ Denotes p (t.elem.read x) := by
    intro l hl hfull hgrows hchecked hsign hnone
    rcases accept_literal hl hfull (t := t) with ⟨-, -, -, x, hx, -⟩ | ⟨hnot, -⟩
    · refine ⟨x, hx, fun hdenotes => ?_⟩
      obtain ⟨hdigits, hnumber⟩ := denotes_literal hl hfull hdenotes
      exact hnone hdigits (hnumber ▸ fits_read t.elem x)
    · exact absurd ⟨hgrows, hchecked, hsign⟩ hnot
  cases h with
  | noDigit l hl hradix hdigits hsign =>
    have hzero := magnitude_of_noDigit hdigits
    have hlt : l.magnitude < 2 ^ 64 := by omega
    have hwrapped : l.wrapped = 0 := by
      rw [wrapped_of_lt hlt, Literal.number, hzero]
      simp
    exact hstored l hl (fun hdec => absurd hdec hradix) (l.grows_of_lt hlt)
      (hwrapped ▸ fits_zero t.checked) hsign (fun hne => absurd hdigits hne)
  | overflow l hl hlarge hgrows hchecked hsign =>
    have hdigits : l.digits ≠ [] := fun hnil => by
      have := magnitude_of_noDigit hnil
      omega
    exact hstored l hl (l.full_of_digits hdigits) hgrows hchecked hsign
      (fun _ hfits => absurd (magnitude_lt_of_fits hfits) (Nat.not_lt.2 hlarge))
  | narrowed i hi hchecked hnot =>
    obtain ⟨l, hl, hdigits, rfl⟩ := hi
    have hlt := magnitude_lt_of_fits hchecked
    have hsign : l.SignFits t.elem := by
      cases t with
      | int32 => exact fun _ => rfl
      | uint32 => exact absurd hchecked hnot
      | uint16 => exact absurd hchecked hnot
      | uint8 => exact absurd hchecked hnot
    exact hstored l hl (l.full_of_digits hdigits) (l.grows_of_lt hlt)
      (by rwa [wrapped_of_lt hlt]) hsign (fun _ => hnot)

/-! ## One turn of the loop -/

theorem isSpace_comma : isSpace ','.toUInt8 = false := by decide

theorem not_white_of_comma (h : White s) : ','.toUInt8 ∉ s := fun hmem =>
  absurd (h _ hmem) (by rw [isSpace_comma]; exact Bool.false_ne_true)

theorem Literal.comma_notMem (l : Literal) : ','.toUInt8 ∉ l.text := by
  intro hmem
  rw [Literal.text, List.mem_append, List.mem_append] at hmem
  rcases hmem with hsign | hmark | hdigit
  · revert hsign
    cases l.sign <;> decide
  · revert hmark
    cases l.radix <;> decide
  · obtain ⟨d, hd, -⟩ := l.isDigit _ hdigit
    rw [hexDigit_of_stop (.inr rfl)] at hd
    cases hd

/-- What comes after a part: nothing, or a comma and the other parts. -/
def Closes (rest : List UInt8) : Prop := ∀ c ∈ rest.head?, c = ','.toUInt8

/-- The part before the first comma. -/
theorem takeWhile_part (hp : ','.toUInt8 ∉ p) (hrest : Closes rest) :
    (p ++ rest).takeWhile (· ≠ ','.toUInt8) = p := by
  have hall : ∀ c ∈ p, decide (c ≠ ','.toUInt8) = true := fun c hc =>
    decide_eq_true fun heq => hp (heq ▸ hc)
  rw [List.takeWhile_append_of_pos hall]
  cases rest with
  | nil => exact List.append_nil p
  | cons c rest =>
    obtain rfl : c = ','.toUInt8 := hrest c rfl
    exact List.append_nil p

theorem append_closes {q rest' : List UInt8} (hp : ','.toUInt8 ∉ p) (hrest : Closes rest)
    (hq : ','.toUInt8 ∉ q) (hrest' : Closes rest') (h : p ++ rest = q ++ rest') :
    p = q ∧ rest = rest' := by
  have hpq : p = q := by rw [← takeWhile_part hp hrest, h, takeWhile_part hq hrest']
  exact ⟨hpq, List.append_cancel_left (hpq ▸ h)⟩

theorem Closes.stops (hpost : White post) (hrest : Closes rest) : Stops (post ++ rest) := by
  intro c hc
  cases post with
  | nil => exact .inr (hrest c hc)
  | cons a post =>
    obtain rfl : a = c := Option.some.inj hc
    exact .inl (hpost a List.mem_cons_self)

/-- A part that is an integer is read up to its end. -/
theorem lazy_of_ok (hp : 0 ∉ p) (hrest : Closes rest) (h : qdfIntParse p = .ok (value, negate)) :
    ∃ post, White post ∧ qdfIntParseLazy (p ++ rest) = .ok (value, negate, post ++ rest) := by
  obtain ⟨l, ⟨pre, post, hpre, hpost, rfl⟩, hfull, hgrows, rfl, rfl⟩ := qdfIntParse_ok hp h
  refine ⟨post, hpost, ?_⟩
  rw [List.append_assoc, List.append_assoc]
  exact (qdfIntParseLazy_eq hfull hpre (hrest.stops hpost)).1 hgrows

theorem trim_closes (hpost : White post) (hrest : Closes rest) :
    qdfStrLeftTrim (post ++ rest) = rest := by
  rw [qdfStrLeftTrim_white hpost]
  cases rest with
  | nil => rfl
  | cons c rest =>
    obtain rfl : c = ','.toUInt8 := hrest c rfl
    rfl

/-- Where the number ends the part, the part is an integer. -/
theorem ok_of_lazy {s' : List UInt8} (hcomma : ','.toUInt8 ∉ p) (hrest : Closes rest)
    (h : qdfIntParseLazy (p ++ rest) = .ok (value, negate, s')) (hs : Closes (qdfStrLeftTrim s')) :
    qdfIntParse p = .ok (value, negate) := by
  obtain ⟨l, pre, hfull, hpre, heq, hgrows, rfl, rfl⟩ := qdfIntParseLazy_ok h
  have hwhite : White (s'.takeWhile isSpace) := fun c hc => List.mem_takeWhile_imp hc
  have hsplit : p ++ rest = (pre ++ (l.text ++ s'.takeWhile isSpace)) ++ qdfStrLeftTrim s' := by
    rw [heq, List.append_assoc, List.append_assoc, qdfStrLeftTrim, List.takeWhile_append_dropWhile]
  have hnot : ','.toUInt8 ∉ pre ++ (l.text ++ s'.takeWhile isSpace) := by
    rw [List.mem_append, List.mem_append, not_or, not_or]
    exact ⟨not_white_of_comma hpre, l.comma_notMem, not_white_of_comma hwhite⟩
  obtain ⟨rfl, -⟩ := append_closes hcomma hrest hnot hs hsplit
  exact (qdfIntParse_literal ⟨pre, _, hpre, hwhite, rfl⟩ hfull).1 hgrows

theorem closes_of_first (h0 : 0 ∉ s) (h : first s = ','.toUInt8 ∨ first s = 0) : Closes s := by
  intro c hc
  cases s with
  | nil => cases hc
  | cons a s =>
    obtain rfl : a = c := Option.some.inj hc
    rcases h with h | h
    · exact h
    · obtain rfl : a = 0 := h
      exact absurd List.mem_cons_self h0

/-- What the loop does behind a part. -/
def loopBehind (t : ArrayType) (left : ℕ) (stored : List (BitVec t.elem.width)) :
    List UInt8 → ArrayResult t.elem.width
  | [] => ⟨.success, stored, some stored.length⟩
  | _ :: s => arrayLoop t.check left s stored

/-- **A turn of the loop** stores what is stored for the part, or ends with an error. -/
theorem arrayLoop_turn (left : ℕ) (stored : List (BitVec t.elem.width)) (h0 : 0 ∉ p ++ rest)
    (hcomma : ','.toUInt8 ∉ p) (hrest : Closes rest) :
    (∃ x, accept t p = some x ∧ arrayLoop t.check (left + 1) (p ++ rest) stored =
        loopBehind t left (stored ++ [x]) rest) ∨
      (accept t p = none ∧ ∃ status, status ≠ .success ∧
        arrayLoop t.check (left + 1) (p ++ rest) stored = ⟨status, stored, none⟩) := by
  have hp : 0 ∉ p := fun h => h0 (List.mem_append_left _ h)
  cases hparse : qdfIntParse p with
  | ok r =>
    obtain ⟨value, negate⟩ := r
    obtain ⟨post, hpost, hlazy⟩ := lazy_of_ok hp hrest hparse
    have haccept : accept t p = t.check value negate := by
      unfold accept
      rw [hparse]
      rfl
    rw [haccept, arrayLoop, hlazy]
    dsimp only
    cases hcheck : t.check value negate with
    | none => exact .inr ⟨rfl, _, QdfStatus.noConfusion, rfl⟩
    | some x =>
      refine .inl ⟨x, rfl, ?_⟩
      dsimp only
      rw [trim_closes hpost hrest]
      cases rest with
      | nil =>
        rw [loopBehind, List.length_append]
        rfl
      | cons c rest =>
        obtain rfl : c = ','.toUInt8 := hrest c rfl
        rfl
  | error status =>
    have hnone : accept t p = none := by
      unfold accept
      rw [hparse]
      rfl
    refine .inr ⟨hnone, ?_⟩
    rw [arrayLoop]
    cases hlazy : qdfIntParseLazy (p ++ rest) with
    | error status => exact ⟨status, qdfIntParseLazy_error hlazy, rfl⟩
    | ok r =>
      obtain ⟨value, negate, s'⟩ := r
      -- something else than white space follows the number in its part
      have hfirst : first (qdfStrLeftTrim s') ≠ ','.toUInt8 ∧ first (qdfStrLeftTrim s') ≠ 0 := by
        rw [← not_or]
        intro hend
        have h0' : 0 ∉ qdfStrLeftTrim s' := fun hmem => by
          obtain ⟨l, pre, -, -, heq, -⟩ := qdfIntParseLazy_ok hlazy
          have hmem' : (0 : UInt8) ∈ s' := (List.dropWhile_sublist _).subset hmem
          rw [heq] at h0
          exact h0 (List.mem_append_right _ (List.mem_append_right _ hmem'))
        have hok := ok_of_lazy hcomma hrest hlazy (closes_of_first h0' hend)
        rw [hok] at hparse
        cases hparse
      dsimp only
      cases t.check value negate with
      | none => exact ⟨_, QdfStatus.noConfusion, rfl⟩
      | some x =>
        dsimp only
        rw [if_neg hfirst.1, if_neg hfirst.2]
        exact ⟨_, QdfStatus.noConfusion, rfl⟩

/-! ## The whole loop -/

/-- How far the loop gets over the parts: what it stores, and whether it gets to the end. -/
def readParts (t : ArrayType) : ℕ → List (List UInt8) → List (BitVec t.elem.width) × Bool
  | _, [] => ([], true)
  | 0, _ :: _ => ([], false)
  | left + 1, p :: ps =>
    match accept t p with
    | none => ([], false)
    | some x => (x :: (readParts t left ps).1, (readParts t left ps).2)

theorem readParts_cons (left : ℕ) (p : List UInt8) (ps : List (List UInt8)) :
    readParts t (left + 1) (p :: ps) =
      match accept t p with
      | none => ([], false)
      | some x => (x :: (readParts t left ps).1, (readParts t left ps).2) := rfl

@[simp] theorem readParts_nil (left : ℕ) : readParts t left [] = ([], true) := by
  cases left <;> rfl

theorem splitOn_cases (s : List UInt8) :
    (','.toUInt8 ∉ s ∧ parts s = [s]) ∨
      ∃ p s', ','.toUInt8 ∉ p ∧ s = p ++ ','.toUInt8 :: s' ∧ parts s = p :: parts s' := by
  by_cases hmem : ','.toUInt8 ∈ s
  · obtain ⟨p, s', rfl, hp⟩ := List.eq_append_cons_of_mem hmem
    exact .inr ⟨p, s', hp, rfl, List.splitOn_append_cons_self_of_not_mem hp s'⟩
  · exact .inl ⟨hmem, List.splitOn_eq_singleton hmem⟩

/-- What the loop has stored when it ends, and how it ends. -/
structure Ends (t : ArrayType) (stored : List (BitVec t.elem.width))
    (r : List (BitVec t.elem.width) × Bool) (result : ArrayResult t.elem.width) : Prop where
  stored : result.stored = stored ++ r.1
  success : r.2 = true → result.status = .success ∧ result.outSize = some result.stored.length
  failure : r.2 = false → result.status ≠ .success

/-- **The loop goes through the parts** of the string. -/
theorem arrayLoop_spec (left : ℕ) (s : List UInt8) (h0 : 0 ∉ s)
    (stored : List (BitVec t.elem.width)) :
    Ends t stored (readParts t left (parts s)) (arrayLoop t.check left s stored) := by
  induction left generalizing s stored with
  | zero =>
    obtain ⟨p, ps, hps⟩ := List.exists_cons_of_ne_nil (List.splitOn_ne_nil ','.toUInt8 s)
    rw [parts, hps]
    exact ⟨(List.append_nil _).symm, fun h => (by cases h), fun _ => QdfStatus.noConfusion⟩
  | succ left ih =>
    rcases splitOn_cases s with ⟨hcomma, hparts⟩ | ⟨p, s', hcomma, rfl, hparts⟩
    · rw [hparts, readParts_cons, readParts_nil]
      have hturn := @arrayLoop_turn t s [] left stored (by rwa [List.append_nil]) hcomma
        (fun c hc => by cases hc)
      rw [List.append_nil] at hturn
      rcases hturn with ⟨x, hx, hloop⟩ | ⟨hnone, status, hstatus, hloop⟩
      · rw [hx, hloop]
        exact ⟨rfl, fun _ => ⟨rfl, rfl⟩, fun h => (by cases h)⟩
      · rw [hnone, hloop]
        exact ⟨(List.append_nil _).symm, fun h => (by cases h), fun _ => hstatus⟩
    · rw [hparts, readParts_cons]
      have hcloses : Closes (','.toUInt8 :: s') := fun c hc => (Option.some.inj hc).symm
      rcases arrayLoop_turn (t := t) left stored h0 hcomma hcloses with
        ⟨x, hx, hloop⟩ | ⟨hnone, status, hstatus, hloop⟩
      · rw [hx, hloop]
        have h0' : 0 ∉ s' := fun h => h0 (List.mem_append_right _ (List.mem_cons_of_mem _ h))
        obtain ⟨hstored, hok, herror⟩ := ih s' h0' (stored ++ [x])
        refine ⟨?_, hok, herror⟩
        rw [loopBehind, hstored, List.append_assoc, List.singleton_append]
      · rw [hnone, hloop]
        exact ⟨(List.append_nil _).symm, fun h => (by cases h), fun _ => hstatus⟩

/-- What has been stored as the `k`-th element is stored for the `k`-th part. -/
theorem accept_of_stored {ps : List (List UInt8)} {cap : ℕ}
    (h : (readParts t cap ps).1[k]? = some x) :
    k < cap ∧ ∀ j ≤ k, ∃ q y, ps[j]? = some q ∧ accept t q = some y ∧ (j = k → y = x) := by
  induction ps generalizing cap k with
  | nil =>
    rw [readParts_nil] at h
    cases h
  | cons p ps ih =>
    cases cap with
    | zero => cases h
    | succ cap =>
      rw [readParts_cons] at h
      cases haccept : accept t p with
      | none =>
        rw [haccept] at h
        cases h
      | some y =>
        rw [haccept] at h
        cases k with
        | zero =>
          obtain rfl : y = x := Option.some.inj h
          refine ⟨Nat.succ_pos cap, fun j hj => ?_⟩
          obtain rfl := Nat.le_zero.1 hj
          exact ⟨p, y, rfl, haccept, fun _ => rfl⟩
        | succ k =>
          obtain ⟨hlt, hbefore⟩ := ih h
          refine ⟨Nat.succ_lt_succ hlt, fun j hj => ?_⟩
          cases j with
          | zero => exact ⟨p, y, rfl, haccept, fun h => (by cases h)⟩
          | succ j =>
            obtain ⟨q, y, hq, hy, heq⟩ := hbefore j (Nat.le_of_succ_le_succ hj)
            exact ⟨q, y, hq, hy, fun h => heq (Nat.succ_injective h)⟩

/-- The loop gets as far as parts are accepted. -/
theorem stored_of_accept {ps : List (List UInt8)} {cap : ℕ} (hk : k < cap)
    (hp : ps[k]? = some p) (hx : accept t p = some x)
    (hbefore : ∀ j < k, ∀ q, ps[j]? = some q → ∃ y, accept t q = some y) :
    (readParts t cap ps).1[k]? = some x := by
  induction ps generalizing cap k with
  | nil => cases hp
  | cons q ps ih =>
    obtain ⟨cap, rfl⟩ := Nat.exists_eq_succ_of_ne_zero (Nat.ne_of_gt (Nat.zero_lt_of_lt hk))
    rw [readParts_cons]
    cases k with
    | zero =>
      obtain rfl : q = p := Option.some.inj hp
      rw [hx]
      rfl
    | succ k =>
      obtain ⟨y, hy⟩ := hbefore 0 (Nat.succ_pos k) q rfl
      rw [hy]
      exact ih (Nat.lt_of_succ_lt_succ hk) hp fun j hj => hbefore (j + 1) (Nat.succ_lt_succ hj)

/-- The loop gets to the end just if there are not too many parts and all are accepted. -/
theorem readParts_end {ps : List (List UInt8)} {cap : ℕ} (h : (readParts t cap ps).2 = true) :
    ps.length ≤ cap ∧
      List.Forall₂ (fun p x => accept t p = some x) ps (readParts t cap ps).1 := by
  induction ps generalizing cap with
  | nil =>
    rw [readParts_nil]
    exact ⟨Nat.zero_le cap, .nil⟩
  | cons p ps ih =>
    cases cap with
    | zero => cases h
    | succ cap =>
      rw [readParts_cons] at h ⊢
      cases haccept : accept t p with
      | none =>
        rw [haccept] at h
        cases h
      | some x =>
        rw [haccept] at h
        obtain ⟨hle, hall⟩ := ih h
        exact ⟨Nat.succ_le_succ hle, .cons haccept hall⟩

theorem readParts_of_accept {ps : List (List UInt8)} {cap : ℕ} {xs : List (BitVec t.elem.width)}
    (hle : ps.length ≤ cap) (h : List.Forall₂ (fun p x => accept t p = some x) ps xs) :
    readParts t cap ps = (xs, true) := by
  induction h generalizing cap with
  | nil => exact readParts_nil cap
  | @cons p x ps xs hx _ ih =>
    obtain ⟨cap, rfl⟩ := Nat.exists_eq_succ_of_ne_zero
      (Nat.ne_of_gt (Nat.lt_of_lt_of_le (Nat.succ_pos _) hle))
    rw [readParts_cons, hx, ih (Nat.le_of_succ_le_succ hle)]

/-! ## What is read -/

theorem noNul_of_part (h0 : 0 ∉ s) (h : p ∈ parts s) : 0 ∉ p := by
  induction hn : s.length using Nat.strong_induction_on generalizing s with
  | _ n ih =>
    rcases splitOn_cases s with ⟨-, hparts⟩ | ⟨q, s', -, rfl, hparts⟩
    · rw [hparts, List.mem_singleton] at h
      rwa [h]
    · rw [hparts, List.mem_cons] at h
      rw [List.mem_append, not_or] at h0
      rcases h with rfl | h
      · exact h0.1
      · refine ih s'.length ?_ (fun hmem => h0.2 (List.mem_cons_of_mem _ hmem)) h rfl
        rw [← hn, List.length_append, List.length_cons]
        omega

variable {str : CString}

/-- On a string that is not misread all that is stored comes from well read parts. -/
theorem wellRead_of_stored (hread : ¬ ArrayMisread t str arraySize)
    (h : (readParts t arraySize (parts str.bytes)).1[k]? = some x) :
    ∀ j ≤ k, ∀ q, (parts str.bytes)[j]? = some q → WellRead t q := by
  obtain ⟨hlt, haccept⟩ := accept_of_stored h
  intro j
  induction j using Nat.strong_induction_on with
  | _ j ih =>
    intro hj q hq
    obtain ⟨q', y, hq', hy, -⟩ := haccept j hj
    rw [hq] at hq'
    obtain rfl := Option.some.inj hq'
    rcases wellRead_or_overread (noNul_of_part str.noNul (List.mem_of_getElem? hq)) hy with
      hwell | hover
    · exact hwell
    · exact absurd (.overread j q (Nat.lt_of_le_of_lt hj hlt) hq hover
        fun i hi => ih i hi (Nat.le_trans (Nat.le_of_lt hi) hj)) hread

theorem WellRead.denotes (h : WellRead t p) (hx : accept t p = some x) :
    Denotes p (t.elem.read x) := by
  obtain ⟨y, hy, hdenotes⟩ := accept_of_wellRead h
  rw [hx] at hy
  rwa [Option.some.inj hy]

theorem stored_denotes (hread : ¬ ArrayMisread t str arraySize)
    (h : (readParts t arraySize (parts str.bytes)).1[k]? = some x) :
    ∃ p, (parts str.bytes)[k]? = some p ∧ Denotes p (t.elem.read x) := by
  obtain ⟨p, y, hp, hy, heq⟩ := (accept_of_stored h).2 k le_rfl
  obtain rfl := heq rfl
  exact ⟨p, hp, (wellRead_of_stored hread h k le_rfl p hp).denotes hy⟩

/-- A part that denotes an integer of the type is read well, unless it has a minus that the
    type does not have. -/
theorem wellRead_or_minusZero (hi : Denotes p i) (hfits : t.elem.Fits i) : WellRead t p ∨
    ∃ l, Spells p l ∧ l.digits ≠ [] ∧ l.magnitude = 0 ∧ ¬ l.SignFits t.elem := by
  obtain ⟨l, hl, hdigits, rfl⟩ := hi
  by_cases hsign : l.SignFits t.elem
  · exact .inl ⟨l, hl, hdigits, hfits, hsign⟩
  · exact .inr ⟨l, hl, hdigits, magnitude_zero hfits hsign, hsign⟩

theorem accept_minusZero (h : Spells p l) (hdigits : l.digits ≠ [])
    (hsign : ¬ l.SignFits t.elem) : accept t p = none := by
  rcases accept_literal h (l.full_of_digits hdigits) (t := t) with ⟨-, -, hfits, -⟩ | ⟨-, hnone⟩
  · exact absurd hfits hsign
  · exact hnone

/-- The parser ends as the loop over the parts does. -/
theorem parse_ends (t : ArrayType) (str : CString) (arraySize : ℕ) :
    Ends t [] (readParts t arraySize (parts str.bytes)) (t.parse str.bytes arraySize) := by
  rw [ArrayType.parse_eq]
  exact arrayLoop_spec arraySize str.bytes str.noNul []

theorem parse_stored (t : ArrayType) (str : CString) (arraySize : ℕ) :
    (t.parse str.bytes arraySize).stored = (readParts t arraySize (parts str.bytes)).1 :=
  (parse_ends t str arraySize).stored

theorem readParts_of_success (h : (t.parse str.bytes arraySize).status = .success) :
    (readParts t arraySize (parts str.bytes)).2 = true := by
  by_contra hfalse
  exact (parse_ends t str arraySize).failure (Bool.eq_false_iff.2 hfalse) h

/-! ## The parser on all strings -/

section Forall₂

variable {α β : Type} {R : α → β → Prop} {as : List α} {bs : List β} {a : α}

theorem exists_of_forall₂ (h : List.Forall₂ R as bs) (ha : a ∈ as) : ∃ b ∈ bs, R a b := by
  induction h with
  | nil => cases ha
  | cons hab _ ih =>
    rcases List.mem_cons.1 ha with rfl | ha
    · exact ⟨_, List.mem_cons_self, hab⟩
    · obtain ⟨b, hb, hR⟩ := ih ha
      exact ⟨b, List.mem_cons_of_mem _ hb, hR⟩

theorem exists_forall₂ (h : ∀ a ∈ as, ∃ b, R a b) : ∃ bs, List.Forall₂ R as bs := by
  induction as with
  | nil => exact ⟨[], .nil⟩
  | cons a as ih =>
    obtain ⟨b, hb⟩ := h a List.mem_cons_self
    obtain ⟨bs, hbs⟩ := ih fun a ha => h a (List.mem_cons_of_mem _ ha)
    exact ⟨b :: bs, .cons hb hbs⟩

end Forall₂

/-- Well read parts are stored as the integers they denote. -/
theorem accept_all {ps : List (List UInt8)} {is : List ℤ} (hwell : ∀ p ∈ ps, WellRead t p)
    (h : List.Forall₂ Denotes ps is) :
    ∃ xs, List.Forall₂ (fun p x => accept t p = some x) ps xs ∧ xs.map t.elem.read = is := by
  induction h with
  | nil => exact ⟨[], .nil, rfl⟩
  | @cons p i ps is hi _ ih =>
    obtain ⟨x, hx, hdenotes⟩ := accept_of_wellRead (hwell p List.mem_cons_self)
    obtain ⟨xs, hxs, hmap⟩ := ih fun q hq => hwell q (List.mem_cons_of_mem _ hq)
    refine ⟨x :: xs, .cons hx hxs, ?_⟩
    obtain ⟨l, hl, hdigits, rfl⟩ := hi
    rw [List.map_cons, hmap, (denotes_literal hl (l.full_of_digits hdigits) hdenotes).2]

/-- What is to be stored is stored where the string is not misread. -/
theorem stores_of_not_misread (hread : ¬ ArrayMisread t str arraySize) (is : List ℤ)
    (hdenotes : DenotesList str.bytes is) (hle : is.length ≤ arraySize)
    (hfits : ∀ i ∈ is, t.elem.Fits i) :
    ∃ xs, t.parse str.bytes arraySize = ⟨.success, xs, some xs.length⟩ ∧
      xs.map t.elem.read = is := by
  have hlength : (parts str.bytes).length = is.length := hdenotes.length_eq
  have hpart : ∀ p ∈ parts str.bytes, ∃ i, Denotes p i ∧ t.elem.Fits i := fun p hp => by
    obtain ⟨i, hi, hpi⟩ := exists_of_forall₂ hdenotes hp
    exact ⟨i, hpi, hfits i hi⟩
  have hwell : ∀ p ∈ parts str.bytes, WellRead t p := fun p hp => by
    obtain ⟨i, hpi, hi⟩ := hpart p hp
    rcases wellRead_or_minusZero hpi hi with hwell | ⟨l, hl, hdigits, hzero, hsign⟩
    · exact hwell
    · exact absurd (.minusZero p l (hlength ▸ hle) hpart hp hl hdigits hzero hsign) hread
  obtain ⟨xs, hxs, hmap⟩ := accept_all hwell hdenotes
  have hread := readParts_of_accept (hlength ▸ hle) hxs
  obtain ⟨hstored, hsuccess, -⟩ := parse_ends t str arraySize
  rw [hread] at hstored hsuccess
  obtain ⟨hstatus, hsize⟩ := hsuccess rfl
  refine ⟨xs, ?_, hmap⟩
  generalize t.parse str.bytes arraySize = result at hstored hstatus hsize ⊢
  obtain ⟨status, stored, outSize⟩ := result
  obtain rfl : stored = xs := hstored
  obtain rfl : status = .success := hstatus
  obtain rfl : outSize = some stored.length := hsize
  rfl

/-- What is accepted where the string is not misread is a list of integers of the type. -/
theorem denotes_of_success (hread : ¬ ArrayMisread t str arraySize)
    (h : (t.parse str.bytes arraySize).status = .success) :
    ∃ is, DenotesList str.bytes is ∧ is.length ≤ arraySize ∧ ∀ i ∈ is, t.elem.Fits i := by
  obtain ⟨hle, hall⟩ := readParts_end (readParts_of_success h)
  have hwell : ∀ p ∈ parts str.bytes, WellRead t p := fun p hp => by
    obtain ⟨k, hk, rfl⟩ := List.getElem_of_mem hp
    exact wellRead_of_stored hread (List.getElem?_eq_getElem (hall.length_eq ▸ hk)) k le_rfl _
      (List.getElem?_eq_getElem hk)
  refine ⟨(readParts t arraySize (parts str.bytes)).1.map t.elem.read, ?_, ?_, ?_⟩
  · rw [DenotesList, List.forall₂_map_right_iff]
    exact ((List.forall₂_and_left _ _).2 ⟨hwell, hall⟩).imp fun p x hp => hp.1.denotes hp.2
  · rwa [List.length_map, ← hall.length_eq]
  · intro i hi
    obtain ⟨x, -, rfl⟩ := List.mem_map.1 hi
    exact fits_read t.elem x

/-- **The array parsers meet what their comments say just on the strings that are not
    misread.** -/
theorem arrayParse_meets_iff (t : ArrayType) (s : CString) (arraySize : ℕ) :
    ArrayMeets t s arraySize ↔ ¬ ArrayMisread t s arraySize := by
  constructor
  · intro hmeets hmisread
    cases hmisread with
    | overread k p hk hp hover hbefore =>
      obtain ⟨x, hx, hnot⟩ := accept_of_overread hover
      have hstored := stored_of_accept hk hp hx fun j hj q hq => by
        obtain ⟨y, hy, -⟩ := accept_of_wellRead (hbefore j hj q hq)
        exact ⟨y, hy⟩
      rw [← parse_stored t s arraySize] at hstored
      obtain ⟨p', hp', hdenotes⟩ := hmeets.elements k x hstored
      rw [hp] at hp'
      obtain rfl := Option.some.inj hp'
      exact hnot hdenotes
    | minusZero p l hle hall hp hl hdigits hzero hsign =>
      obtain ⟨is, his⟩ := exists_forall₂ hall
      have hfits : ∀ i ∈ is, t.elem.Fits i := fun i hi => by
        obtain ⟨q, -, hq⟩ := exists_of_forall₂ his.flip hi
        exact hq.2
      obtain ⟨xs, hparse, -⟩ := hmeets.stores is (his.imp fun _ _ h => h.1)
        (his.length_eq ▸ hle) hfits
      have hend : (readParts t arraySize (parts s.bytes)).2 = true :=
        readParts_of_success (by rw [hparse])
      obtain ⟨x, -, hx⟩ := exists_of_forall₂ (readParts_end hend).2 hp
      rw [accept_minusZero hl hdigits hsign] at hx
      cases hx
  · intro hread
    constructor
    · exact stores_of_not_misread hread
    · intro hnone hsuccess
      obtain ⟨is, hdenotes, hle, hfits⟩ := denotes_of_success hread hsuccess
      exact hnone is hdenotes hle hfits
    · intro k x hx
      rw [parse_stored] at hx
      exact stored_denotes hread hx

/-! ## A number of 33 bits -/

/-- 2^32. -/
def longDec : Literal where
  sign := .absent
  radix := .dec
  digits := bytes ['4', '2', '9', '4', '9', '6', '7', '2', '9', '6']
  isDigit := Radix.isDigit_of_all (by decide)

/-- It is stored as 0 in an array of `int32_t`. -/
theorem int32Array_not_meets : ¬ ArrayMeets .int32 ⟨longDec.text, by decide⟩ 1 := by
  intro hmeets
  have hspells : Spells longDec.text longDec :=
    ⟨[], [], by simp [White], by simp [White], by simp⟩
  have hstored : (ArrayType.parse .int32 longDec.text 1).stored = [0] := by decide
  obtain ⟨p, hp, hdenotes⟩ := hmeets.elements 0 0 (by rw [hstored]; rfl)
  have hparts : parts longDec.text = [longDec.text] := by decide
  rw [hparts] at hp
  obtain rfl := Option.some.inj hp
  have hzero := (denotes_literal hspells (fun _ => by decide) hdenotes).2
  exact absurd hzero (by decide)

end Sm8850.Qdf
