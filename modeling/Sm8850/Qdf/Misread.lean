/-
  When the integer parsers do what their comments say.

  * `Meets`: a string that denotes an integer of the type is read as that, and on all others
    the parser fails.
  * `Misread`: no digit after the mark of the radix; a minus before a zero of an unsigned type;
    a number of 2^64 or more that grows all the same when it is cut to 64 bits.
  * **`parse_meets_iff`**: the parsers meet this on all other strings.
-/
import Sm8850.Qdf.IntParseSpec

namespace Sm8850.Qdf

open Lib

/-- A string of C. -/
structure CString where
  bytes : List UInt8
  noNul : 0 ∉ bytes

variable {t : IntType} {s : List UInt8} {l : Literal} {value : BitVec 64} {negate : Bool}

/-! ## Statement -/

/-- What is to hold of a call: it stores the integer that the string denotes if that is one of
    the type, and fails otherwise. -/
structure Meets (t : IntType) (s : CString) (out : BitVec t.width) : Prop where
  stores : ∀ i, Denotes s.bytes i → t.Fits i → Stores t s.bytes out i
  fails : (∀ i, Denotes s.bytes i → ¬ t.Fits i) → Fails t s.bytes out

/-- The number as it is left of the digits in 64 bits. -/
def Literal.wrapped (l : Literal) : ℤ :=
  if l.sign = .minus then -(l.magnitude % 2 ^ 64 : ℕ) else (l.magnitude % 2 ^ 64 : ℕ)

/-- A minus may stand before a number of the type. -/
def Literal.SignFits (l : Literal) (t : IntType) : Prop := l.sign = .minus → t.signed = true

/-- The strings that the parser for a type gets wrong. -/
inductive Misread (t : IntType) (s : CString) : Prop
  | noDigit (l : Literal) : Spells s.bytes l → l.radix ≠ .dec → l.digits = [] → l.SignFits t →
      Misread t s
  | minusZero (l : Literal) : Spells s.bytes l → l.digits ≠ [] → l.magnitude = 0 →
      ¬ l.SignFits t → Misread t s
  | overflow (l : Literal) : Spells s.bytes l → 2 ^ 64 ≤ l.magnitude → l.Grows →
      t.Fits l.wrapped → l.SignFits t → Misread t s

/-! ## One integer -/

theorem qdfStrLeftTrim_nil (h : first (qdfStrLeftTrim s) = 0) (hs : 0 ∉ s) : White s := by
  have hnil : qdfStrLeftTrim s = [] := by
    cases htrim : qdfStrLeftTrim s with
    | nil => rfl
    | cons c rest =>
      rw [htrim] at h
      obtain rfl : c = 0 := h
      have hmem : (0 : UInt8) ∈ qdfStrLeftTrim s := by
        rw [htrim]
        exact List.mem_cons_self
      exact absurd ((List.dropWhile_sublist _).subset hmem) hs
  exact List.dropWhile_eq_nil_iff.1 hnil

/-- **What is accepted** is one literal that grows. -/
theorem qdfIntParse_ok (hs : 0 ∉ s) (h : qdfIntParse s = .ok (value, negate)) :
    ∃ l, Spells s l ∧ l.Full ∧ l.Grows ∧ value = BitVec.ofNat 64 l.magnitude ∧
      negate = decide (l.sign = .minus) := by
  rw [qdfIntParse_eq] at h
  split at h
  · cases h
  · rename_i value' negate' rest hlazy
    split_ifs at h with hend
    cases h
    obtain ⟨l, pre, hfull, hpre, rfl, hgrows, hvalue, hneg⟩ := qdfIntParseLazy_ok hlazy
    have hrest : 0 ∉ rest := fun h0 =>
      hs (List.mem_append_right _ (List.mem_append_right _ h0))
    exact ⟨l, ⟨pre, rest, hpre, qdfStrLeftTrim_nil (not_not.1 hend) hrest, rfl⟩, hfull, hgrows,
      hvalue, hneg⟩

theorem first_trim_white (h : White s) : first (qdfStrLeftTrim s) = 0 := by
  have hnil : qdfStrLeftTrim s = [] := List.dropWhile_eq_nil_iff.2 h
  rw [hnil]
  rfl

theorem qdfIntParse_literal (h : Spells s l) (hfull : l.Full) :
    (l.Grows → qdfIntParse s = .ok (BitVec.ofNat 64 l.magnitude, decide (l.sign = .minus))) ∧
      (¬ l.Grows → ∃ status, qdfIntParse s = .error status) := by
  obtain ⟨pre, post, hpre, hpost, rfl⟩ := h
  obtain ⟨hok, herror⟩ := qdfIntParseLazy_eq hfull hpre hpost.stops
  constructor
  · intro hgrows
    rw [qdfIntParse_eq, hok hgrows]
    exact if_neg (not_not.2 (first_trim_white hpost))
  · intro hdrops
    obtain ⟨status, hstatus⟩ := herror hdrops
    rw [qdfIntParse_eq, hstatus]
    exact ⟨status, rfl⟩

/-! ## Which integers are taken -/

theorem signedNumber_literal (l : Literal) :
    signedNumber (BitVec.ofNat 64 l.magnitude) (decide (l.sign = .minus)) = l.wrapped := by
  unfold signedNumber Literal.wrapped
  rw [BitVec.toNat_ofNat]
  simp

theorem takes_literal (l : Literal) :
    Takes t (BitVec.ofNat 64 l.magnitude) (decide (l.sign = .minus)) ↔
      t.Fits l.wrapped ∧ l.SignFits t := by
  unfold Takes Literal.SignFits
  rw [signedNumber_literal, decide_eq_true_eq]

theorem wrapped_of_lt (h : l.magnitude < 2 ^ 64) : l.wrapped = l.number := by
  unfold Literal.wrapped Literal.number
  rw [Nat.mod_eq_of_lt h]

/-- An integer of a type is less than 2^64 away from zero. -/
theorem magnitude_lt_of_fits (h : t.Fits l.number) : l.magnitude < 2 ^ 64 := by
  unfold Literal.number at h
  cases t <;> simp only [IntType.Fits, IntType.signed, IntType.width, Bool.false_eq_true, if_true,
    if_false] at h <;> split_ifs at h <;> omega

/-- A number of an unsigned type with a minus is a zero. -/
theorem magnitude_zero (h : t.Fits l.number) (hsign : ¬ l.SignFits t) : l.magnitude = 0 := by
  unfold Literal.SignFits at hsign
  rw [Classical.not_imp, Bool.not_eq_true] at hsign
  unfold IntType.Fits Literal.number at h
  rw [hsign.2, if_pos hsign.1] at h
  simp only [Bool.false_eq_true, if_false] at h
  omega

theorem fits_zero (t : IntType) : t.Fits 0 := by
  cases t <;> simp [IntType.Fits, IntType.signed, IntType.width]

/-! ## Reading -/

theorem Literal.full_of_digits (h : l.digits ≠ []) : l.Full := fun _ => h

theorem magnitude_of_noDigit (h : l.digits = []) : l.magnitude = 0 := by
  rw [Literal.magnitude, Literal.values, h]
  exact Numeral.value_nil

/-- What a string denotes is the literal it spells. -/
theorem denotes_literal {i : ℤ} (h : Spells s l) (hfull : l.Full) (hi : Denotes s i) :
    l.digits ≠ [] ∧ l.number = i := by
  obtain ⟨l', h', hdigits, hnumber⟩ := hi
  rw [spells_unique h h' hfull (l'.full_of_digits hdigits)]
  exact ⟨hdigits, hnumber⟩

/-- A literal that grows is read as what is left of it in 64 bits, if that fits. -/
theorem parse_literal (out : BitVec t.width) (h : Spells s l) (hfull : l.Full) (hgrows : l.Grows) :
    (t.Fits l.wrapped ∧ l.SignFits t ∧ Stores t s out l.wrapped) ∨
      (¬ (t.Fits l.wrapped ∧ l.SignFits t) ∧ Fails t s out) := by
  have hparse := parse_of_ok out ((qdfIntParse_literal h hfull).1 hgrows)
  rw [takes_literal, signedNumber_literal] at hparse
  rcases hparse with ⟨htakes, hstores⟩ | hfails
  · exact .inl ⟨htakes.1, htakes.2, hstores⟩
  · exact .inr hfails

/-- Where a literal is stored that denotes no integer of the type, the parser is wrong. -/
theorem not_meets_of_stores {s : CString} {out : BitVec t.width} (h : Spells s.bytes l)
    (hfull : l.Full) (hgrows : l.Grows) (hfits : t.Fits l.wrapped) (hsign : l.SignFits t)
    (hnone : l.digits ≠ [] → ¬ t.Fits l.number) : ¬ Meets t s out := by
  intro hmeets
  have hfails : Fails t s.bytes out := hmeets.fails fun i hi => by
    obtain ⟨hdigits, rfl⟩ := denotes_literal h hfull hi
    exact hnone hdigits
  rcases parse_literal out h hfull hgrows with ⟨-, -, hstores⟩ | ⟨hnot, -⟩
  · exact hstores.not_fails hfails
  · exact hnot ⟨hfits, hsign⟩

/-- **The parsers meet what their comments say just on the strings that are not misread.** -/
theorem parse_meets_iff (t : IntType) (s : CString) (out : BitVec t.width) :
    Meets t s out ↔ ¬ Misread t s := by
  constructor
  · intro hmeets hmisread
    cases hmisread with
    | noDigit l h hradix hdigits hsign =>
      have hzero := magnitude_of_noDigit hdigits
      have hlt : l.magnitude < 2 ^ 64 := by omega
      have hfits : t.Fits l.wrapped := by
        rw [wrapped_of_lt hlt, Literal.number, hzero]
        simpa using fits_zero t
      exact not_meets_of_stores h (fun hdec => absurd hdec hradix) (l.grows_of_lt hlt) hfits hsign
        (fun hne => absurd hdigits hne) hmeets
    | minusZero l h hdigits hzero hsign =>
      have hlt : l.magnitude < 2 ^ 64 := by omega
      have hnumber : l.number = 0 := by simp [Literal.number, hzero]
      have hstores := hmeets.stores 0 ⟨l, h, hdigits, hnumber⟩ (fits_zero t)
      rcases parse_literal out h (l.full_of_digits hdigits) (l.grows_of_lt hlt) with
        ⟨-, hsign', -⟩ | ⟨-, hfails⟩
      · exact hsign hsign'
      · exact hstores.not_fails hfails
    | overflow l h hlarge hgrows hfits hsign =>
      have hdigits : l.digits ≠ [] := fun hnil => by
        have := magnitude_of_noDigit hnil
        omega
      exact not_meets_of_stores h (l.full_of_digits hdigits) hgrows hfits hsign
        (fun _ hfit => absurd (magnitude_lt_of_fits hfit) (Nat.not_lt.2 hlarge)) hmeets
  · intro hread
    constructor
    · rintro i ⟨l, h, hdigits, rfl⟩ hfits
      have hlt := magnitude_lt_of_fits hfits
      have hwrapped := wrapped_of_lt hlt
      rcases parse_literal out h (l.full_of_digits hdigits) (l.grows_of_lt hlt) with
        ⟨-, -, hstores⟩ | ⟨hnot, -⟩
      · exact hwrapped ▸ hstores
      · have hsign : ¬ l.SignFits t := fun hsign => hnot ⟨hwrapped ▸ hfits, hsign⟩
        exact absurd (.minusZero l h hdigits (magnitude_zero hfits hsign) hsign) hread
    · intro hnone
      cases hparse : qdfIntParse s.bytes with
      | error status => exact parse_of_error out hparse
      | ok r =>
        obtain ⟨l, h, hfull, hgrows, -⟩ := qdfIntParse_ok s.noNul hparse
        rcases parse_literal out h hfull hgrows with ⟨hfits, hsign, -⟩ | ⟨-, hfails⟩
        · refine absurd ?_ hread
          by_cases hdigits : l.digits = []
          · exact .noDigit l h (fun hdec => hfull hdec hdigits) hdigits hsign
          rcases Nat.lt_or_ge l.magnitude (2 ^ 64) with hlt | hlarge
          · rw [wrapped_of_lt hlt] at hfits
            exact absurd hfits (hnone _ ⟨l, h, hdigits, rfl⟩)
          · exact .overflow l h hlarge hgrows hfits hsign
        · exact hfails

/-! ## A number of 69 bits -/

/-- `0x1234567890abcdef0`. -/
def longHex : Literal where
  sign := .absent
  radix := .hex
  digits := bytes ['1', '2', '3', '4', '5', '6', '7', '8', '9', '0', 'a', 'b', 'c', 'd', 'e', 'f',
    '0']
  isDigit := Radix.isDigit_of_all (by decide)

/-- It is read as 0x234567890abcdef0. -/
theorem longHex_not_meets : ¬ Meets .uint64 ⟨longHex.text, by decide⟩ 0 := by
  intro hmeets
  have hspells : Spells longHex.text longHex :=
    ⟨[], [], by simp [White], by simp [White], by simp⟩
  have hfails : Fails .uint64 longHex.text 0 := hmeets.fails fun i hi hfits => by
    obtain ⟨-, rfl⟩ := denotes_literal hspells (fun h => by cases h) hi
    exact absurd (magnitude_lt_of_fits hfits) (by decide)
  have hstored : IntType.parse .uint64 longHex.text 0 = (.success, 0x234567890abcdef0) := by decide
  exact hfails.1 (by rw [hstored])

end Sm8850.Qdf
