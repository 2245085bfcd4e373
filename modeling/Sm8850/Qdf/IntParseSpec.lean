/-
  What the integer parsers accept, and what they store.

  * `digitLoop_iff`: the loop adds up the digits in 64 bits, as long as the number grows.
  * `qdfIntParseLazy_eq`, `qdfIntParseLazy_ok`: the lazy parser reads the literals, and nothing
    else.
  * `parse_of_ok`: the range checks of the types (`Takes`); a parser stores the integer it found
    (`Stores`), or fails and leaves its output alone (`Fails`).
-/
import Sm8850.Qdf.IntText
import Mathlib.Data.List.TakeWhile

namespace Sm8850.Qdf

open Lib Lib.Numeral

variable {c : UInt8} {d radix : ℕ} {s rest pre post : List UInt8} {l l' : Literal} {negate : Bool}
  {value v : BitVec 64} {t : IntType}

/-! ## The digits -/

/-- One step of the number, in 64 bits. -/
theorem toNat_next {ds : List ℕ} (hv : v.toNat = Numeral.value radix ds % 2 ^ 64) :
    (v * BitVec.ofNat 64 radix + BitVec.ofNat 64 d).toNat =
      Numeral.value radix (ds ++ [d]) % 2 ^ 64 := by
  rw [value_mod_concat, ← hv, BitVec.toNat_add, BitVec.toNat_mul, BitVec.toNat_ofNat,
    BitVec.toNat_ofNat]
  exact ((Nat.mod_modEq _ _).trans ((Nat.mod_modEq radix _).mul_left _)).add (Nat.mod_modEq d _)

/-- The loop reads the digits up to a character that is none, the first ones being read. -/
theorem digitLoop_iff {before : List ℕ} (hv : v.toNat = Numeral.value radix before % 2 ^ 64)
    (hgrows : Grows (2 ^ 64) radix before) :
    digitLoop radix s v = .ok (value, rest) ↔
      ∃ ds, s = ds ++ rest ∧ (∀ c ∈ ds, ∃ d ∈ hexDigit c, d < radix) ∧
        (∀ c ∈ rest.head?, hexDigit c = none) ∧
        Grows (2 ^ 64) radix (before ++ ds.filterMap hexDigit) ∧
        value.toNat = Numeral.value radix (before ++ ds.filterMap hexDigit) % 2 ^ 64 := by
  induction s generalizing v before with
  | nil =>
    constructor
    · intro h
      cases h
      exact ⟨[], rfl, by simp, by simp, by simpa using hgrows, by simpa using hv⟩
    · rintro ⟨ds, hs, -, -, -, hvalue⟩
      obtain ⟨rfl, rfl⟩ := List.append_eq_nil_iff.1 hs.symm
      rw [List.filterMap_nil, List.append_nil, ← hv] at hvalue
      rw [BitVec.eq_of_toNat_eq hvalue]
      rfl
  | cons c s ih =>
    rw [digitLoop]
    cases hc : hexDigit c with
    | none =>
      constructor
      · intro h
        cases h
        exact ⟨[], rfl, by simp, by simpa using hc, by simpa using hgrows, by simpa using hv⟩
      · rintro ⟨ds, hs, hdigit, -, -, hvalue⟩
        cases ds with
        | nil =>
          rw [List.filterMap_nil, List.append_nil, ← hv] at hvalue
          rw [BitVec.eq_of_toNat_eq hvalue, show rest = c :: s from hs.symm]
        | cons a ds =>
          obtain ⟨rfl, -⟩ := List.cons.inj hs
          obtain ⟨d, hd, -⟩ := hdigit c List.mem_cons_self
          rw [hc] at hd
          cases hd
    | some d =>
      have hnext := @toNat_next d radix v before hv
      dsimp only
      generalize v * BitVec.ofNat 64 radix + BitVec.ofNat 64 d = next at hnext
      -- a digit is not left to the caller
      have hcons : ∀ {ds : List UInt8}, c :: s = ds ++ rest →
          (∀ c ∈ rest.head?, hexDigit c = none) → ∃ ds', ds = c :: ds' ∧ s = ds' ++ rest := by
        intro ds hs hrest
        cases ds with
        | nil =>
          have := hrest c (by rw [← show c :: s = rest from hs]; rfl)
          rw [hc] at this
          cases this
        | cons a ds =>
          obtain ⟨rfl, htail⟩ := List.cons.inj hs
          exact ⟨ds, rfl, htail⟩
      have hvalues : ∀ ds, before ++ (c :: ds).filterMap hexDigit =
          before ++ [d] ++ ds.filterMap hexDigit := fun ds => by
        rw [List.filterMap_cons, hc, List.append_assoc]
        rfl
      split_ifs with hradix hdrop
      · refine ⟨fun h => (by cases h), ?_⟩
        rintro ⟨ds, hs, hdigit, hrest, -⟩
        obtain ⟨ds', rfl, -⟩ := hcons hs hrest
        obtain ⟨d', hd', hlt⟩ := hdigit c List.mem_cons_self
        rw [hc] at hd'
        cases hd'
        exact absurd hlt (Nat.not_lt.2 hradix)
      · refine ⟨fun h => (by cases h), ?_⟩
        rintro ⟨ds, hs, -, hrest, hgrow, -⟩
        obtain ⟨ds', rfl, -⟩ := hcons hs hrest
        rw [hvalues, List.append_assoc] at hgrow
        have hle := hgrow before d (ds'.filterMap hexDigit) rfl
        rw [← hv, ← hnext] at hle
        exact absurd hdrop (Nat.not_lt.2 hle)
      · have hgrows' : Grows (2 ^ 64) radix (before ++ [d]) := by
          refine grows_concat.2 ⟨hgrows, ?_⟩
          rw [← hv, ← hnext]
          exact Nat.not_lt.1 hdrop
        rw [ih hnext hgrows']
        constructor
        · rintro ⟨ds, rfl, hdigit, hrest, hgrow, hvalue⟩
          refine ⟨c :: ds, rfl, ?_, hrest, ?_, ?_⟩
          · intro a ha
            rcases List.mem_cons.1 ha with rfl | ha
            · exact ⟨d, hc, Nat.not_le.1 hradix⟩
            · exact hdigit a ha
          · rwa [hvalues]
          · rwa [hvalues]
        · rintro ⟨ds, hs, hdigit, hrest, hgrow, hvalue⟩
          obtain ⟨ds', rfl, rfl⟩ := hcons hs hrest
          rw [hvalues] at hgrow hvalue
          exact ⟨ds', rfl, fun a ha => hdigit a (List.mem_cons_of_mem _ ha), hrest, hgrow, hvalue⟩

theorem digitLoop_zero : digitLoop radix s 0 = .ok (value, rest) ↔
    ∃ ds, s = ds ++ rest ∧ (∀ c ∈ ds, ∃ d ∈ hexDigit c, d < radix) ∧
      (∀ c ∈ rest.head?, hexDigit c = none) ∧ Grows (2 ^ 64) radix (ds.filterMap hexDigit) ∧
      value.toNat = Numeral.value radix (ds.filterMap hexDigit) % 2 ^ 64 := by
  have hv : (0 : BitVec 64).toNat = Numeral.value radix [] % 2 ^ 64 := by simp
  exact digitLoop_iff hv .nil

/-! ## The lazy parser -/

/-- Cut to 64 bits the number does not drop on the way. -/
def Literal.Grows (l : Literal) : Prop := Numeral.Grows (2 ^ 64) l.radix.base l.values

theorem Literal.grows_of_lt (h : l.magnitude < 2 ^ 64) : l.Grows :=
  Numeral.grows_of_lt l.radix.base_pos h

/-- A literal is read as its magnitude in 64 bits, unless that is seen to overflow. -/
theorem qdfIntParseLazy_eq (hfull : l.Full) (hpre : White pre) (hrest : Stops rest) :
    (l.Grows → qdfIntParseLazy (pre ++ (l.text ++ rest)) =
      .ok (BitVec.ofNat 64 l.magnitude, decide (l.sign = .minus), rest)) ∧
    (¬ l.Grows → ∃ status, qdfIntParseLazy (pre ++ (l.text ++ rest)) = .error status) := by
  rw [qdfIntParseLazy_takeSign, takeSign_literal hfull hpre]
  dsimp only
  rw [qdfConsumeRadix_mark hfull hrest]
  dsimp only
  constructor
  · intro hgrows
    have hok : digitLoop l.radix.base (l.digits ++ rest) 0 =
        .ok (BitVec.ofNat 64 l.magnitude, rest) := by
      refine digitLoop_zero.2 ⟨l.digits, rfl, l.isDigit, hrest.hexDigit, hgrows, ?_⟩
      rw [BitVec.toNat_ofNat]
      rfl
    rw [hok]
    rfl
  · intro hdrops
    cases hres : digitLoop l.radix.base (l.digits ++ rest) 0 with
    | error status => exact ⟨status, rfl⟩
    | ok r =>
      obtain ⟨v, rest'⟩ := r
      obtain ⟨ds, hs, hdigit, hstop, hgrows, -⟩ := digitLoop_zero.1 hres
      have hds : l.digits = ds := by
        rw [← takeWhile_digits l.isDigit hrest.hexDigit, hs, takeWhile_digits hdigit hstop]
      subst hds
      exact absurd hgrows hdrops

theorem qdfConsumeChar_some {ch : Char} (hch : ch.toUInt8 ≠ 0)
    (h : qdfConsumeChar s ch = some rest) : s = bytes [ch] ++ rest := by
  unfold qdfConsumeChar at h
  split at h
  · rename_i hfirst
    cases s with
    | nil => exact absurd hfirst.symm hch
    | cons c s =>
      cases h
      obtain rfl : c = ch.toUInt8 := hfirst
      rfl
  · cases h

theorem takeSign_append (s : List UInt8) : s = (takeSign s).1.text ++ (takeSign s).2 := by
  unfold takeSign
  cases hminus : qdfConsumeChar s '-' with
  | some s' => exact qdfConsumeChar_some (by decide) hminus
  | none =>
    dsimp only
    cases hplus : qdfConsumeChar s '+' with
    | some s' => exact qdfConsumeChar_some (by decide) hplus
    | none => rfl

/-- The radix that was found, and the first character behind it. -/
theorem qdfConsumeRadix_some (h : qdfConsumeRadix s = some (radix, rest)) :
    ∃ r : Radix, radix = r.base ∧ s = r.mark ++ rest ∧
      (r = .dec → ∃ c ∈ rest.head?, (hexDigit c).isSome = true) := by
  have hmark : ∀ ch : Char, ch.toUInt8 ≠ 0 → first s = '0'.toUInt8 →
      first s.tail = ch.toUInt8 → s = bytes ['0', ch] ++ s.drop 2 := by
    intro ch hch hzero hsecond
    match s, hzero, hsecond with
    | [], hzero, _ => exact absurd hzero (by decide)
    | [_], _, hsecond => exact absurd hsecond.symm hch
    | a :: b :: s, hzero, hsecond =>
      obtain rfl : a = '0'.toUInt8 := hzero
      obtain rfl : b = ch.toUInt8 := hsecond
      rfl
  have hdec : '0'.toUInt8 ≤ first s ∧ first s ≤ '9'.toUInt8 →
      ∃ c ∈ s.head?, (hexDigit c).isSome = true := by
    intro hrange
    cases s with
    | nil => exact absurd hrange.1 (by decide)
    | cons c s =>
      refine ⟨c, rfl, ?_⟩
      have hrange' : '0'.toUInt8 ≤ c ∧ c ≤ '9'.toUInt8 := hrange
      rw [hexDigit, if_pos hrange']
      rfl
  unfold qdfConsumeRadix at h
  split_ifs at h with hzero hb ho hx hrange
  · cases h
    exact ⟨.bin, rfl, hmark 'b' (by decide) hzero hb, by simp⟩
  · cases h
    exact ⟨.oct, rfl, hmark 'o' (by decide) hzero ho, by simp⟩
  · cases h
    exact ⟨.hex, rfl, hmark 'x' (by decide) hzero hx, by simp⟩
  · cases h
    exact ⟨.dec, rfl, rfl, fun _ => hdec (by rw [hzero]; decide)⟩
  · cases h
    exact ⟨.dec, rfl, rfl, fun _ => hdec hrange⟩

/-- **What the lazy parser accepts is a literal**, with white space before it. -/
theorem qdfIntParseLazy_ok (h : qdfIntParseLazy s = .ok (value, negate, rest)) :
    ∃ (l : Literal) (pre : List UInt8), l.Full ∧ White pre ∧ s = pre ++ (l.text ++ rest) ∧
      l.Grows ∧ value = BitVec.ofNat 64 l.magnitude ∧ negate = decide (l.sign = .minus) := by
  rw [qdfIntParseLazy_takeSign] at h
  cases hradix : qdfConsumeRadix (takeSign (qdfStrLeftTrim s)).2 with
  | none =>
    rw [hradix] at h
    cases h
  | some r =>
    obtain ⟨radix, s'⟩ := r
    rw [hradix] at h
    obtain ⟨r, rfl, hbody, hdec⟩ := qdfConsumeRadix_some hradix
    cases hloop : digitLoop r.base s' 0 with
    | error status =>
      dsimp only at h
      rw [hloop] at h
      cases h
    | ok res =>
      dsimp only at h
      rw [hloop] at h
      cases h
      obtain ⟨ds, hs, hdigit, hstop, hgrows, hvalue⟩ := digitLoop_zero.1 hloop
      refine ⟨⟨(takeSign (qdfStrLeftTrim s)).1, r, ds, hdigit⟩, s.takeWhile isSpace, ?_,
        fun c hc => List.mem_takeWhile_imp hc, ?_, hgrows, ?_, rfl⟩
      · rintro hr rfl
        obtain ⟨c, hc, hsome⟩ := hdec hr
        rw [hs, List.nil_append] at hc
        rw [hstop c hc] at hsome
        cases hsome
      · have htext : qdfStrLeftTrim s = (takeSign (qdfStrLeftTrim s)).1.text ++
            (r.mark ++ (ds ++ res.2)) := by
          rw [← hs, ← hbody]
          exact takeSign_append _
        rw [Literal.text, List.append_assoc, List.append_assoc, ← htext]
        exact List.takeWhile_append_dropWhile.symm
      · refine BitVec.eq_of_toNat_eq ?_
        rw [hvalue, BitVec.toNat_ofNat]
        rfl

/-! ## The range checks -/

/-- The integer a parser found. -/
def signedNumber (value : BitVec 64) (negate : Bool) : ℤ :=
  if negate then -value.toNat else value.toNat

namespace IntType

/-- The integer is one of the type. -/
def Fits (t : IntType) (i : ℤ) : Prop :=
  if t.signed then -2 ^ (t.width - 1) ≤ i ∧ i < 2 ^ (t.width - 1) else 0 ≤ i ∧ i < 2 ^ t.width

/-- The integer that is stored. -/
def read (t : IntType) (x : BitVec t.width) : ℤ := if t.signed then x.toInt else x.toNat

end IntType

theorem toInt_of_fits (h : value.toNat < 2 ^ 63) : value.toInt = value.toNat := by
  rw [BitVec.toInt_eq_toNat_cond, if_pos (by omega)]

theorem toInt_neg_of_fits (h : value.toNat ≤ 2 ^ 63) : (-value).toInt = -value.toNat := by
  rw [BitVec.toInt_eq_toNat_cond, BitVec.toNat_neg]
  split_ifs <;> omega

/-- The check of a signed 64-bit number. -/
theorem int64_check (value : BitVec 64) (negate : Bool) :
    let x := if negate then -value else value
    (if negate then 0 < (-value).toInt else value.toInt < 0) ∧
        ¬ (-2 ^ 63 ≤ signedNumber value negate ∧ signedNumber value negate < 2 ^ 63) ∨
      ¬ (if negate then 0 < (-value).toInt else value.toInt < 0) ∧
        x.toInt = signedNumber value negate ∧
        -2 ^ 63 ≤ signedNumber value negate ∧ signedNumber value negate < 2 ^ 63 := by
  have hlt := value.isLt
  cases negate with
  | false =>
    simp only [signedNumber, Bool.false_eq_true, if_false]
    rcases Nat.lt_or_ge value.toNat (2 ^ 63) with h | h
    · rw [toInt_of_fits h]
      exact .inr ⟨by omega, rfl, by omega, by omega⟩
    · refine .inl ⟨?_, by omega⟩
      rw [BitVec.toInt_eq_toNat_cond, if_neg (by omega)]
      omega
  | true =>
    simp only [signedNumber, if_true]
    rcases Nat.lt_or_ge (2 ^ 63) value.toNat with h | h
    · refine .inl ⟨?_, by omega⟩
      rw [BitVec.toInt_eq_toNat_cond, BitVec.toNat_neg, if_pos (by omega)]
      omega
    · rw [toInt_neg_of_fits h]
      exact .inr ⟨by omega, rfl, by omega, by omega⟩

theorem qdfInt64Parse_of_ok (out : BitVec 64) (h : qdfIntParse s = .ok (value, negate)) :
    (¬ (-2 ^ 63 ≤ signedNumber value negate ∧ signedNumber value negate < 2 ^ 63) ∧
        qdfInt64Parse s out = (.eRange, out)) ∨
      ∃ x, qdfInt64Parse s out = (.success, x) ∧ x.toInt = signedNumber value negate ∧
        -2 ^ 63 ≤ signedNumber value negate ∧ signedNumber value negate < 2 ^ 63 := by
  have hcheck := int64_check value negate
  unfold qdfInt64Parse
  rw [h]
  cases negate with
  | false =>
    rcases hcheck with ⟨hout, hfits⟩ | ⟨hin, hx, hfits⟩
    · exact .inl ⟨hfits, if_pos hout⟩
    · exact .inr ⟨value, if_neg hin, hx, hfits⟩
  | true =>
    rcases hcheck with ⟨hout, hfits⟩ | ⟨hin, hx, hfits⟩
    · exact .inl ⟨hfits, if_pos hout⟩
    · exact .inr ⟨-value, if_neg hin, hx, hfits⟩

/-- The narrowing of a signed number loses nothing just if it fits. -/
theorem int32_check (x : BitVec 64) :
    (x.setWidth 32).signExtend 64 = x ↔ -2 ^ 31 ≤ x.toInt ∧ x.toInt < 2 ^ 31 := by
  have hbmod : ((x.setWidth 32).signExtend 64).toInt = x.toInt.bmod (2 ^ 32) := by
    rw [BitVec.toInt_signExtend_of_le (by omega),
      ← BitVec.signExtend_eq_setWidth_of_le x (by omega),
      BitVec.toInt_signExtend_eq_toInt_bmod_of_le x (by omega)]
  rw [← BitVec.toInt_inj, hbmod]
  constructor
  · intro h
    have hlow := @Int.le_bmod x.toInt (2 ^ 32) (by omega)
    have hhigh := @Int.bmod_lt x.toInt (2 ^ 32) (by omega)
    omega
  · intro h
    exact Int.bmod_eq_of_le (by omega) (by omega)

theorem toInt_setWidth_32 {x : BitVec 64} (h : (x.setWidth 32).signExtend 64 = x) :
    (x.setWidth 32).toInt = x.toInt := by
  rw [← BitVec.toInt_signExtend_of_le (show 32 ≤ 64 by omega), h]

/-- The narrowing of an unsigned number loses nothing just if it fits. -/
theorem uint_check {w : ℕ} (x : BitVec 64) :
    (x.setWidth w).setWidth 64 = x ↔ x.toNat < 2 ^ w := by
  have hlt := x.isLt
  rw [← BitVec.toNat_inj, BitVec.toNat_setWidth, BitVec.toNat_setWidth]
  constructor
  · intro h
    have hmod : x.toNat % 2 ^ w < 2 ^ w := Nat.mod_lt _ (Nat.two_pow_pos w)
    have hle : x.toNat % 2 ^ w % 2 ^ 64 ≤ x.toNat % 2 ^ w := Nat.mod_le _ _
    omega
  · intro h
    rw [Nat.mod_eq_of_lt h, Nat.mod_eq_of_lt hlt]

/-! ## Failures -/

theorem digitLoop_error {status : QdfStatus} (h : digitLoop radix s v = .error status) :
    status ≠ .success := by
  induction s generalizing v with
  | nil => cases h
  | cons c s ih =>
    rw [digitLoop] at h
    cases hc : hexDigit c with
    | none =>
      rw [hc] at h
      cases h
    | some d =>
      rw [hc] at h
      dsimp only at h
      split_ifs at h
      · cases h
        exact QdfStatus.noConfusion
      · cases h
        exact QdfStatus.noConfusion
      · exact ih h

theorem qdfIntParseLazy_error {status : QdfStatus} (h : qdfIntParseLazy s = .error status) :
    status ≠ .success := by
  rw [qdfIntParseLazy_takeSign] at h
  cases hradix : qdfConsumeRadix (takeSign (qdfStrLeftTrim s)).2 with
  | none =>
    rw [hradix] at h
    cases h
    exact QdfStatus.noConfusion
  | some r =>
    rw [hradix] at h
    dsimp only at h
    cases hloop : digitLoop r.1 r.2 0 with
    | error status' =>
      rw [hloop] at h
      cases h
      exact digitLoop_error hloop
    | ok res =>
      rw [hloop] at h
      cases h

theorem qdfIntParse_eq (s : List UInt8) : qdfIntParse s =
    match qdfIntParseLazy s with
    | .error status => .error status
    | .ok (value, negate, rest) =>
      if first (qdfStrLeftTrim rest) ≠ 0 then .error .eFailure else .ok (value, negate) := by
  unfold qdfIntParse
  cases qdfIntParseLazy s <;> rfl

theorem qdfIntParse_error {status : QdfStatus} (h : qdfIntParse s = .error status) :
    status ≠ .success := by
  rw [qdfIntParse_eq] at h
  split at h
  · rename_i hlazy
    cases h
    exact qdfIntParseLazy_error hlazy
  · split_ifs at h
    cases h
    exact QdfStatus.noConfusion

/-! ## The parsers -/

/-- The call failed, and the output is what it was. -/
def Fails (t : IntType) (s : List UInt8) (out : BitVec t.width) : Prop :=
  (t.parse s out).1 ≠ .success ∧ (t.parse s out).2 = out

/-- The call stored the integer. -/
def Stores (t : IntType) (s : List UInt8) (out : BitVec t.width) (i : ℤ) : Prop :=
  ∃ x, t.parse s out = (.success, x) ∧ t.read x = i

/-- The parsers for unsigned types refuse a minus. -/
def Takes (t : IntType) (value : BitVec 64) (negate : Bool) : Prop :=
  t.Fits (signedNumber value negate) ∧ (negate = true → t.signed = true)

theorem Stores.not_fails {out : BitVec t.width} {i : ℤ} (h : Stores t s out i) :
    ¬ Fails t s out := by
  obtain ⟨x, hx, -⟩ := h
  intro hfails
  exact hfails.1 (by rw [hx])

theorem fails_of_eq {status : QdfStatus} {out : BitVec t.width} (hne : status ≠ .success)
    (h : t.parse s out = (status, out)) : Fails t s out := by
  unfold Fails
  rw [h]
  exact ⟨hne, rfl⟩

theorem int64_parse_of_ok (out : BitVec 64) (h : qdfIntParse s = .ok (value, negate)) :
    (Takes .int64 value negate ∧ Stores .int64 s out (signedNumber value negate)) ∨
      (¬ Takes .int64 value negate ∧ Fails .int64 s out) := by
  rcases qdfInt64Parse_of_ok out h with ⟨hfits, heq⟩ | ⟨x, heq, hx, hfits⟩
  · exact .inr ⟨fun htakes => hfits htakes.1, fails_of_eq QdfStatus.noConfusion heq⟩
  · exact .inl ⟨⟨hfits, fun _ => rfl⟩, x, heq, hx⟩

theorem int32_parse_of_ok (out : BitVec 32) (h : qdfIntParse s = .ok (value, negate)) :
    (Takes .int32 value negate ∧ Stores .int32 s out (signedNumber value negate)) ∨
      (¬ Takes .int32 value negate ∧ Fails .int32 s out) := by
  rcases qdfInt64Parse_of_ok 0 h with ⟨hfits, heq⟩ | ⟨x, heq, hx, hfits⟩
  · have hparse : qdfInt32Parse s out = (.eRange, out) := by
      rw [qdfInt32Parse, heq]
      rfl
    refine .inr ⟨fun htakes => hfits ?_, fails_of_eq QdfStatus.noConfusion hparse⟩
    have hrange : -2 ^ 31 ≤ signedNumber value negate ∧ signedNumber value negate < 2 ^ 31 :=
      htakes.1
    omega
  · have hcheck := int32_check x
    rw [hx] at hcheck
    by_cases hnarrow : (x.setWidth 32).signExtend 64 = x
    · have hparse : qdfInt32Parse s out = (.success, x.setWidth 32) := by
        rw [qdfInt32Parse, heq]
        exact (if_neg (by simp)).trans (if_neg (not_not.2 hnarrow))
      exact .inl ⟨⟨hcheck.1 hnarrow, fun _ => rfl⟩, _, hparse, (toInt_setWidth_32 hnarrow).trans hx⟩
    · have hparse : qdfInt32Parse s out = (.eRange, out) := by
        rw [qdfInt32Parse, heq]
        exact (if_neg (by simp)).trans (if_pos hnarrow)
      exact .inr ⟨fun htakes => hnarrow (hcheck.2 htakes.1),
        fails_of_eq QdfStatus.noConfusion hparse⟩

theorem qdfUint64Parse_of_ok {out : BitVec 64} (h : qdfIntParse s = .ok (value, negate)) :
    qdfUint64Parse s out = if negate then (.eRange, out) else (.success, value) := by
  unfold qdfUint64Parse
  rw [h]

theorem qdfUintParse_of_ok {w : ℕ} {out : BitVec w} (h : qdfIntParse s = .ok (value, negate)) :
    qdfUintParse w s out =
      if negate = true ∨ 2 ^ w ≤ value.toNat then (.eRange, out)
      else (.success, value.setWidth w) := by
  unfold qdfUintParse
  rw [qdfUint64Parse_of_ok h]
  cases negate with
  | true => simp
  | false => simp [uint_check]

/-- The parsers for unsigned types. -/
theorem uint_parse_of_ok (out : BitVec t.width) (hsigned : t.signed = false)
    (hparse : t.parse s out = if negate = true ∨ 2 ^ t.width ≤ value.toNat then (.eRange, out)
      else (.success, value.setWidth t.width)) :
    (Takes t value negate ∧ Stores t s out (signedNumber value negate)) ∨
      (¬ Takes t value negate ∧ Fails t s out) := by
  by_cases hrefused : negate = true ∨ 2 ^ t.width ≤ value.toNat
  · rw [if_pos hrefused] at hparse
    refine .inr ⟨fun htakes => ?_, fails_of_eq QdfStatus.noConfusion hparse⟩
    obtain ⟨hfits, hminus⟩ := htakes
    rcases hrefused with rfl | hlarge
    · rw [hsigned] at hminus
      cases hminus rfl
    · cases negate with
      | true =>
        rw [hsigned] at hminus
        cases hminus rfl
      | false =>
        simp only [IntType.Fits, hsigned, signedNumber, Bool.false_eq_true, if_false] at hfits
        exact absurd hfits.2 (by exact_mod_cast Nat.not_lt.2 hlarge)
  · rw [if_neg hrefused] at hparse
    rw [not_or, Bool.not_eq_true, Nat.not_le] at hrefused
    obtain ⟨rfl, hlt⟩ := hrefused
    refine .inl ⟨⟨?_, fun h => (by cases h)⟩, _, hparse, ?_⟩
    · simp only [IntType.Fits, hsigned, signedNumber, Bool.false_eq_true, if_false]
      exact ⟨by omega, by exact_mod_cast hlt⟩
    · simp only [IntType.read, hsigned, signedNumber, Bool.false_eq_true, if_false]
      rw [BitVec.toNat_setWidth, Nat.mod_eq_of_lt hlt]

/-- **What a parser does with the integer that was found.** -/
theorem parse_of_ok (out : BitVec t.width) (h : qdfIntParse s = .ok (value, negate)) :
    (Takes t value negate ∧ Stores t s out (signedNumber value negate)) ∨
      (¬ Takes t value negate ∧ Fails t s out) := by
  cases t with
  | int32 => exact int32_parse_of_ok out h
  | int64 => exact int64_parse_of_ok out h
  | uint8 => exact uint_parse_of_ok out rfl (qdfUintParse_of_ok h)
  | uint16 => exact uint_parse_of_ok out rfl (qdfUintParse_of_ok h)
  | uint32 => exact uint_parse_of_ok out rfl (qdfUintParse_of_ok h)
  | uint64 =>
    refine uint_parse_of_ok out rfl ((qdfUint64Parse_of_ok h).trans ?_)
    have hlt : ¬ 2 ^ IntType.uint64.width ≤ value.toNat := Nat.not_le.2 value.isLt
    cases negate with
    | true => exact (if_pos (.inl rfl)).symm
    | false =>
      refine Eq.trans ?_ (if_neg (by simp [hlt])).symm
      exact congrArg (Prod.mk QdfStatus.success) (BitVec.setWidth_eq value).symm

theorem parse_of_error {status : QdfStatus} (out : BitVec t.width)
    (h : qdfIntParse s = .error status) : Fails t s out := by
  have hne := qdfIntParse_error h
  cases t <;> simp [Fails, IntType.parse, qdfInt64Parse, qdfUint64Parse, qdfInt32Parse,
    qdfUint8Parse, qdfUint16Parse, qdfUint32Parse, qdfUintParse, h, hne]

end Sm8850.Qdf
