/-
  Integers as text, and how the parsers take them apart.

  * `Literal`: a sign, a radix and digits of that radix; `Spells` says that a string is such a
    literal with white space around it, `Denotes` which number that is.
  * `Literal.Full`: there is a digit, or a mark for the radix in its place.
  * `spells_unique`: a string spells one literal at most.
  * `qdfIntParseLazy_eq`, `qdfIntParseLazy_ok`: what the parser makes of a literal, and that it
    accepts nothing else.
-/
import Sm8850.Lib.Numeral
import Sm8850.Qdf.IntParse

namespace Sm8850.Qdf

open Lib

/-! ## Literals -/

/-- The sign of a number, if there is one. -/
inductive Sign
  | absent | plus | minus
  deriving DecidableEq

def Sign.text : Sign → List UInt8
  | absent => []
  | plus => bytes ['+']
  | minus => bytes ['-']

inductive Radix
  | bin | oct | dec | hex

namespace Radix

def base : Radix → ℕ
  | bin => 2
  | oct => 8
  | dec => 10
  | hex => 16

/-- How a number of this radix begins. -/
def mark : Radix → List UInt8
  | bin => bytes ['0', 'b']
  | oct => bytes ['0', 'o']
  | dec => []
  | hex => bytes ['0', 'x']

def IsDigit (r : Radix) (c : UInt8) : Prop := ∃ d ∈ hexDigit c, d < r.base

instance (r : Radix) (c : UInt8) : Decidable (r.IsDigit c) :=
  inferInstanceAs (Decidable (∃ d ∈ hexDigit c, d < r.base))

theorem base_pos (r : Radix) : 0 < r.base := by cases r <;> simp [base]

end Radix

theorem Radix.isDigit_of_all {r : Radix} {l : List UInt8}
    (h : l.all (fun c => decide (r.IsDigit c)) = true) : ∀ c ∈ l, r.IsDigit c :=
  fun c hc => of_decide_eq_true (List.all_eq_true.1 h c hc)

/-- A sign, a radix and digits of that radix. -/
@[ext] structure Literal where
  sign : Sign
  radix : Radix
  digits : List UInt8
  isDigit : ∀ c ∈ digits, radix.IsDigit c

namespace Literal

def text (l : Literal) : List UInt8 := l.sign.text ++ (l.radix.mark ++ l.digits)

def values (l : Literal) : List ℕ := l.digits.filterMap hexDigit

def magnitude (l : Literal) : ℕ := Numeral.value l.radix.base l.values

def number (l : Literal) : ℤ := if l.sign = .minus then -l.magnitude else l.magnitude

/-- There is something to read behind the sign. -/
def Full (l : Literal) : Prop := l.radix = .dec → l.digits ≠ []

end Literal

def White (s : List UInt8) : Prop := ∀ c ∈ s, isSpace c = true

/-- The string is the literal, with white space around it. -/
def Spells (s : List UInt8) (l : Literal) : Prop :=
  ∃ pre post, White pre ∧ White post ∧ s = pre ++ (l.text ++ post)

/-- The string denotes the integer. -/
def Denotes (s : List UInt8) (i : ℤ) : Prop := ∃ l, Spells s l ∧ l.digits ≠ [] ∧ l.number = i

/-! ## Characters -/

variable {c : UInt8} {d d' : ℕ} {s rest pre post : List UInt8} {l l' : Literal} {negate : Bool}
  {value : BitVec 64}

theorem hexDigit_eq (c : UInt8) : hexDigit c =
    if 48 ≤ c.toNat ∧ c.toNat ≤ 57 then some (c.toNat - 48)
    else if 97 ≤ c.toNat ∧ c.toNat ≤ 102 then some (c.toNat - 97 + 10)
    else if 65 ≤ c.toNat ∧ c.toNat ≤ 70 then some (c.toNat - 65 + 10) else none := by
  unfold hexDigit
  simp only [UInt8.le_iff_toNat_le]
  rfl

theorem isSpace_iff : isSpace c = true ↔ c.toNat = 32 ∨ (9 ≤ c.toNat ∧ c.toNat ≤ 13) ∨
    c.toNat = 160 := by
  unfold isSpace
  simp only [Bool.or_eq_true, Bool.and_eq_true, decide_eq_true_eq, UInt8.le_iff_toNat_le,
    ← UInt8.toNat_inj, or_assoc]
  rfl

/-- The characters behind a number: white space, a comma, or none. -/
def Stops (s : List UInt8) : Prop := ∀ c ∈ s.head?, isSpace c = true ∨ c = ','.toUInt8

theorem White.stops (h : White s) : Stops s := fun c hc => .inl (h c (List.mem_of_head? hc))

theorem hexDigit_of_stop (h : isSpace c = true ∨ c = ','.toUInt8) : hexDigit c = none := by
  have hc : c.toNat = 32 ∨ (9 ≤ c.toNat ∧ c.toNat ≤ 13) ∨ c.toNat = 160 ∨ c.toNat = 44 := by
    rcases h with h | rfl
    · rcases isSpace_iff.1 h with h | h | h
      · exact .inl h
      · exact .inr (.inl h)
      · exact .inr (.inr (.inl h))
    · exact .inr (.inr (.inr rfl))
  rw [hexDigit_eq, if_neg (by omega), if_neg (by omega), if_neg (by omega)]

/-- The first character of a number behind its sign. -/
theorem Literal.Full.first (h : l.Full) (rest : List UInt8) :
    ∃ c s, l.radix.mark ++ (l.digits ++ rest) = c :: s ∧ 48 ≤ c.toNat ∧ c.toNat ≤ 57 := by
  have hdigit := l.isDigit
  unfold Full at h
  cases hr : l.radix with
  | bin => exact ⟨_, _, rfl, by decide, by decide⟩
  | oct => exact ⟨_, _, rfl, by decide, by decide⟩
  | hex => exact ⟨_, _, rfl, by decide, by decide⟩
  | dec =>
    obtain ⟨c, ds, hds⟩ := List.exists_cons_of_ne_nil (h hr)
    rw [hds] at hdigit ⊢
    obtain ⟨d, hd, hlt⟩ := hdigit c List.mem_cons_self
    rw [hr] at hlt
    rw [hexDigit_eq, Option.mem_def] at hd
    refine ⟨c, ds ++ rest, rfl, ?_⟩
    simp only [Radix.base] at hlt
    split_ifs at hd with h1 h2 h3
    · exact h1
    · have := Option.some.inj hd
      omega
    · have := Option.some.inj hd
      omega

/-! ## Taking a string apart -/

/-- The sign a string begins with, and the rest. -/
def takeSign (s : List UInt8) : Sign × List UInt8 :=
  match qdfConsumeChar s '-' with
  | some s => (.minus, s)
  | none =>
    match qdfConsumeChar s '+' with
    | some s => (.plus, s)
    | none => (.absent, s)

theorem qdfIntParseLazy_takeSign (s : List UInt8) : qdfIntParseLazy s =
    match qdfConsumeRadix (takeSign (qdfStrLeftTrim s)).2 with
    | none => .error .eFailure
    | some (radix, s') => (digitLoop radix s' 0).map fun r =>
      (r.1, decide ((takeSign (qdfStrLeftTrim s)).1 = .minus), r.2) := by
  unfold qdfIntParseLazy takeSign
  dsimp only
  generalize qdfStrLeftTrim s = t
  cases hminus : qdfConsumeChar t '-' with
  | some s' => cases qdfConsumeRadix s' <;> rfl
  | none =>
    cases hplus : qdfConsumeChar t '+' with
    | none =>
      dsimp only [Option.getD]
      cases qdfConsumeRadix t <;> rfl
    | some s' =>
      dsimp only [Option.getD]
      cases qdfConsumeRadix s' <;> rfl

theorem qdfStrLeftTrim_white (hpre : White pre) (s : List UInt8) :
    qdfStrLeftTrim (pre ++ s) = qdfStrLeftTrim s := List.dropWhile_append_of_pos hpre

theorem takeSign_text (sign : Sign) (h : 48 ≤ c.toNat ∧ c.toNat ≤ 57) :
    takeSign (sign.text ++ c :: s) = (sign, c :: s) := by
  cases sign with
  | minus => rfl
  | plus => rfl
  | absent =>
    have hminus : c ≠ '-'.toUInt8 := by
      rintro rfl
      exact absurd h.1 (by decide)
    have hplus : c ≠ '+'.toUInt8 := by
      rintro rfl
      exact absurd h.1 (by decide)
    simp [takeSign, qdfConsumeChar, first, Sign.text, hminus, hplus]

/-- Neither the digits of a decimal number nor what follows it are a mark. -/
theorem Literal.not_mark (hr : l.radix = .dec) (hrest : Stops rest)
    (h : first (l.digits.tail ++ rest) = c) :
    c ≠ 'b'.toUInt8 ∧ c ≠ 'o'.toUInt8 ∧ c ≠ 'x'.toUInt8 := by
  have hc : c.toNat ≤ 57 ∨ c.toNat = 160 := by
    cases hds : l.digits.tail with
    | nil =>
      rw [hds, List.nil_append] at h
      cases rest with
      | nil => exact .inl (h ▸ by decide)
      | cons a rest =>
        obtain rfl : a = c := h
        rcases hrest a rfl with hspace | rfl
        · rcases isSpace_iff.1 hspace with hspace | hspace | hspace
          · omega
          · omega
          · exact .inr hspace
        · exact .inl (by decide)
    | cons a ds =>
      rw [hds] at h
      obtain rfl : a = c := h
      obtain ⟨d, hd, hlt⟩ := l.isDigit a (List.mem_of_mem_tail (hds ▸ List.mem_cons_self))
      rw [hr] at hlt
      simp only [Radix.base] at hlt
      rw [hexDigit_eq, Option.mem_def] at hd
      split_ifs at hd with h1 h2 h3
      · exact .inl h1.2
      · have := Option.some.inj hd
        omega
      · have := Option.some.inj hd
        omega
  refine ⟨?_, ?_, ?_⟩ <;> · rintro rfl; exact absurd hc (by decide)

theorem qdfConsumeRadix_mark (hfull : l.Full) (hrest : Stops rest) :
    qdfConsumeRadix (l.radix.mark ++ (l.digits ++ rest)) =
      some (l.radix.base, l.digits ++ rest) := by
  obtain ⟨c, s, hcons, hlow, hhigh⟩ := hfull.first rest
  cases hr : l.radix with
  | bin => rfl
  | oct => rfl
  | hex => rfl
  | dec =>
    obtain ⟨a, ds, hds⟩ := List.exists_cons_of_ne_nil (hfull hr)
    have hmark := @Literal.not_mark _ rest l hr hrest rfl
    rw [hr, hds] at hcons
    rw [hds] at hmark ⊢
    obtain ⟨rfl, -⟩ := List.cons.inj hcons
    obtain ⟨hb, ho, hx⟩ : first (a :: (ds ++ rest)).tail ≠ 'b'.toUInt8 ∧
        first (a :: (ds ++ rest)).tail ≠ 'o'.toUInt8 ∧
        first (a :: (ds ++ rest)).tail ≠ 'x'.toUInt8 := hmark
    have hrange : '0'.toUInt8 ≤ first (a :: (ds ++ rest)) ∧
        first (a :: (ds ++ rest)) ≤ '9'.toUInt8 := by
      simp only [UInt8.le_iff_toNat_le]
      exact ⟨hlow, hhigh⟩
    simp only [Radix.mark, List.nil_append, List.cons_append]
    rw [qdfConsumeRadix, if_neg hb, if_neg ho, if_neg hx, if_pos hrange, ite_self]
    rfl

/-- A string that begins with a number, without the white space. -/
theorem qdfStrLeftTrim_text (hfull : l.Full) (hpre : White pre) :
    qdfStrLeftTrim (pre ++ (l.text ++ rest)) = l.text ++ rest := by
  obtain ⟨c, s, hcons, hlow, hhigh⟩ := hfull.first rest
  rw [qdfStrLeftTrim_white hpre, Literal.text, List.append_assoc, List.append_assoc, hcons]
  have hspace : ¬ isSpace c = true := by
    rw [isSpace_iff]
    omega
  cases l.sign with
  | absent => exact List.dropWhile_cons_of_neg hspace
  | plus => rfl
  | minus => rfl

/-- The parts of a string that spells a number. -/
theorem takeSign_literal (hfull : l.Full) (hpre : White pre) :
    takeSign (qdfStrLeftTrim (pre ++ (l.text ++ rest))) =
      (l.sign, l.radix.mark ++ (l.digits ++ rest)) := by
  obtain ⟨c, s, hcons, hrange⟩ := hfull.first rest
  rw [qdfStrLeftTrim_text hfull hpre, Literal.text, List.append_assoc, List.append_assoc, hcons]
  exact takeSign_text l.sign hrange

/-- The digits end at the first character that is none. -/
theorem takeWhile_digits {ds : List UInt8} (hds : ∀ c ∈ ds, ∃ d ∈ hexDigit c, d < d')
    (hrest : ∀ c ∈ rest.head?, hexDigit c = none) :
    (ds ++ rest).takeWhile (fun c => (hexDigit c).isSome) = ds := by
  have hall : ∀ c ∈ ds, (hexDigit c).isSome = true := fun c hc => by
    obtain ⟨d, hd, -⟩ := hds c hc
    exact Option.isSome_of_mem hd
  rw [List.takeWhile_append_of_pos hall]
  have hnone : rest.takeWhile (fun c => (hexDigit c).isSome) = [] := by
    cases rest with
    | nil => rfl
    | cons a rest =>
      refine List.takeWhile_cons_of_neg ?_
      rw [hrest a rfl]
      exact Bool.false_ne_true
  rw [hnone, List.append_nil]

theorem Stops.hexDigit (h : Stops rest) : ∀ c ∈ rest.head?, hexDigit c = none :=
  fun c hc => hexDigit_of_stop (h c hc)

theorem Radix.base_injective {r r' : Radix} (h : r.base = r'.base) : r = r' := by
  cases r <;> cases r' <;> first | rfl | cases h

/-- **A string spells one number at most.** -/
theorem spells_unique (h : Spells s l) (h' : Spells s l') (hfull : l.Full) (hfull' : l'.Full) :
    l = l' := by
  obtain ⟨pre, post, hpre, hpost, rfl⟩ := h
  obtain ⟨pre', post', hpre', hpost', heq⟩ := h'
  have hsign : takeSign (qdfStrLeftTrim (pre ++ (l.text ++ post))) =
      (l.sign, l.radix.mark ++ (l.digits ++ post)) := takeSign_literal hfull hpre
  rw [heq, takeSign_literal hfull' hpre'] at hsign
  obtain ⟨hsign, hbody⟩ := Prod.mk.inj hsign
  have hradix := qdfConsumeRadix_mark hfull hpost.stops
  rw [← hbody, qdfConsumeRadix_mark hfull' hpost'.stops] at hradix
  obtain ⟨hbase, htail⟩ := Prod.mk.inj (Option.some.inj hradix)
  refine Literal.ext hsign.symm (Radix.base_injective hbase).symm ?_
  rw [← takeWhile_digits l.isDigit hpost.stops.hexDigit, ← htail,
    takeWhile_digits l'.isDigit hpost'.stops.hexDigit]

end Sm8850.Qdf
