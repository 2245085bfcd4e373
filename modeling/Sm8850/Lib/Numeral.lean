/-
  Numbers in positional notation, and what is left of them in a word.

  * `value`: the number a list of digits denotes, the first digit the most significant.
  * `Grows`: cut to a word, no number on the way to it is below the one before.  A reader that
    only compares successive words sees no overflow then.
  * `value_mod_concat`: one more digit, in a word; `grows_of_lt`: a number that fits in the word
    grows.
-/
import Mathlib.Data.List.Induction
import Mathlib.Data.Nat.Digits.Defs
import Mathlib.Data.Nat.ModEq
import Mathlib.Tactic.Common

namespace Sm8850.Lib.Numeral

variable {r m d : ℕ} {ds : List ℕ}

/-- The number that digits denote. -/
def value (r : ℕ) (ds : List ℕ) : ℕ := Nat.ofDigits r ds.reverse

@[simp] theorem value_nil : value r [] = 0 := by simp [value]

@[simp] theorem value_concat : value r (ds ++ [d]) = value r ds * r + d := by
  rw [value, List.reverse_append]
  simp only [List.reverse_cons, List.reverse_nil, List.nil_append, List.singleton_append,
    Nat.ofDigits_cons]
  rw [← value, Nat.mul_comm, Nat.add_comm]

theorem value_mod_concat : value r (ds ++ [d]) % m = (value r ds % m * r + d) % m := by
  rw [value_concat]
  exact ((Nat.mod_modEq (value r ds) m).symm.mul_right r).add_right d

/-- With another digit a number does not become smaller. -/
theorem value_le_concat (hr : 0 < r) : value r ds ≤ value r (ds ++ [d]) := by
  rw [value_concat]
  exact Nat.le_trans (Nat.le_mul_of_pos_right _ hr) (Nat.le_add_right _ _)

theorem value_le_append (hr : 0 < r) (more : List ℕ) : value r ds ≤ value r (ds ++ more) := by
  induction more using List.reverseRecOn with
  | nil => rw [List.append_nil]
  | append_singleton more d ih =>
    rw [← List.append_assoc]
    exact Nat.le_trans ih (value_le_concat hr)

theorem value_lt (hr : 1 < r) (h : ∀ d ∈ ds, d < r) : value r ds < r ^ ds.length := by
  rw [value, ← List.length_reverse]
  exact Nat.ofDigits_lt_base_pow_length hr fun d hd => h d (List.mem_reverse.1 hd)

/-- Cut to a word of `m` values, the number does not drop on the way. -/
def Grows (m r : ℕ) (ds : List ℕ) : Prop :=
  ∀ pre d post, ds = pre ++ d :: post → value r pre % m ≤ value r (pre ++ [d]) % m

theorem Grows.nil : Grows m r [] := fun _ _ _ h => by simp at h

theorem grows_concat : Grows m r (ds ++ [d]) ↔
    Grows m r ds ∧ value r ds % m ≤ value r (ds ++ [d]) % m := by
  constructor
  · intro h
    refine ⟨fun pre e post heq => h pre e (post ++ [d]) ?_, h ds d [] rfl⟩
    rw [heq, List.append_assoc, List.cons_append]
  · rintro ⟨h, hlast⟩ pre e post heq
    rcases List.eq_nil_or_concat post with rfl | ⟨post', d', rfl⟩
    · obtain ⟨rfl, hd⟩ := List.append_inj' heq rfl
      cases hd
      exact hlast
    · rw [List.concat_eq_append, ← List.cons_append, ← List.append_assoc] at heq
      obtain ⟨rfl, -⟩ := List.append_inj' heq rfl
      exact h pre e post' rfl

/-- A number that fits in the word grows. -/
theorem grows_of_lt (hr : 0 < r) (h : value r ds < m) : Grows m r ds := by
  rintro pre d post rfl
  have hle : value r (pre ++ [d]) ≤ value r (pre ++ d :: post) := by
    have := @value_le_append r (pre ++ [d]) hr post
    rwa [List.append_assoc] at this
  rw [Nat.mod_eq_of_lt (Nat.lt_of_le_of_lt hle h),
    Nat.mod_eq_of_lt (Nat.lt_of_le_of_lt (Nat.le_trans (value_le_concat hr) hle) h)]
  exact value_le_concat hr

end Sm8850.Lib.Numeral
