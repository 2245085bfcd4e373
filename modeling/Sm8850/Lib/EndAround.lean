/-
  Addition with an end-around carry: one's complement arithmetic on the values
  `0, …, m`, where `0` and `m` both stand for zero.

  * `eac m a b` adds two values; a carry out comes back in as a one.
  * `eac_modEq`: it is addition modulo `m`, and `eac_eq_zero`: it answers the
    representation `0` of zero only to two of them.  Congruence and `= 0` thus fix a
    value (`eq_of_modEq`), which is how sums of different words are compared.
  * `sum m` adds up a list; it depends on the multiset of the words only
    (`sum_perm`), and `eac_sum_eq` exchanges some words for others by adding the
    difference.
-/
import Mathlib.Data.Int.ModEq
import Mathlib.Algebra.BigOperators.Group.List.Basic
import Mathlib.Tactic.Common

namespace Sm8850.EndAround

/-- One's complement addition on `0, …, m`. -/
def eac (m a b : ℕ) : ℕ := if a + b ≤ m then a + b else a + b - m

/-- The one's complement sum of a list of words. -/
def sum (m : ℕ) (ws : List ℕ) : ℕ := ws.foldl (eac m) 0

variable {m a b c : ℕ} {ws ws' : List ℕ}

theorem eac_le (ha : a ≤ m) (hb : b ≤ m) : eac m a b ≤ m := by
  unfold eac
  split <;> omega

theorem eac_modEq : eac m a b ≡ a + b [MOD m] := by
  unfold eac
  split
  · rfl
  · next h =>
    exact (Nat.mod_eq_sub_mod (not_le.1 h).le).symm

/-- A sum is the representation 0 of zero only if both summands are. -/
theorem eac_eq_zero : eac m a b = 0 ↔ a = 0 ∧ b = 0 := by
  unfold eac
  split <;> omega

/-- Two values stand for the same number and are 0 together: they are equal. -/
theorem eq_of_modEq (ha : a ≤ m) (hb : b ≤ m) (h : a ≡ b [MOD m]) (h0 : a = 0 ↔ b = 0) :
    a = b := by
  rcases Nat.eq_zero_or_pos a with rfl | hpa
  · exact (h0.1 rfl).symm
  · have hpb : 0 < b := Nat.pos_of_ne_zero fun hb0 => hpa.ne' (h0.2 hb0)
    -- shift both down by one, where they are residues
    have h1 : a - 1 ≡ b - 1 [MOD m] := by
      refine Nat.ModEq.add_right_cancel' 1 ?_
      rwa [Nat.sub_add_cancel hpa, Nat.sub_add_cancel hpb]
    have := h1.eq_of_lt_of_lt (by omega) (by omega)
    omega

/-! ## Sums of words -/

private theorem foldl_eac_le (ha : a ≤ m) (hw : ∀ w ∈ ws, w ≤ m) : ws.foldl (eac m) a ≤ m := by
  induction ws generalizing a with
  | nil => exact ha
  | cons w ws ih =>
    obtain ⟨h1, h2⟩ := List.forall_mem_cons.1 hw
    exact ih (eac_le ha h1) h2

private theorem foldl_eac_modEq : ws.foldl (eac m) a ≡ a + ws.sum [MOD m] := by
  induction ws generalizing a with
  | nil => simp only [List.foldl_nil, List.sum_nil, add_zero]; rfl
  | cons w ws ih =>
    rw [List.foldl_cons, List.sum_cons, ← add_assoc]
    exact ih.trans (eac_modEq.add_right _)

private theorem foldl_eac_eq_zero : ws.foldl (eac m) a = 0 ↔ a = 0 ∧ ∀ w ∈ ws, w = 0 := by
  induction ws generalizing a with
  | nil => simp
  | cons w ws ih =>
    rw [List.foldl_cons, ih, eac_eq_zero, List.forall_mem_cons, and_assoc]

theorem sum_le (hw : ∀ w ∈ ws, w ≤ m) : sum m ws ≤ m := foldl_eac_le (Nat.zero_le m) hw

theorem sum_modEq : sum m ws ≡ ws.sum [MOD m] := by
  have h : ws.foldl (eac m) 0 ≡ 0 + ws.sum [MOD m] := foldl_eac_modEq
  rwa [zero_add] at h

theorem sum_eq_zero : sum m ws = 0 ↔ ∀ w ∈ ws, w = 0 :=
  foldl_eac_eq_zero.trans (and_iff_right rfl)

/-- The order of the words does not matter. -/
theorem sum_perm (hw : ∀ w ∈ ws, w ≤ m) (h : ws.Perm ws') : sum m ws = sum m ws' := by
  refine eq_of_modEq (sum_le hw) (sum_le fun w hm => hw w (h.mem_iff.2 hm)) ?_ ?_
  · calc sum m ws ≡ ws.sum [MOD m] := sum_modEq
      _ = ws'.sum := h.sum_eq
      _ ≡ sum m ws' [MOD m] := sum_modEq.symm
  · rw [sum_eq_zero, sum_eq_zero]
    exact forall_congr' fun w => imp_congr_left h.mem_iff

/-- **Incremental update.**  Where `d` stands for the difference of two sums, adding
    it to one gives the other, except that it does not give the zero 0. -/
theorem eac_sum_eq {d : ℕ} (hd : d ≤ m) (hw : ∀ w ∈ ws, w ≤ m) (hw' : ∀ w ∈ ws', w ≤ m)
    (hsum : ws.sum + d ≡ ws'.sum [MOD m]) (hne : ∃ w ∈ ws', w ≠ 0)
    (hne' : sum m ws ≠ 0 ∨ d ≠ 0) : eac m (sum m ws) d = sum m ws' := by
  refine eq_of_modEq (eac_le (sum_le hw) hd) (sum_le hw') ?_ ?_
  · calc eac m (sum m ws) d ≡ sum m ws + d [MOD m] := eac_modEq
      _ ≡ ws.sum + d [MOD m] := sum_modEq.add_right d
      _ ≡ ws'.sum [MOD m] := hsum
      _ ≡ sum m ws' [MOD m] := sum_modEq.symm
  · have hr : sum m ws' ≠ 0 := by
      rw [Ne, sum_eq_zero]
      push Not
      exact hne
    have hl : eac m (sum m ws) d ≠ 0 := by
      rw [Ne, eac_eq_zero]
      tauto
    exact iff_of_false hl hr

/-! ## Complements -/

/-- The one's complement of a value. -/
def compl (m a : ℕ) : ℕ := m - a

theorem compl_compl (ha : a ≤ m) : compl m (compl m a) = a := Nat.sub_sub_self ha

theorem compl_le : compl m a ≤ m := Nat.sub_le m a

end Sm8850.EndAround
