/-
  Walks around a ring of `n` cells.

  A walk of `k` steps from a cell visits the `k` cells after it.  A ring that is written at
  cell `w` has its oldest cell there: `age w s` counts the cells from `w` on to `s`.

  * `Visited k c s`: the walk from `c` visits `s`.  `visited_iff`: how far `s` is from `c`.
  * `sub_val_eq`: how far one cell is from another, by their ages.
  * `visited_iff_age`, `visited_iff_age_of_lt`: the cells that a walk to a cell visits, by their
    ages.
-/
import Mathlib.Algebra.Group.Fin.Basic
import Mathlib.Algebra.GroupWithZero.Nat

namespace Sm8850.Lib.RingWalk

variable {n : ℕ} [NeZero n] {k : ℕ} {c d s w : Fin n}

/-- `k` steps from `c` on come to `s`. -/
def Visited : ℕ → Fin n → Fin n → Prop
  | 0, _, _ => False
  | k + 1, c, s => s = c + 1 ∨ Visited k (c + 1) s

/-- The number of cells from `w` on to `s`. -/
def age (w s : Fin n) : ℕ := (s - w).val

theorem val_one : (1 : Fin n).val = 1 % n := rfl

theorem val_sub_one {t : Fin n} (ht : t ≠ 0) : (t - 1).val = t.val - 1 := by
  have hpos : 0 < t.val := Nat.pos_of_ne_zero fun h => ht (Fin.ext h)
  have hone : 1 % n = 1 := Nat.mod_eq_of_lt (by omega)
  have hle : (1 : Fin n) ≤ t := by
    rw [Fin.le_def, val_one, hone]
    exact hpos
  rw [Fin.sub_val_of_le hle, val_one, hone]

theorem val_zero_sub_one : ((0 : Fin n) - 1).val = n - 1 := by
  have hn := Nat.pos_of_ne_zero (NeZero.ne n)
  rw [Fin.sub_def]
  change (n - 1 % n + 0) % n = n - 1
  rcases Nat.lt_or_ge 1 n with hlt | hle
  · rw [Nat.mod_eq_of_lt hlt, Nat.add_zero, Nat.mod_eq_of_lt (by omega)]
  · obtain rfl : n = 1 := by omega
    rfl

/-- The walk visits the cells after `c`. -/
theorem visited_iff (hk : k ≤ n) : Visited k c s ↔ (s - c - 1).val < k := by
  induction k generalizing c with
  | zero => exact ⟨False.elim, fun h => Nat.not_lt_zero _ h⟩
  | succ k ih =>
    have hstep : s = c + 1 ↔ s - c - 1 = 0 := by
      rw [sub_sub, sub_eq_zero]
    rw [Visited, ih (Nat.le_of_succ_le hk), hstep, ← sub_sub s c 1]
    by_cases hzero : s - c - 1 = 0
    · rw [hzero]
      simp
    · rw [val_sub_one hzero]
      have hpos : 0 < (s - c - 1).val := Nat.pos_of_ne_zero fun h => hzero (Fin.ext h)
      simp only [hzero, false_or]
      omega

/-- A walk that does not come round to where it starts. -/
theorem visited_iff_le (hk : k < n) : Visited k c s ↔ s ≠ c ∧ (s - c).val ≤ k := by
  rw [visited_iff hk.le]
  by_cases hs : s = c
  · rw [hs, sub_self, val_zero_sub_one]
    simp only [ne_eq, not_true_eq_false, false_and, iff_false]
    omega
  · have hzero : s - c ≠ 0 := fun h => hs (sub_eq_zero.1 h)
    have hpos : 0 < (s - c).val := Nat.pos_of_ne_zero fun h => hzero (Fin.ext h)
    rw [val_sub_one hzero]
    simp only [ne_eq, hs, not_false_eq_true, true_and]
    omega

/-- One step visits the next cell. -/
theorem visited_one : Visited 1 c s ↔ s = c + 1 := by
  rw [Visited, Visited, or_false]

/-- How far a cell is from another. -/
theorem sub_val_eq (w : Fin n) : (s - c).val =
    if age w c ≤ age w s then age w s - age w c else n + age w s - age w c := by
  have hsub : s - c = (s - w) - (c - w) := (sub_sub_sub_cancel_right s c w).symm
  rw [hsub, age, age]
  split
  · next hle => exact Fin.sub_val_of_le hle
  · next hlt => exact Fin.coe_sub_iff_lt.2 (not_le.1 hlt)

omit [NeZero n] in
theorem age_lt (w s : Fin n) : age w s < n := (s - w).isLt

theorem age_inj : age w s = age w c ↔ s = c := by
  rw [age, age, Fin.val_inj, sub_left_inj]

/-- A walk to a cell that is younger visits what is between. -/
theorem visited_iff_age (h : age w c ≤ age w d) :
    Visited (d - c).val c s ↔ age w c < age w s ∧ age w s ≤ age w d := by
  have hc := age_lt w c
  have hd := age_lt w d
  have hs := age_lt w s
  have hne := age_inj (w := w) (s := s) (c := c)
  rw [visited_iff_le (d - c).isLt, sub_val_eq w, sub_val_eq w, if_pos h, ne_eq, ← hne]
  split_ifs <;> omega

/-- A walk to a cell that is older comes by the end of the ring. -/
theorem visited_iff_age_of_lt (h : age w d < age w c) :
    Visited (d - c).val c s ↔ age w c < age w s ∨ age w s ≤ age w d := by
  have hc := age_lt w c
  have hd := age_lt w d
  have hs := age_lt w s
  have hne := age_inj (w := w) (s := s) (c := c)
  rw [visited_iff_le (d - c).isLt, sub_val_eq w, sub_val_eq w, if_neg (not_le.2 h), ne_eq, ← hne]
  split_ifs <;> omega

end Sm8850.Lib.RingWalk
