/-
  Serial numbers: the values of a counter that wraps around, compared by how far one is
  ahead of the other on the circle.

  * `ahead h a b` counts the steps from `b` up to `a` on a circle of `2 * h` values; `a` is
    taken for the newer one while that is at most `h`.
  * `signed h a b` is the same distance as a number of either sign.
  * `ahead_add`: two distances add up, but for one turn of the circle. This is all that the
    other lemmas use.
  * `halfway`: the comparison is not transitive; for a value between two others it fails
    just at a distance of exactly half the circle.
-/
import Mathlib.Data.Int.Notation
import Mathlib.Tactic.Common

namespace Sm8850.Serial

/-- The number of steps from `b` up to `a` on a circle of `2 * h` values. -/
def ahead (h a b : ℕ) : ℕ := if b ≤ a then a - b else 2 * h + a - b

/-- The distance from `b` to `a` with a sign, from `1 - h` up to `h`. -/
def signed (h a b : ℕ) : ℤ :=
  if h < ahead h a b then (ahead h a b : ℤ) - 2 * h else ahead h a b

variable {h a b c t u v x : ℕ}

/-! ## Distances -/

theorem ahead_lt (ha : a < 2 * h) : ahead h a b < 2 * h := by
  unfold ahead
  split
  · exact Nat.lt_of_le_of_lt (Nat.sub_le a b) ha
  · omega

/-- The steps bring one up to `a`, or to `a` on the next turn. -/
theorem ahead_spec (hb : b < 2 * h) : ahead h a b + b = a ∨ ahead h a b + b = a + 2 * h := by
  unfold ahead
  split
  · exact .inl (Nat.sub_add_cancel (by assumption))
  · exact .inr (by omega)

@[simp] theorem ahead_self : ahead h a a = 0 := by
  simp [ahead]

theorem ahead_eq_zero (hb : b < 2 * h) : ahead h a b = 0 ↔ a = b := by
  unfold ahead
  split <;> omega

/-- **Distances add up**, but for one turn of the circle. -/
theorem ahead_add (ha : a < 2 * h) (hb : b < 2 * h) (hc : c < 2 * h) :
    ahead h a b + ahead h b c = ahead h a c ∨
      ahead h a b + ahead h b c = ahead h a c + 2 * h := by
  have hlt := ahead_lt (b := b) ha
  have hlt' := ahead_lt (b := c) hb
  have hlt'' := ahead_lt (b := c) ha
  rcases ahead_spec (a := a) hb with hab | hab <;> rcases ahead_spec (a := b) hc with hbc | hbc <;>
    rcases ahead_spec (a := a) hc with hac | hac <;> omega

/-- Going from one value to the other and back is one turn. -/
theorem ahead_comm (ha : a < 2 * h) (hb : b < 2 * h) :
    a = b ∨ ahead h a b + ahead h b a = 2 * h := by
  unfold ahead
  split_ifs <;> omega

/-- Of two values one is not older than the other. -/
theorem ahead_total (ha : a < 2 * h) (hb : b < 2 * h) :
    ahead h a b ≤ h ∨ ahead h b a ≤ h := by
  rcases ahead_comm ha hb with rfl | hsum
  · simp
  · omega

/-- **Within half a circle** from some value on, the comparison is the order of the distances
    from there. -/
theorem ahead_le_iff (ha : a < 2 * h) (hb : b < 2 * h) (hc : c < 2 * h) (hac : ahead h a c < h)
    (hbc : ahead h b c < h) : ahead h a b ≤ h ↔ ahead h b c ≤ ahead h a c := by
  have hadd := ahead_add ha hb hc
  have := ahead_lt (b := b) ha
  omega

/-! ## The comparison at half the circle -/

/-- **Where the comparison fails to be transitive.**  `u` is older than `t`; `v` and `x` are
    not, and `v` is not older than `u` and `x`.  Then `u` passes for newer than `x` just if
    two of the values are half a circle apart. -/
theorem halfway (ht : t < 2 * h) (hu : u < 2 * h) (hv : v < 2 * h) (hx : x < 2 * h)
    (hut : h < ahead h u t) (hvt : ahead h v t ≤ h) (hvu : ahead h v u ≤ h)
    (hvx : ahead h v x ≤ h) (hxt : ahead h x t ≤ h) :
    ahead h u x ≤ h ↔
      (v = t ∧ ahead h x t = h) ∨ (x = v ∧ ahead h v u = h) := by
  have hut2 := ahead_lt (b := t) hu
  have hux := ahead_add hu hx ht
  have hvx' := ahead_add hv hx ht
  have hvu' := ahead_add hv hu ht
  rw [← ahead_eq_zero ht, ← ahead_eq_zero hv]
  have hxv := ahead_add hx hv ht
  have := ahead_lt (b := v) hx
  have := ahead_lt (b := x) hu
  constructor
  · intro hle
    omega
  · rintro (⟨hv0, hx0⟩ | ⟨hx0, hv0⟩) <;> omega

/-! ## The signed distance -/

theorem signed_nonneg (ha : a < 2 * h) : 0 ≤ signed h a b ↔ ahead h a b ≤ h := by
  have := ahead_lt (b := b) ha
  unfold signed
  split <;> omega

theorem signed_of_le (hle : ahead h a b ≤ h) : signed h a b = ahead h a b := by
  unfold signed
  rw [if_neg (by omega)]

theorem signed_eq_zero (ha : a < 2 * h) (hb : b < 2 * h) : signed h a b = 0 ↔ a = b := by
  rw [← ahead_eq_zero hb]
  have := ahead_lt (b := b) ha
  unfold signed
  split <;> omega

theorem signed_bounds (ha : a < 2 * h) : -(h : ℤ) < signed h a b ∧ signed h a b ≤ h := by
  have := ahead_lt (b := b) ha
  unfold signed
  split <;> omega

/-- When `b` is not older than `a`, `a` is strictly ahead only if they are half a circle
    apart. -/
theorem signed_pos_of_back (ha : a < 2 * h) (hb : b < 2 * h) (hba : ahead h b a ≤ h) :
    0 < signed h a b ↔ 0 < h ∧ ahead h a b = h := by
  rcases ahead_comm ha hb with rfl | hsum
  · rw [(signed_eq_zero ha ha).2 rfl, ahead_self]
    omega
  · unfold signed
    split <;> omega

/-- When `b` is older than `a`, `a` is strictly ahead. -/
theorem signed_pos_of_older (ha : a < 2 * h) (hb : b < 2 * h) (hba : h < ahead h b a) :
    0 < signed h a b := by
  rcases ahead_comm ha hb with rfl | hsum
  · simp at hba
  · have := ahead_lt (b := a) hb
    unfold signed
    split <;> omega

/-- Where `c` moves up to `b`, the distance to `a` that was ahead of `c` gets shorter by as
    much, or is used up. -/
theorem signed_advance (ha : a < 2 * h) (hb : b < 2 * h) (hc : c < 2 * h) :
    (signed h a c).toNat - ahead h b c ≤ (signed h a b).toNat := by
  have hadd := ahead_add ha hb hc
  have := ahead_lt (b := b) ha
  have := ahead_lt (b := c) ha
  unfold signed
  split_ifs <;> omega

end Sm8850.Serial
