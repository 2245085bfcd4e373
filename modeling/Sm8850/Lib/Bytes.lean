/-
  Fields of a byte string, in network byte order.

  * `byteAt`, `be16` and `be32` read a field, `setBe16` and `setBe32` write one.
  * `be16_setBe16`, `be16_setBe16_of_disjoint` and their like say what is read after a write.
  * `slice` is a piece of the string, if it has that piece.
-/
import Mathlib.Algebra.Order.Group.Nat
import Mathlib.Data.List.Basic
import Mathlib.Tactic.Common

namespace Sm8850.Lib.Bytes

variable {l b : List UInt8} {i j k n off v : ℕ}

/-- The byte at an offset. -/
def byteAt (l : List UInt8) (i : ℕ) : ℕ := (l.getD i 0).toNat

def be16 (l : List UInt8) (i : ℕ) : ℕ := byteAt l i * 256 + byteAt l (i + 1)

def be32 (l : List UInt8) (i : ℕ) : ℕ := be16 l i * 65536 + be16 l (i + 2)

def setBe16 (l : List UInt8) (i v : ℕ) : List UInt8 :=
  (l.set i (UInt8.ofNat (v / 256))).set (i + 1) (UInt8.ofNat v)

def setBe32 (l : List UInt8) (i v : ℕ) : List UInt8 :=
  setBe16 (setBe16 l i (v / 65536)) (i + 2) v

/-- `n` bytes from an offset on. -/
def slice (l : List UInt8) (off n : ℕ) : Option (List UInt8) :=
  if off + n ≤ l.length then some ((l.drop off).take n) else none

/-- A field of a number: `u` is below it, and `q` above. -/
theorem field_eq {v m k : ℕ} (u b q : ℕ) (hv : v = u + m * (b + k * q)) (hu : u < m)
    (hb : b < k) : v / m % k = b := by
  rw [hv, Nat.add_mul_div_left _ _ (Nat.zero_lt_of_lt hu), Nat.div_eq_of_lt hu, Nat.zero_add,
    Nat.add_mul_mod_self_left, Nat.mod_eq_of_lt hb]

/-! ## Reading -/

theorem byteAt_lt (l : List UInt8) (i : ℕ) : byteAt l i < 256 := (l.getD i 0).toNat_lt

theorem be16_lt (l : List UInt8) (i : ℕ) : be16 l i < 2 ^ 16 := by
  have hi := byteAt_lt l i
  have hj := byteAt_lt l (i + 1)
  unfold be16
  omega

theorem be32_lt (l : List UInt8) (i : ℕ) : be32 l i < 2 ^ 32 := by
  have hi := be16_lt l i
  have hj := be16_lt l (i + 2)
  unfold be32
  omega

theorem byteAt_take (h : i < n) : byteAt (l.take n) i = byteAt l i := by
  rw [byteAt, List.getD_eq_getElem?_getD, List.getElem?_take_of_lt h, byteAt,
    List.getD_eq_getElem?_getD]

theorem byteAt_drop (l : List UInt8) (off i : ℕ) : byteAt (l.drop off) i = byteAt l (off + i) := by
  rw [byteAt, List.getD_eq_getElem?_getD, List.getElem?_drop, byteAt, List.getD_eq_getElem?_getD]

theorem be16_take (h : i + 1 < n) : be16 (l.take n) i = be16 l i := by
  rw [be16, byteAt_take (Nat.lt_of_succ_lt h), byteAt_take h]
  rfl

theorem be32_take (h : i + 3 < n) : be32 (l.take n) i = be32 l i := by
  rw [be32, be16_take (by omega), be16_take h]
  rfl

theorem slice_eq (h : off + n ≤ l.length) : slice l off n = some ((l.drop off).take n) := if_pos h

theorem slice_eq_some (h : slice l off n = some b) :
    off + n ≤ l.length ∧ b = (l.drop off).take n := by
  unfold slice at h
  split at h
  · exact ⟨by assumption, (Option.some.inj h).symm⟩
  · cases h

theorem byteAt_slice (h : slice l off n = some b) (hi : i < n) :
    byteAt b i = byteAt l (off + i) := by
  rw [(slice_eq_some h).2, byteAt_take hi, byteAt_drop]

theorem be16_slice (h : slice l off n = some b) (hi : i + 1 < n) :
    be16 b i = be16 l (off + i) := by
  rw [be16, byteAt_slice h (Nat.lt_of_succ_lt hi), byteAt_slice h hi]
  rfl

theorem be32_slice (h : slice l off n = some b) (hi : i + 3 < n) :
    be32 b i = be32 l (off + i) := by
  rw [be32, be16_slice h (by omega), be16_slice h hi]
  rfl

/-! ## Writing -/

@[simp] theorem length_setBe16 (l : List UInt8) (i v : ℕ) :
    (setBe16 l i v).length = l.length := by
  rw [setBe16, List.length_set, List.length_set]

@[simp] theorem length_setBe32 (l : List UInt8) (i v : ℕ) :
    (setBe32 l i v).length = l.length := by
  rw [setBe32, length_setBe16, length_setBe16]

theorem byteAt_set_of_ne (u : UInt8) (h : i ≠ j) : byteAt (l.set i u) j = byteAt l j := by
  rw [byteAt, List.getD_eq_getElem?_getD, List.getElem?_set_ne h, byteAt,
    List.getD_eq_getElem?_getD]

theorem byteAt_set (u : UInt8) (h : i < l.length) : byteAt (l.set i u) i = u.toNat := by
  rw [byteAt, List.getD_eq_getElem?_getD, List.getElem?_set_self h]
  rfl

theorem byteAt_setBe16_of_ne (v : ℕ) (h : j ≠ i) (h' : j ≠ i + 1) :
    byteAt (setBe16 l i v) j = byteAt l j := by
  rw [setBe16, byteAt_set_of_ne _ h'.symm, byteAt_set_of_ne _ h.symm]

theorem be16_setBe16 (h : i + 1 < l.length) : be16 (setBe16 l i v) i = v % 2 ^ 16 := by
  have hlo : byteAt (setBe16 l i v) (i + 1) = v % 256 := by
    rw [setBe16, byteAt_set _ (by rwa [List.length_set]), UInt8.toNat_ofNat']
  have hhi : byteAt (setBe16 l i v) i = v / 256 % 256 := by
    rw [setBe16, byteAt_set_of_ne _ (by omega), byteAt_set _ (by omega), UInt8.toNat_ofNat']
  rw [be16, hlo, hhi]
  omega

/-- A write is not seen elsewhere. -/
theorem be16_setBe16_of_disjoint (v : ℕ) (h : j + 1 < i ∨ i + 1 < j) :
    be16 (setBe16 l i v) j = be16 l j := by
  rw [be16, byteAt_setBe16_of_ne _ (by omega) (by omega),
    byteAt_setBe16_of_ne _ (by omega) (by omega)]
  rfl

theorem be32_setBe16_of_disjoint (v : ℕ) (h : j + 3 < i ∨ i + 1 < j) :
    be32 (setBe16 l i v) j = be32 l j := by
  rw [be32, be16_setBe16_of_disjoint _ (by omega), be16_setBe16_of_disjoint _ (by omega)]
  rfl

theorem be32_setBe32 (h : i + 3 < l.length) : be32 (setBe32 l i v) i = v % 2 ^ 32 := by
  have hhi : be16 (setBe32 l i v) i = v / 65536 % 2 ^ 16 := by
    rw [setBe32, be16_setBe16_of_disjoint _ (by omega), be16_setBe16 (by omega)]
  have hlo : be16 (setBe32 l i v) (i + 2) = v % 2 ^ 16 := by
    rw [setBe32, be16_setBe16 (by rw [length_setBe16]; omega)]
  rw [be32, hhi, hlo]
  omega

theorem be16_setBe32_of_disjoint (v : ℕ) (h : j + 1 < i ∨ i + 3 < j) :
    be16 (setBe32 l i v) j = be16 l j := by
  rw [setBe32, be16_setBe16_of_disjoint _ (by omega), be16_setBe16_of_disjoint _ (by omega)]

end Sm8850.Lib.Bytes
