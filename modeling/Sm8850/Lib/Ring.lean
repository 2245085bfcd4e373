/-
  Circular buffers.

  A buffer of `N` cells carries a stream: position `p` of the stream lies in
  cell `p % N`.  A reader has taken the stream up to `pos`, a writer has put a
  list `s` of further words after it.

  * `Holds N mem pos s`: the cells hold `s` from position `pos` on, and at
    least one cell is free.
  * `freeSpace` is the usual computation of the free cells from the two
    indices; `freeSpace_mod` is its meaning, and `mod_eq_iff` says that equal
    indices mean an empty buffer.
  * `wrapIndex_eq_mod`: a copy split at the end of the buffer goes where
    positions modulo `N` go.
  * `Holds.write`, `Holds.append` and `Holds.drop` are the rules for writing
    behind the stream, publishing and consuming; `Holds.push`, `Holds.cons` and
    `Holds.set` put one word behind the stream, before it, and in it.
-/
import Mathlib.Data.List.Basic
import Mathlib.Data.Nat.ModEq
import Mathlib.Logic.Function.Basic

namespace Sm8850.Lib.Ring

variable {α : Type} {N pos used : ℕ}

/-! ## Indices -/

/-- The free cells between a write index and a read index. -/
def freeSpace (N r w : ℕ) : ℕ := if r ≤ w then N - (w - r) else r - w

/-- Cell `i` of a copy that starts at cell `start` and is split at the end. -/
def wrapIndex (N start i : ℕ) : ℕ := if start + i < N then start + i else start + i - N

theorem wrapIndex_eq_mod {i : ℕ} (hi : i < N) :
    wrapIndex N (pos % N) i = (pos + i) % N := by
  have hN : 0 < N := Nat.zero_lt_of_lt hi
  have hs := Nat.mod_lt pos hN
  rw [wrapIndex, ← Nat.mod_add_mod pos N i]
  split
  · next h => exact (Nat.mod_eq_of_lt h).symm
  · next h =>
    have hlt : pos % N + i - N < N := by omega
    rw [Nat.mod_eq_sub_mod (Nat.le_of_not_lt h), Nat.mod_eq_of_lt hlt]

/-- Distinct positions less than `N` apart lie in distinct cells. -/
theorem mod_ne_mod {a b : ℕ} (hab : a < b) (hb : b < a + N) : a % N ≠ b % N := by
  intro h
  have hd := (Nat.modEq_iff_dvd' hab.le).1 h
  have := Nat.le_of_dvd (by omega) hd
  omega

/-- Equal indices mean an empty buffer. -/
theorem mod_eq_iff (hu : used < N) : pos % N = (pos + used) % N ↔ used = 0 := by
  constructor
  · intro h
    by_contra h0
    exact mod_ne_mod (by omega) (by omega) h
  · rintro rfl
    rfl

/-- The free space of the indices is what the stream leaves. -/
theorem freeSpace_mod (hu : used < N) :
    freeSpace N (pos % N) ((pos + used) % N) = N - used := by
  have hp := Nat.mod_lt pos (Nat.zero_lt_of_lt hu)
  rw [← wrapIndex_eq_mod hu, wrapIndex, freeSpace]
  split_ifs <;> omega

/-! ## Contents -/

/-- The cells hold the words `s` from stream position `pos` on. -/
structure Holds (N : ℕ) (mem : ℕ → α) (pos : ℕ) (s : List α) : Prop where
  lt : s.length < N
  cell : ∀ j (h : j < s.length), mem ((pos + j) % N) = s[j]

theorem Holds.nil {mem : ℕ → α} (hN : 0 < N) : Holds N mem pos [] :=
  ⟨hN, fun _ h => absurd h (Nat.not_lt_zero _)⟩

/-- A write behind the stream leaves the stream alone. -/
theorem Holds.write {mem : ℕ → α} {s : List α} (h : Holds N mem pos s) {i : ℕ}
    (hi : s.length + i < N) (x : α) :
    Holds N (Function.update mem ((pos + s.length + i) % N) x) pos s := by
  refine ⟨h.lt, fun j hj => ?_⟩
  rw [Function.update_of_ne (mod_ne_mod (by omega) (by omega)), h.cell j hj]

/-- Publish the words written behind the stream. -/
theorem Holds.append {mem : ℕ → α} {s ws : List α} (h : Holds N mem pos s)
    (hlt : s.length + ws.length < N)
    (hws : ∀ i (hi : i < ws.length), mem ((pos + s.length + i) % N) = ws[i]) :
    Holds N mem pos (s ++ ws) := by
  refine ⟨by rwa [List.length_append], fun j hj => ?_⟩
  rw [List.length_append] at hj
  by_cases hjs : j < s.length
  · rw [h.cell j hjs, List.getElem_append_left hjs]
  · have hi : j - s.length < ws.length := by omega
    have := hws (j - s.length) hi
    rw [List.getElem_append_right (Nat.le_of_not_lt hjs), ← this]
    congr 2
    omega

/-- Consume a prefix. -/
theorem Holds.drop {mem : ℕ → α} {s t : List α} (h : Holds N mem pos (s ++ t)) :
    Holds N mem (pos + s.length) t := by
  have hlt := h.lt
  rw [List.length_append] at hlt
  refine ⟨by omega, fun j hj => ?_⟩
  have := h.cell (s.length + j) (by rw [List.length_append]; omega)
  rw [List.getElem_append_right (Nat.le_add_right _ _)] at this
  simpa [Nat.add_assoc] using this

/-- Only the cell of the position matters. -/
theorem Holds.mod_iff {mem : ℕ → α} {s : List α} :
    Holds N mem (pos % N) s ↔ Holds N mem pos s := by
  constructor
  · rintro ⟨hlt, hcell⟩
    exact ⟨hlt, fun j hj => by rw [← Nat.mod_add_mod, hcell j hj]⟩
  · rintro ⟨hlt, hcell⟩
    exact ⟨hlt, fun j hj => by rw [Nat.mod_add_mod, hcell j hj]⟩

/-- Put a word behind the stream. -/
theorem Holds.push {mem : ℕ → α} {s : List α} (h : Holds N mem pos s) (hlt : s.length + 1 < N)
    (x : α) : Holds N (Function.update mem ((pos + s.length) % N) x) pos (s ++ [x]) := by
  refine Holds.append (h.write (i := 0) (by omega) x) (by simpa using hlt) ?_
  rintro i hi
  obtain rfl : i = 0 := by simpa using hi
  simp

/-- Put a word back before the stream. -/
theorem Holds.cons {mem : ℕ → α} {s : List α} (h : Holds N mem (pos + 1) s)
    (hlt : s.length + 1 < N) (x : α) :
    Holds N (Function.update mem (pos % N) x) pos (x :: s) := by
  refine ⟨by simpa using hlt, ?_⟩
  rintro (_ | j) hj
  · simp
  · rw [List.length_cons] at hj
    rw [Function.update_of_ne (mod_ne_mod (by omega) (by omega)).symm]
    have := h.cell j (by omega)
    rw [show pos + (j + 1) = pos + 1 + j by omega, this, List.getElem_cons_succ]

/-- Change a word of the stream. -/
theorem Holds.set {mem : ℕ → α} {s : List α} (h : Holds N mem pos s) {j : ℕ} (hj : j < s.length)
    (x : α) : Holds N (Function.update mem ((pos + j) % N) x) pos (s.set j x) := by
  have hlt := h.lt
  refine ⟨by simpa using hlt, fun i hi => ?_⟩
  rw [List.length_set] at hi
  rw [List.getElem_set]
  split
  · next hij => rw [hij, Function.update_self]
  · next hij =>
    rw [Function.update_of_ne, h.cell i hi]
    rcases Nat.lt_or_gt_of_ne hij with hlt' | hgt
    · exact (mod_ne_mod (by omega) (by omega)).symm
    · exact mod_ne_mod (by omega) (by omega)

end Sm8850.Lib.Ring
