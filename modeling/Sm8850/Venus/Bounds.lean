/-
  The words of a ring that `__write_queue` and `__read_queue` touch, whatever the indices are.

  * `Memcpy`, `memcpys`: the `memcpy` calls with the octets that the code computes for them, in
    `u32`; `writeCopies` and `readCopies` are those of one call of the two functions.
  * `Inside`: all words of a `memcpy` are in the ring and in the packet.
  * `Overshoots`: a write index from 2^30 on that the shifted pointer hides.
  * **`copies_inside_iff`**: the words are inside unless the write index overshoots.
-/
import Sm8850.Venus.Queue
import Mathlib.Algebra.GroupWithZero.Nat
import Mathlib.Order.Lattice
import Mathlib.Tactic.Common

namespace Sm8850.Venus

/-! ## The copies -/

/-- A `memcpy` of `len` octets between octet `ring` of the ring and octet `packet` of the
    packet. -/
structure Memcpy where
  ring : ℕ
  packet : ℕ
  len : ℕ
  deriving DecidableEq

/-- The calls for `size` words at index `idx` of a ring of `n` words. -/
def memcpys (n idx size : ℕ) : List Memcpy :=
  let newIdx := add32 idx size
  if newIdx < n then [⟨shl2 idx, 0, shl2 size⟩]
  else
    let newIdx := sub32 newIdx n
    [⟨shl2 idx, 0, shl2 (sub32 size newIdx)⟩, ⟨0, shl2 (sub32 size newIdx), shl2 newIdx⟩]

/-- The calls of `__write_queue` for a packet with the given size word. -/
def writeCopies (memSize : ℕ) (queue : HfiQueueHeader) (sizeWord : ℕ) : List Memcpy :=
  match (writeLook memSize queue sizeWord).2 with
  | .error _ => []
  | .ok _ => memcpys (shr2 memSize) queue.qhdrWriteIdx (shr2 sizeWord)

/-- The calls of `__read_queue` when it reads the given size word. -/
def readCopies (memSize : ℕ) (queue : HfiQueueHeader) (sizeWord : ℕ) : List Memcpy :=
  match (readLook memSize queue).2 with
  | .error _ => []
  | .ok _ =>
    match readPlan memSize queue.qhdrReadIdx queue.qhdrWriteIdx sizeWord with
    | .copy _ => memcpys (shr2 memSize) queue.qhdrReadIdx (shr2 sizeWord)
    | .zeroSize | .drop _ => []

/-- The words of a call are in a ring of `n` words and in a packet of `size` words. -/
def Memcpy.Inside (n size : ℕ) (m : Memcpy) : Prop :=
  ∀ k, k * 4 < m.len → shr2 m.ring + k < n ∧ shr2 m.packet + k < size

/-- The room that `__write_queue` computes. -/
def emptySpace (memSize : ℕ) (queue : HfiQueueHeader) : ℕ :=
  if queue.qhdrReadIdx ≤ queue.qhdrWriteIdx then
    sub32 (shr2 memSize) (sub32 queue.qhdrWriteIdx queue.qhdrReadIdx)
  else sub32 queue.qhdrReadIdx queue.qhdrWriteIdx

/-- The write index is 2^30 or more, its shifted value is in front of the end of the ring by more
    than the packet, and the room seems to suffice. -/
def Overshoots (memSize : ℕ) (queue : HfiQueueHeader) (sizeWord : ℕ) : Prop :=
  2 ^ 30 ≤ queue.qhdrWriteIdx ∧
    queue.qhdrWriteIdx % 2 ^ 30 + shr2 sizeWord < shr2 memSize ∧
    shr2 sizeWord < emptySpace memSize queue

/-! ## Where they are -/

theorem shr2_mul (a : ℕ) : shr2 (a * 4) = a := Nat.mul_div_cancel _ (by decide)

theorem shr2_zero : shr2 0 = 0 := rfl

section
variable {memSize n idx size sizeWord : ℕ} {queue : HfiQueueHeader}

/-- A packet in one piece. -/
theorem piece_inside (h : idx + size < n) : (Memcpy.mk (idx * 4) 0 (size * 4)).Inside n size := by
  intro k hk
  dsimp only at hk ⊢
  rw [shr2_mul, shr2_zero]
  omega

/-- A packet that reaches the end of the ring, in its two pieces. -/
theorem pieces_inside (hidx : idx ≤ n) (hsize : size ≤ n) (hend : n ≤ idx + size) :
    ∀ m ∈ [Memcpy.mk (idx * 4) 0 ((n - idx) * 4),
      Memcpy.mk 0 ((n - idx) * 4) ((idx + size - n) * 4)], m.Inside n size := by
  intro m hmem k hk
  rcases List.mem_cons.1 hmem with rfl | hmem
  · dsimp only at hk ⊢
    rw [shr2_mul, shr2_zero]
    omega
  · obtain rfl := List.mem_singleton.1 hmem
    dsimp only at hk ⊢
    rw [shr2_mul, shr2_zero]
    omega

/-- The copies of an index that is at most the end of the ring. -/
theorem memcpys_inside (hn : n < 2 ^ 29) (hidx : idx ≤ n) (hsize : size ≤ n) :
    ∀ m ∈ memcpys n idx size, m.Inside n size := by
  have hadd : add32 idx size = idx + size := add32_of_lt (by simp only [u32Size]; omega)
  have hshift : shl2 idx = idx * 4 := shl2_of_lt (by simp only [u32Size]; omega)
  rw [memcpys, hadd, hshift]
  dsimp only
  by_cases hlt : idx + size < n
  · rw [if_pos hlt, shl2_of_lt (by simp only [u32Size]; omega)]
    intro m hmem
    obtain rfl := List.mem_singleton.1 hmem
    exact piece_inside hlt
  · have hnew : sub32 (idx + size) n = idx + size - n :=
      sub32_of_le (Nat.le_of_not_lt hlt) (by simp only [u32Size]; omega)
    have hfirst : sub32 size (idx + size - n) = n - idx := by
      rw [sub32_of_le (by omega) (by simp only [u32Size]; omega)]
      omega
    rw [if_neg hlt, hnew, hfirst, shl2_of_lt (by simp only [u32Size]; omega),
      shl2_of_lt (by simp only [u32Size]; omega)]
    exact pieces_inside hidx hsize (Nat.le_of_not_lt hlt)

/-- For an index in the ring, the calls copy word by word what `splitCopy` says. -/
theorem memcpys_cell (hn : n < 2 ^ 29) (hidx : idx < n) (hsize : size ≤ n) {i : ℕ}
    (hi : i < size) :
    ∃ m ∈ memcpys n idx size, ∃ k, k * 4 < m.len ∧ shr2 m.packet + k = i ∧
      shr2 m.ring + k = (splitCopy n idx size).cell i := by
  have hadd : add32 idx size = idx + size := add32_of_lt (by simp only [u32Size]; omega)
  have hshift : shl2 idx = idx * 4 := shl2_of_lt (by simp only [u32Size]; omega)
  rw [memcpys, splitCopy, hadd, hshift, shr2_mul]
  dsimp only
  by_cases hlt : idx + size < n
  · rw [if_pos hlt, if_pos hlt, shl2_of_lt (by simp only [u32Size]; omega)]
    refine ⟨_, List.mem_singleton_self _, i, by dsimp only; omega, ?_, ?_⟩
    · rw [shr2_zero, Nat.zero_add]
    · rw [Copy.cell, if_pos hi, shr2_mul]
  · have hnew : sub32 (idx + size) n = idx + size - n :=
      sub32_of_le (Nat.le_of_not_lt hlt) (by simp only [u32Size]; omega)
    have hfirst : sub32 size (idx + size - n) = n - idx := by
      rw [sub32_of_le (by omega) (by simp only [u32Size]; omega)]
      omega
    rw [if_neg hlt, if_neg hlt, hnew, hfirst, shl2_of_lt (by simp only [u32Size]; omega),
      shl2_of_lt (by simp only [u32Size]; omega), Copy.cell]
    by_cases hpiece : i < n - idx
    · refine ⟨_, List.mem_cons_self .., i, by dsimp only; omega, ?_, ?_⟩
      · rw [shr2_zero, Nat.zero_add]
      · rw [if_pos hpiece, shr2_mul]
    · refine ⟨_, List.mem_cons_of_mem _ (List.mem_singleton_self _), i - (n - idx),
        by dsimp only; omega, ?_, ?_⟩
      · rw [shr2_mul]
        omega
      · rw [if_neg hpiece, shr2_zero, Nat.zero_add]

/-- An index from 2^30 on: the pointer and the lengths lose its highest bits. -/
theorem memcpys_wide (hn : n < 2 ^ 29) (h32 : idx < u32Size) (hwide : 2 ^ 30 ≤ idx)
    (hidx : idx % 2 ^ 30 ≤ n) (hsize : size ≤ n) :
    memcpys n idx size = [⟨idx % 2 ^ 30 * 4, 0, (n - idx % 2 ^ 30) * 4⟩,
      ⟨0, (n - idx % 2 ^ 30) * 4, shl2 (idx % 2 ^ 30 + 2 ^ 30 + size - n)⟩] := by
  simp only [u32Size] at h32
  have hadd : add32 idx size = idx + size := add32_of_lt (by simp only [u32Size]; omega)
  have hshift : shl2 idx = idx % 2 ^ 30 * 4 := by
    rw [shl2, u32Size]
    omega
  have hnew : sub32 (idx + size) n = idx + size - n :=
    sub32_of_le (by omega) (by simp only [u32Size]; omega)
  have hfirst : shl2 (sub32 size (idx + size - n)) = (n - idx % 2 ^ 30) * 4 := by
    rw [shl2, sub32, u32Size]
    omega
  have hsecond : shl2 (idx + size - n) = shl2 (idx % 2 ^ 30 + 2 ^ 30 + size - n) := by
    rw [shl2, shl2, u32Size]
    omega
  rw [memcpys, hadd]
  dsimp only
  rw [if_neg (by omega), hnew, hfirst, hshift, hsecond]

/-- Such an index is harmless if the packet reaches the end of the ring, and else the first call
    reads beyond the packet. -/
theorem memcpys_wide_inside (hn : n < 2 ^ 29) (h32 : idx < u32Size) (hwide : 2 ^ 30 ≤ idx)
    (hidx : idx % 2 ^ 30 ≤ n) (hsize : size ≤ n) :
    (∀ m ∈ memcpys n idx size, m.Inside n size) ↔ n ≤ idx % 2 ^ 30 + size := by
  rw [memcpys_wide hn h32 hwide hidx hsize]
  constructor
  · intro h
    by_contra hlt
    have hfirst := (h _ (List.mem_cons_self ..) size (by dsimp only; omega)).2
    dsimp only at hfirst
    rw [shr2_zero] at hfirst
    omega
  · intro hend
    have hsecond : shl2 (idx % 2 ^ 30 + 2 ^ 30 + size - n) = (idx % 2 ^ 30 + size - n) * 4 := by
      rw [shl2, u32Size]
      omega
    rw [hsecond]
    exact pieces_inside hidx hsize hend

/-! ## The two functions -/

theorem writeCopies_eq (hm : memSize < 2 ^ 31)
    (hword : shr2 sizeWord ≠ 0) (hsize : shr2 sizeWord ≤ shr2 memSize) :
    writeCopies memSize queue sizeWord =
      if queue.qhdrWriteIdx % 2 ^ 30 ≤ shr2 memSize ∧ shr2 sizeWord < emptySpace memSize queue then
        memcpys (shr2 memSize) queue.qhdrWriteIdx (shr2 sizeWord)
      else [] := by
  have hptr : memSize < shl2 queue.qhdrWriteIdx ↔
      ¬ queue.qhdrWriteIdx % 2 ^ 30 ≤ shr2 memSize := by
    rw [shl2, shr2, u32Size]
    omega
  unfold writeCopies writeLook
  rw [if_neg (by omega)]
  dsimp only
  by_cases hroom : shr2 sizeWord < emptySpace memSize queue
  · have hroom' := not_le.2 hroom
    unfold emptySpace at hroom'
    rw [if_neg hroom']
    by_cases hidx : queue.qhdrWriteIdx % 2 ^ 30 ≤ shr2 memSize
    · rw [if_neg (by rw [hptr]; exact not_not.2 hidx), if_pos ⟨hidx, hroom⟩]
    · rw [if_pos (hptr.2 hidx), if_neg fun h => hidx h.1]
  · have hroom' := not_lt.1 hroom
    unfold emptySpace at hroom'
    rw [if_pos hroom', if_neg fun h => hroom h.2]

/-- The words of a write are inside unless the write index overshoots. -/
theorem writeCopies_inside_iff (hm : memSize < 2 ^ 31) (h32 : queue.qhdrWriteIdx < u32Size)
    (hword : shr2 sizeWord ≠ 0) (hsize : shr2 sizeWord ≤ shr2 memSize) :
    (∀ m ∈ writeCopies memSize queue sizeWord, m.Inside (shr2 memSize) (shr2 sizeWord)) ↔
      ¬ Overshoots memSize queue sizeWord := by
  have hn : shr2 memSize < 2 ^ 29 := Nat.div_lt_of_lt_mul hm
  rw [writeCopies_eq hm hword hsize]
  by_cases hgo : queue.qhdrWriteIdx % 2 ^ 30 ≤ shr2 memSize ∧
      shr2 sizeWord < emptySpace memSize queue
  · rw [if_pos hgo]
    by_cases hwide : 2 ^ 30 ≤ queue.qhdrWriteIdx
    · rw [memcpys_wide_inside hn h32 hwide hgo.1 hsize]
      constructor
      · intro hend hover
        exact absurd hover.2.1 (not_lt.2 hend)
      · intro hnot
        by_contra hlt
        exact hnot ⟨hwide, not_le.1 hlt, hgo.2⟩
    · refine iff_of_true (memcpys_inside hn ?_ hsize) fun hover => hwide hover.1
      have hlow := hgo.1
      rwa [Nat.mod_eq_of_lt (not_le.1 hwide)] at hlow
  · rw [if_neg hgo]
    refine iff_of_true nofun fun hover => hgo ⟨?_, hover.2.2⟩
    exact (Nat.le_add_right ..).trans hover.2.1.le

/-- The word that `__read_queue` reads the size from. -/
theorem readLook_inside {cell : ℕ} (hm : memSize < 2 ^ 31) (h4 : 4 ≤ memSize)
    (h : (readLook memSize queue).2 = .ok cell) : cell < shr2 memSize := by
  unfold readLook at h
  split at h
  · cases h
  split at h
  · cases h
  · rename_i hptr
    cases h
    unfold shr2
    omega

/-- The words of a read are inside, whatever the indices are. -/
theorem readCopies_inside (hm : memSize < 2 ^ 31) (hhuge : hugePktSize ≤ memSize)
    (h32 : sizeWord < u32Size) :
    ∀ m ∈ readCopies memSize queue sizeWord,
      m.Inside (shr2 memSize) (shr2 sizeWord) ∧ shr2 sizeWord * 4 ≤ hugePktSize := by
  have hn : shr2 memSize < 2 ^ 29 := Nat.div_lt_of_lt_mul hm
  have hshift : shl2 (shr2 sizeWord) = shr2 sizeWord * 4 :=
    shl2_of_lt (lt_of_le_of_lt (Nat.div_mul_le_self ..) h32)
  unfold readCopies
  split
  · exact nofun
  split
  · rename_i hplan
    unfold readPlan at hplan
    dsimp only at hplan
    split at hplan
    · cases hplan
    split at hplan
    · rename_i hok
      rw [hshift] at hok
      have hsize : shr2 sizeWord ≤ shr2 memSize := by
        have hmono : hugePktSize / 4 ≤ shr2 memSize := Nat.div_le_div_right hhuge
        have hle := hok.1
        simp only [hugePktSize] at hmono hle
        omega
      exact fun m hmem => ⟨memcpys_inside hn hok.2 hsize m hmem, hok.1⟩
    · cases hplan
  · exact nofun
  · exact nofun

/-! ## Main result -/

/-- **All words that are written and read are inside** the ring and the packet, unless the write
    index overshoots. -/
theorem copies_inside_iff (readWord : ℕ) (hm : memSize < 2 ^ 31)
    (hhuge : hugePktSize ≤ memSize) (h32 : queue.qhdrWriteIdx < u32Size)
    (hread : readWord < u32Size) (hword : shr2 sizeWord ≠ 0)
    (hsize : shr2 sizeWord ≤ shr2 memSize) :
    ((∀ m ∈ writeCopies memSize queue sizeWord, m.Inside (shr2 memSize) (shr2 sizeWord)) ∧
      (∀ cell, (readLook memSize queue).2 = .ok cell → cell < shr2 memSize) ∧
      ∀ m ∈ readCopies memSize queue readWord,
        m.Inside (shr2 memSize) (shr2 readWord) ∧ shr2 readWord * 4 ≤ hugePktSize) ↔
      ¬ Overshoots memSize queue sizeWord := by
  have hfour : 4 ≤ memSize := le_trans (by decide) hhuge
  rw [writeCopies_inside_iff hm h32 hword hsize, and_iff_left]
  exact ⟨fun cell => readLook_inside hm hfour, readCopies_inside hm hhuge hread⟩

end

/-- A write across the end of the ring. -/
theorem copies_inside_iff_wrap :
    (∀ m ∈ writeCopies queueSize ⟨1, 1, 0, 7, shr2 queueSize - 1⟩ 8,
      m.Inside (shr2 queueSize) (shr2 8)) ∧
      writeCopies queueSize ⟨1, 1, 0, 7, shr2 queueSize - 1⟩ 8 =
        [⟨queueSize - 4, 0, 4⟩, ⟨0, 4, 4⟩] := by
  have hnot : ¬ Overshoots queueSize ⟨1, 1, 0, 7, shr2 queueSize - 1⟩ 8 :=
    fun h => absurd h.1 (by decide)
  have hinside := (copies_inside_iff 0 (by decide) (by decide) (by decide)
    (by decide) (by decide) (by decide)).2 hnot
  exact ⟨hinside.1, by decide⟩

/-- Both indices are 2^30: the ring seems empty, and the pointer is that of its first word. -/
theorem write_overshoots :
    ¬ ∀ m ∈ writeCopies queueSize ⟨1, 1, 0, 2 ^ 30, 2 ^ 30⟩ 8,
      m.Inside (shr2 queueSize) (shr2 8) := by
  intro h
  have hcopies : writeCopies queueSize ⟨1, 1, 0, 2 ^ 30, 2 ^ 30⟩ 8 =
      [⟨0, 0, queueSize⟩, ⟨0, queueSize, 2 ^ 32 + 8 - queueSize⟩] := by decide
  rw [hcopies] at h
  have hfirst := (h _ (List.mem_cons_self ..) 2 (by decide)).2
  exact absurd hfirst (by decide)

end Sm8850.Venus
