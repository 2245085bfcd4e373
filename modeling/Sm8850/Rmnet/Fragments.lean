/-
  What the operations on page fragments read and hold.

  * `fragsBytes` is what a list of fragments holds; `length_fragsBytes`, `fragsBytes_concat`.
  * `rmnetFragHeaderPtr_eq`, `rmnetFragCopyData_eq`: reading across fragments is reading
    the bytes they hold.
  * `rmnetFragPull_eq`, `addFragsFrom_eq`: pulling drops bytes, adding fragments appends them.
-/
import Sm8850.Lib.Bytes
import Sm8850.Rmnet.Descriptor

namespace Sm8850.Rmnet

open Lib.Bytes

variable {mem : Pages} {l rest : List SkbFrag} {frag : SkbFrag} {d dst src : FragDescriptor}
  {off len size : ℕ}

/-! ## Pages -/

theorem length_readPage (mem : Pages) (page off len : ℕ) :
    (readPage mem page off len).length = len := by
  rw [readPage, List.length_map, List.length_range]

theorem drop_readPage (mem : Pages) (page off len k : ℕ) :
    (readPage mem page off len).drop k = readPage mem page (off + k) (len - k) := by
  refine List.ext_getElem ?_ fun i h₁ h₂ => ?_
  · rw [List.length_drop, length_readPage, length_readPage]
  · simp only [readPage, List.getElem_drop, List.getElem_map, List.getElem_range]
    rw [Nat.add_assoc]

theorem take_readPage (mem : Pages) (page off : ℕ) {len k : ℕ} (h : k ≤ len) :
    (readPage mem page off len).take k = readPage mem page off k := by
  refine List.ext_getElem ?_ fun i h₁ h₂ => ?_
  · rw [List.length_take, length_readPage, length_readPage]
    omega
  · simp only [readPage, List.getElem_take, List.getElem_map, List.getElem_range]

theorem SkbFrag.length_bytes (mem : Pages) (f : SkbFrag) : (f.bytes mem).length = f.size :=
  length_readPage _ _ _ _

theorem fragsLen_cons (f : SkbFrag) (l : List SkbFrag) : fragsLen (f :: l) = f.size + fragsLen l :=
  List.sum_cons

theorem fragsBytes_cons (mem : Pages) (f : SkbFrag) (l : List SkbFrag) :
    fragsBytes mem (f :: l) = f.bytes mem ++ fragsBytes mem l := List.flatMap_cons

theorem length_fragsBytes (mem : Pages) (l : List SkbFrag) :
    (fragsBytes mem l).length = fragsLen l := by
  induction l with
  | nil => rfl
  | cons f l ih => rw [fragsBytes_cons, List.length_append, f.length_bytes, ih, fragsLen_cons]

theorem fragsBytes_concat (mem : Pages) (l : List SkbFrag) (f : SkbFrag) :
    fragsBytes mem (l ++ [f]) = fragsBytes mem l ++ f.bytes mem := by
  rw [fragsBytes, List.flatMap_append, List.flatMap_singleton]
  rfl

theorem fragsLen_concat (l : List SkbFrag) (f : SkbFrag) :
    fragsLen (l ++ [f]) = fragsLen l + f.size := by
  rw [fragsLen, List.map_append, List.sum_append]
  rfl

/-! ## Descriptors -/

/-- The length of a descriptor is that of its fragments. -/
def FragDescriptor.Sized (d : FragDescriptor) : Prop := d.len = fragsLen d.frags

theorem FragDescriptor.Sized.length_bytes (h : d.Sized) (mem : Pages) :
    (d.bytes mem).length = d.len :=
  (length_fragsBytes _ _).trans h.symm

/-- A piece of the first fragment. -/
theorem take_drop_fragsBytes (mem : Pages) (rest : List SkbFrag) (hoff : off ≤ frag.size) :
    ((fragsBytes mem (frag :: rest)).drop off).take len =
      readPage mem frag.page (frag.off + off) (min len (frag.size - off)) ++
        (fragsBytes mem rest).take (len - min len (frag.size - off)) := by
  have hlen : ((frag.bytes mem).drop off).length = frag.size - off := by
    rw [List.length_drop, frag.length_bytes]
  rw [fragsBytes_cons, List.drop_append_of_le_length (by rwa [frag.length_bytes]),
    List.take_append, hlen]
  congr 1
  · rw [SkbFrag.bytes, drop_readPage]
    by_cases h : len ≤ frag.size - off
    · rw [take_readPage _ _ _ h, Nat.min_eq_left h]
    · rw [List.take_of_length_le (by rw [length_readPage]; omega), Nat.min_eq_right (by omega)]
  · congr 1
    omega

/-- What is behind the first fragment. -/
theorem drop_fragsBytes (mem : Pages) (rest : List SkbFrag) (hoff : frag.size ≤ off) :
    (fragsBytes mem (frag :: rest)).drop off = (fragsBytes mem rest).drop (off - frag.size) := by
  rw [fragsBytes_cons, List.drop_append, frag.length_bytes,
    List.drop_eq_nil_of_le (by rwa [frag.length_bytes]), List.nil_append]

theorem copyData_eq (mem : Pages) (l : List SkbFrag) (off len : ℕ) :
    copyData mem l off len = ((fragsBytes mem l).drop off).take len := by
  fun_induction copyData mem l off len with
  | case1 => rw [fragsBytes, List.flatMap_nil, List.drop_nil, List.take_nil]
  | case2 => rw [List.take_zero]
  | case3 frag rest off len _ hlt copyLen ih =>
    rw [take_drop_fragsBytes mem rest (Nat.le_of_lt hlt), ih, List.drop_zero]
  | case4 frag rest off len _ hge ih =>
    rw [drop_fragsBytes mem rest (Nat.le_of_not_lt hge), ih]

theorem headerOnFrag_eq {b : List UInt8} (h : headerOnFrag mem l off len = some b) :
    b = ((fragsBytes mem l).drop off).take len := by
  fun_induction headerOnFrag mem l off len with
  | case1 => cases h
  | case2 frag rest off len hlt hle =>
    obtain rfl := Option.some.inj h
    rw [take_drop_fragsBytes mem rest (Nat.le_of_lt hlt), Nat.min_eq_left (by omega), Nat.sub_self,
      List.take_zero, List.append_nil]
  | case3 => cases h
  | case4 frag rest off len hge ih =>
    rw [drop_fragsBytes mem rest (Nat.le_of_not_lt hge)]
    exact ih h

/-- Bytes are copied from wherever they are. -/
theorem rmnetFragCopyData_eq (h : d.Sized) (off len : ℕ) :
    rmnetFragCopyData mem d off len = slice (d.bytes mem) off len := by
  rw [rmnetFragCopyData, slice, h.length_bytes mem, copyData_eq]
  by_cases hle : off + len ≤ d.len
  · rw [if_pos hle, if_neg (by omega)]
    rfl
  · rw [if_neg hle, if_pos (by omega)]

/-- A header is read whether it is on one fragment or not. -/
theorem rmnetFragHeaderPtr_eq (h : d.Sized) (off len : ℕ) :
    rmnetFragHeaderPtr mem d off len = slice (d.bytes mem) off len := by
  rw [rmnetFragHeaderPtr, rmnetFragCopyData_eq h]
  by_cases hle : off + len ≤ d.len
  · rw [if_neg (by omega), slice_eq ((h.length_bytes mem).symm ▸ hle)]
    cases hon : headerOnFrag mem d.frags off len with
    | none => rfl
    | some b => exact congrArg some (headerOnFrag_eq hon)
  · rw [if_pos (by omega), slice, if_neg (by rwa [h.length_bytes mem])]

theorem pullFrags_spec (mem : Pages) (l : List SkbFrag) (size len : ℕ) (hlen : len = fragsLen l) :
    fragsBytes mem (pullFrags l size len).1 = (fragsBytes mem l).drop size ∧
    (pullFrags l size len).2 = fragsLen (pullFrags l size len).1 := by
  fun_induction pullFrags l size len with
  | case1 => exact ⟨by rw [fragsBytes, List.flatMap_nil, List.drop_nil], hlen⟩
  | case2 => exact ⟨by rw [List.drop_zero], hlen⟩
  | case3 frag rest size len _ hle ih =>
    rw [drop_fragsBytes mem rest hle]
    rw [fragsLen_cons] at hlen
    exact ih (by omega)
  | case4 frag rest size len _ hlt =>
    rw [fragsLen_cons] at hlen
    refine ⟨?_, ?_⟩
    · rw [fragsBytes_cons, fragsBytes_cons,
        List.drop_append_of_le_length (by rw [frag.length_bytes]; omega)]
      exact congrArg (· ++ _) (drop_readPage _ _ _ _ _).symm
    · show len - size = fragsLen (⟨frag.page, _, frag.size - size⟩ :: rest)
      rw [fragsLen_cons]
      show len - size = frag.size - size + fragsLen rest
      omega

/-- Pulling takes bytes from the front. -/
theorem rmnetFragPull_eq (mem : Pages) (h : d.Sized) (hlt : size < d.len) :
    ∃ frags, rmnetFragPull d size = some { d with frags := frags, len := d.len - size } ∧
      fragsBytes mem frags = (d.bytes mem).drop size ∧ d.len - size = fragsLen frags := by
  obtain ⟨hbytes, hlen⟩ := pullFrags_spec mem d.frags size d.len h
  have hsum : fragsLen (pullFrags d.frags size d.len).1 = d.len - size := by
    rw [← length_fragsBytes mem, hbytes, List.length_drop]
    exact congrArg (· - size) (h.length_bytes mem)
  refine ⟨(pullFrags d.frags size d.len).1, ?_, hbytes, hsum.symm⟩
  rw [rmnetFragPull, if_neg (Nat.not_le_of_lt hlt), ← hsum, ← hlen]

theorem addFrags_spec (mem : Pages) (dst : FragDescriptor) (l : List SkbFrag) (off len : ℕ) :
    ∃ new, addFrags dst l off len =
        { dst with frags := dst.frags ++ new, len := dst.len + fragsLen new } ∧
      fragsBytes mem new = ((fragsBytes mem l).drop off).take len := by
  fun_induction addFrags dst l off len with
  | case1 dst off len => exact ⟨[], by rw [List.append_nil]; rfl, by simp [fragsBytes]⟩
  | case2 dst frag rest off => exact ⟨[], by rw [List.append_nil]; rfl, by simp [fragsBytes]⟩
  | case3 dst frag rest off len _ hlt copyLen ih =>
    obtain ⟨new, hnew, hbytes⟩ := ih
    refine ⟨⟨frag.page, frag.off + off, copyLen⟩ :: new, ?_, ?_⟩
    · rw [hnew, fragsLen_cons]
      simp only [rmnetFragDescriptorAddFrag, List.append_assoc, List.singleton_append,
        Nat.add_assoc]
    · rw [take_drop_fragsBytes mem rest (Nat.le_of_lt hlt), fragsBytes_cons, hbytes,
        List.drop_zero]
      rfl
  | case4 dst frag rest off len _ hge ih =>
    obtain ⟨new, hnew, hbytes⟩ := ih
    exact ⟨new, hnew, by rw [hbytes, drop_fragsBytes mem rest (Nat.le_of_not_lt hge)]⟩

/-- Fragments of another descriptor are appended. -/
theorem addFragsFrom_eq (mem : Pages) (dst : FragDescriptor) (off len : ℕ) (h : src.Sized)
    (hle : off + len ≤ src.len) :
    ∃ new, rmnetFragDescriptorAddFragsFrom dst src off len =
        some { dst with frags := dst.frags ++ new, len := dst.len + fragsLen new } ∧
      fragsBytes mem new = ((src.bytes mem).drop off).take len ∧ fragsLen new = len := by
  obtain ⟨new, hnew, hbytes⟩ := addFrags_spec mem dst src.frags off len
  refine ⟨new, ?_, hbytes, ?_⟩
  · rw [rmnetFragDescriptorAddFragsFrom, if_neg (by omega), hnew]
  · have hlen := h.length_bytes mem
    rw [← length_fragsBytes mem, hbytes, List.length_take, List.length_drop]
    show min len ((src.bytes mem).length - off) = len
    omega

end Sm8850.Rmnet
