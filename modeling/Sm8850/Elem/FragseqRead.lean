/-
  Reading fragment sequences.

  * `frags`, `fragSequence`: the bytes of a body in fragments of 255 bytes.
  * `Closes`: what may follow a sequence, nothing or a whole unit that is no fragment.
  * `fragseqInfo_fragSequence`, `joinFrags_copy`, `joinFrags_inline`: the lengths and the
    payload of a sequence.
  * `exists_fragSequence`: whatever is taken for a sequence is one.
-/
import Sm8850.Elem.Fragseq

namespace Sm8850.Elem

open Lib.Bytes

/-! ## Sequences -/

/-- The fragments behind the lead one. -/
def frags (f : UInt8) (b : List UInt8) : List UInt8 :=
  if b = [] then []
  else f :: UInt8.ofNat (b.take 255).length :: (b.take 255 ++ frags f (b.drop 255))
termination_by b.length
decreasing_by
  rw [List.length_drop]
  have := List.length_pos_of_ne_nil ‹_›
  omega

/-- A lead unit with a first piece of 255 bytes, and its fragments. -/
def fragSequence (f id : UInt8) (b : List UInt8) : List UInt8 :=
  id :: 255 :: (b.take 255 ++ frags f (b.drop 255))

/-- Nothing, or a whole unit that is no fragment. -/
def Closes (k : ElemUnit) : List UInt8 → Prop
  | [] => True
  | [_] => False
  | id :: len :: rest => len.toNat ≤ rest.length ∧ id ≠ k.fragid

section Sequences

variable {f id : UInt8} {b : List UInt8}

@[simp] theorem frags_nil : frags f [] = [] := by rw [frags, if_pos rfl]

theorem frags_of_ne (h : b ≠ []) :
    frags f b = f :: UInt8.ofNat (b.take 255).length :: (b.take 255 ++ frags f (b.drop 255)) := by
  rw [frags, if_neg h]

theorem toNat_length_take : (UInt8.ofNat (b.take 255).length).toNat = (b.take 255).length := by
  rw [UInt8.toNat_ofNat', List.length_take]
  omega

theorem length_take_of_drop_ne (h : b.drop 255 ≠ []) : (b.take 255).length = 255 := by
  have hlen := List.length_pos_of_ne_nil h
  rw [List.length_drop] at hlen
  rw [List.length_take]
  omega

theorem length_frags : (frags f b).length = b.length + 2 * ((b.length + 254) / 255) := by
  induction b using frags.induct with
  | case1 => simp
  | case2 b hb ih =>
    have hpos := List.length_pos_of_ne_nil hb
    rw [frags_of_ne hb]
    simp only [List.length_cons, List.length_append, List.length_take, List.length_drop] at ih ⊢
    omega

theorem length_fragSequence (f id : UInt8) (h : 255 < b.length) :
    (fragSequence f id b).length = b.length + 2 * ((b.length + 254) / 255) := by
  simp only [fragSequence, List.length_cons, List.length_append, List.length_take, length_frags,
    List.length_drop]
  omega

end Sequences

/-! ## Successors -/

section Successors

variable {k : ElemUnit} {x len : UInt8} {b c l tail : List UInt8}

/-- A unit without a fragment behind it. -/
theorem successorfrag_of_closes (hc : c.length = len.toNat) (htail : Closes k tail) :
    successorfrag k (x :: len :: (c ++ tail)) = .ok none := by
  have hlong : ¬ (x :: len :: (c ++ tail)).length < 2 := by simp
  have hread : read (x :: len :: (c ++ tail)) 1 = .ok len := rfl
  have hwhole : ¬ (x :: len :: (c ++ tail)).length < 2 + len.toNat := by simp; omega
  have hdrop : (x :: len :: (c ++ tail)).drop (2 + len.toNat) = tail := by
    rw [← hc, Nat.add_comm]
    exact List.drop_left
  rw [successorfrag, if_neg hlong, hread]
  simp only [bind, Except.bind]
  rw [if_neg hwhole, hdrop]
  rcases tail with _ | ⟨id, _ | ⟨nextLen, rest⟩⟩
  · simp [hc]; omega
  · exact htail.elim
  · obtain ⟨hrest, hid⟩ := htail
    have hend : ¬ (x :: len :: (c ++ id :: nextLen :: rest)).length = 2 + len.toNat := by
      simp; omega
    have hnext : ¬ (id :: nextLen :: rest).length < 2 + nextLen.toNat := by simp; omega
    rw [if_neg hend, if_neg (by simp)]
    have hread0 : read (id :: nextLen :: rest) 0 = .ok id := rfl
    have hread1 : read (id :: nextLen :: rest) 1 = .ok nextLen := rfl
    simp only [hread0, hread1, if_neg hnext, ne_eq, hid, not_false_eq_true, if_true]

/-- A full unit with a fragment behind it. -/
theorem successorfrag_frags (hc : c.length = 255) (hb : b ≠ []) :
    successorfrag k (x :: 255 :: (c ++ (frags k.fragid b ++ tail))) =
      .ok (some (frags k.fragid b ++ tail)) := by
  rw [frags_of_ne hb]
  set piece := b.take 255
  set rest := piece ++ frags k.fragid (b.drop 255) ++ tail with hrest
  set n := UInt8.ofNat piece.length
  have hn : n.toNat = piece.length := toNat_length_take
  have hpos : 0 < piece.length := by
    rw [List.length_take]
    have := List.length_pos_of_ne_nil hb
    omega
  have hnext : k.fragid :: n :: (piece ++ frags k.fragid (b.drop 255)) ++ tail =
      k.fragid :: n :: rest := rfl
  have hlen : (x :: 255 :: (c ++ k.fragid :: n :: rest)).length = 259 + rest.length := by
    simp [hc]; omega
  have hread : read (x :: 255 :: (c ++ k.fragid :: n :: rest)) 1 = .ok 255 := rfl
  have hdrop : (x :: 255 :: (c ++ k.fragid :: n :: rest)).drop 257 = k.fragid :: n :: rest := by
    simp [hc]
  have hread0 : read (k.fragid :: n :: rest) 0 = .ok k.fragid := rfl
  have hread1 : read (k.fragid :: n :: rest) 1 = .ok n := rfl
  have hwhole : ¬ (k.fragid :: n :: rest).length < 2 + n.toNat := by
    simp [hrest, hn]; omega
  have hn0 : n ≠ 0 := fun h => by
    rw [h] at hn
    simp at hn
    omega
  rw [hnext, successorfrag, if_neg (by omega), hread]
  simp only [bind, Except.bind, UInt8.reduceToNat, Nat.reduceAdd]
  rw [if_neg (by omega), if_neg (by omega), hdrop, if_neg (by simp)]
  simp only [hread0, hread1, if_neg hwhole, ne_eq, not_true_eq_false, if_false, hn0]

end Successors

/-! ## Lengths -/

section Lengths

variable {k : ElemUnit} {id : UInt8} {b tail : List UInt8}

/-- The body's length, without an element ID extension. -/
def ElemUnit.payloadlen (k : ElemUnit) (id : UInt8) (b : List UInt8) : ℕ :=
  if k.hasExt id then b.length - 1 else b.length

theorem sumFrags_frags (hb : b ≠ []) (htail : Closes k tail) (totallen payloadlen : ℕ) :
    sumFrags k (frags k.fragid b ++ tail) totallen payloadlen =
      .ok (totallen + (frags k.fragid b).length, payloadlen + b.length) := by
  induction b using frags.induct generalizing totallen payloadlen with
  | case1 => exact absurd rfl hb
  | case2 b _ ih =>
    have hread : read (frags k.fragid b ++ tail) 1 = .ok (UInt8.ofNat (b.take 255).length) := by
      rw [frags_of_ne hb]
      rfl
    have hlen : (frags k.fragid b).length =
        2 + (b.take 255).length + (frags k.fragid (b.drop 255)).length := by
      rw [frags_of_ne hb]
      simp only [List.length_cons, List.length_append]
      omega
    have hb' : b.length = (b.take 255).length + (b.drop 255).length := by
      rw [← List.length_append, List.take_append_drop]
    rw [sumFrags, hread]
    simp only [toNat_length_take]
    by_cases hrest : b.drop 255 = []
    · have hnone : successorfrag k (frags k.fragid b ++ tail) = .ok none := by
        rw [frags_of_ne hb, hrest, frags_nil, List.append_nil]
        exact successorfrag_of_closes toNat_length_take.symm htail
      rw [hrest, frags_nil] at hlen
      rw [hrest] at hb'
      rw [hnone, hlen, hb']
      rfl
    · have hfull := length_take_of_drop_ne hrest
      have hsome : successorfrag k (frags k.fragid b ++ tail) =
          .ok (some (frags k.fragid (b.drop 255) ++ tail)) := by
        rw [frags_of_ne hb, hfull]
        simp only [List.cons_append, List.append_assoc]
        exact successorfrag_frags hfull hrest
      rw [hsome]
      simp only [ih hrest, Except.ok.injEq, Prod.mk.injEq]
      omega

/-- **The lengths** of a sequence are its own and its payload's. -/
theorem fragseqInfo_fragSequence (id : UInt8) (hb : 255 < b.length) (htail : Closes k tail) :
    fragseqInfo k (fragSequence k.fragid id b ++ tail) =
      .ok (some ((fragSequence k.fragid id b).length, k.payloadlen id b)) := by
  have hrest : b.drop 255 ≠ [] := by
    rw [← List.length_pos_iff, List.length_drop]
    omega
  have hfull := length_take_of_drop_ne hrest
  have heq : fragSequence k.fragid id b ++ tail =
      id :: 255 :: (b.take 255 ++ (frags k.fragid (b.drop 255) ++ tail)) := by
    simp [fragSequence]
  have hread1 : read (id :: 255 :: (b.take 255 ++ (frags k.fragid (b.drop 255) ++ tail))) 1 =
      .ok 255 := rfl
  have hread0 : read (id :: 255 :: (b.take 255 ++ (frags k.fragid (b.drop 255) ++ tail))) 0 =
      .ok id := rfl
  have hlen : (fragSequence k.fragid id b).length =
      257 + (frags k.fragid (b.drop 255)).length := by
    simp only [fragSequence, List.length_cons, List.length_append, hfull]
    omega
  have hwhole : ¬ (id :: 255 :: (b.take 255 ++ (frags k.fragid (b.drop 255) ++ tail))).length <
      2 + 255 := by
    simp [hfull]
  rw [heq, fragseqInfo, if_neg (by simp), if_neg (by simp), hread1]
  simp only [bind, Except.bind, UInt8.reduceToNat]
  rw [if_neg hwhole, successorfrag_frags hfull hrest]
  simp only [hread0, sumFrags_frags hrest htail, hlen, ElemUnit.payloadlen, List.length_drop, pure,
    Except.pure, Except.ok.injEq, Option.some.injEq, Prod.mk.injEq]
  refine ⟨trivial, ?_⟩
  split <;> omega

end Lengths

/-! ## What is taken for a sequence -/

section Taken

variable {k : ElemUnit} {x len : UInt8} {b c l next rest : List UInt8}

theorem read_eq_ok {i : ℕ} {v : UInt8} : read l i = .ok v ↔ l[i]? = some v := by
  unfold read
  split
  · next u hu => rw [hu, Except.ok.injEq, Option.some.injEq]
  · next hnone => rw [hnone]; exact ⟨nofun, nofun⟩

/-- A whole unit at the start of the bytes. -/
theorem exists_unit (hlen : read l 1 = .ok len) (hwhole : 2 + len.toNat ≤ l.length) :
    ∃ x c rest, l = x :: len :: (c ++ rest) ∧ c.length = len.toNat ∧ read l 0 = .ok x := by
  rcases l with _ | ⟨x, _ | ⟨y, m⟩⟩
  · cases hlen
  · cases hlen
  · cases hlen
    simp only [List.length_cons] at hwhole
    refine ⟨x, m.take len.toNat, m.drop len.toNat, by rw [List.take_append_drop], ?_, rfl⟩
    rw [List.length_take]
    omega

/-- What has no fragment behind it is followed by something else. -/
theorem closes_of_successorfrag (hc : c.length = len.toNat)
    (h : successorfrag k (x :: len :: (c ++ rest)) = .ok none) : Closes k rest := by
  have hread : read (x :: len :: (c ++ rest)) 1 = .ok len := rfl
  have hdrop : (x :: len :: (c ++ rest)).drop (2 + len.toNat) = rest := by
    rw [← hc, Nat.add_comm]
    exact List.drop_left
  unfold successorfrag at h
  rw [hread] at h
  simp only [bind, Except.bind, hdrop] at h
  rcases rest with _ | ⟨id, _ | ⟨nextLen, m⟩⟩
  · exact trivial
  · simp [hc] at h
    split_ifs at h
    omega
  · have hread0 : read (id :: nextLen :: m) 0 = .ok id := rfl
    have hread1 : read (id :: nextLen :: m) 1 = .ok nextLen := rfl
    rw [if_neg (by simp), if_neg (by simp; omega), if_neg (by simp; omega),
      if_neg (by simp)] at h
    simp only [hread0, hread1] at h
    split_ifs at h with hwhole hid
    · exact ⟨by simp at hwhole; omega, hid⟩
    · cases h

/-- What has a fragment behind it is a whole unit of the full length. -/
theorem unit_of_successorfrag (hc : c.length = len.toNat)
    (h : successorfrag k (x :: len :: (c ++ rest)) = .ok (some next)) :
    len = 255 ∧ next = rest ∧ ∃ nextLen c' rest', rest = k.fragid :: nextLen :: (c' ++ rest') ∧
      c'.length = nextLen.toNat ∧ nextLen ≠ 0 := by
  obtain ⟨len', nextLen, hlen, rfl, hnext, -, hid, hnextLen, hpos, hwhole⟩ := of_successorfrag h
  cases hlen
  have hrest : next = rest := by
    rw [hnext]
    change ((x :: 255 :: c) ++ rest).drop 257 = rest
    exact List.drop_left' (by simp [hc])
  obtain ⟨y, c', rest', heq, hc', hy⟩ := exists_unit hnextLen hwhole
  rw [hid] at hy
  cases hy
  exact ⟨rfl, hrest, nextLen, c', rest', hrest ▸ heq, hc', hpos⟩

theorem frags_append {f : UInt8} (hc : c.length = 255) :
    frags f (c ++ b) = f :: 255 :: (c ++ frags f b) := by
  have hne : c ++ b ≠ [] := by
    rintro h
    rw [(List.append_eq_nil_iff.1 h).1] at hc
    cases hc
  rw [frags_of_ne hne, List.take_left' hc, List.drop_left' hc, hc]
  rfl

theorem frags_short {f : UInt8} (hpos : len ≠ 0) (hc : c.length = len.toNat) :
    frags f c = f :: len :: c := by
  have hlen := len.toNat_lt
  have hne : c ≠ [] := by
    rintro rfl
    exact hpos (UInt8.toNat_inj.1 hc.symm)
  rw [frags_of_ne hne, List.take_of_length_le (by omega), List.drop_of_length_le (by omega),
    frags_nil, List.append_nil, hc, UInt8.ofNat_toNat]

theorem exists_frags (hpos : len ≠ 0) (hc : c.length = len.toNat) {total payloadlen : ℕ}
    {r : ℕ × ℕ}
    (h : sumFrags k (k.fragid :: len :: (c ++ rest)) total payloadlen = .ok r) :
    ∃ b tail, b ≠ [] ∧ k.fragid :: len :: (c ++ rest) = frags k.fragid b ++ tail ∧
      Closes k tail := by
  generalize hl : k.fragid :: len :: (c ++ rest) = l at h
  induction l, total, payloadlen using sumFrags.induct (k := k) generalizing len c rest with
  | case1 l total payloadlen e he =>
    subst hl
    cases he
  | case2 l total payloadlen len' hlen' e he =>
    subst hl
    rw [sumFrags, hlen'] at h
    dsimp only at h
    rw [he] at h
    cases h
  | case3 l total payloadlen len' hlen' hnone =>
    subst hl
    have hne : c ≠ [] := by
      rintro rfl
      exact hpos (UInt8.toNat_inj.1 hc.symm)
    refine ⟨c, rest, hne, ?_, closes_of_successorfrag hc hnone⟩
    rw [frags_short hpos hc]
    rfl
  | case4 l total payloadlen len' hlen' next hnext ih =>
    subst hl
    obtain ⟨rfl, rfl, nextLen, c', rest', hrest, hc', hpos'⟩ := unit_of_successorfrag hc hnext
    rw [sumFrags, hlen'] at h
    dsimp only at h
    rw [hnext] at h
    obtain ⟨b, tail, hb, heq, htail⟩ := ih hpos' hc' hrest.symm h
    refine ⟨c ++ b, tail, fun hnil => hb (List.append_eq_nil_iff.1 hnil).2, ?_, htail⟩
    rw [heq, frags_append hc]
    simp only [List.cons_append, List.append_assoc]

/-- **What is taken for a sequence** is one, and something else follows it. -/
theorem exists_fragSequence {r : ℕ × ℕ} (h : fragseqInfo k l = .ok (some r)) :
    ∃ id b tail, l = fragSequence k.fragid id b ++ tail ∧ 255 < b.length ∧ Closes k tail := by
  unfold fragseqInfo at h
  split_ifs at h
  obtain ⟨len, hlen, h⟩ := bind_eq_ok.1 h
  split_ifs at h
  obtain ⟨x, c, rest, rfl, hc, -⟩ := exists_unit hlen (by omega)
  split at h
  · cases h
  · cases h
  · next next hnext =>
    obtain ⟨rfl, rfl, nextLen, c', rest', hrest, hc', hpos⟩ := unit_of_successorfrag hc hnext
    obtain ⟨id, -, h⟩ := bind_eq_ok.1 h
    obtain ⟨r', hsum, -⟩ := bind_eq_ok.1 h
    rw [hrest] at hsum
    obtain ⟨b, tail, hb, heq, htail⟩ := exists_frags hpos hc' hsum
    have hbpos := List.length_pos_of_ne_nil hb
    refine ⟨x, c ++ b, tail, ?_, ?_, htail⟩
    · have hfull : c.length = 255 := hc
      rw [hrest, heq, fragSequence, List.take_left' hfull, List.drop_left' hfull]
      simp only [List.cons_append, List.append_assoc]
    · rw [List.length_append, hc]
      exact Nat.lt_add_of_pos_right hbpos

end Taken

/-! ## No access outside of the buffer -/

section Faults

variable {k : ElemUnit} {l : List UInt8}

theorem exists_read {i : ℕ} (h : i < l.length) : ∃ v, read l i = .ok v :=
  ⟨l[i], read_eq_ok.2 (List.getElem?_eq_getElem h)⟩

theorem successorfrag_ne_fault : successorfrag k l ≠ .error .outOfBounds := by
  unfold successorfrag
  by_cases hshort : l.length < 2
  · rw [if_pos hshort]
    exact nofun
  obtain ⟨len, hlen⟩ := exists_read (l := l) (i := 1) (by omega)
  rw [if_neg hshort, hlen]
  simp only [bind, Except.bind]
  by_cases hnext : (l.drop (2 + len.toNat)).length < 2
  · rw [if_pos hnext]
    split_ifs <;> exact nofun
  obtain ⟨nextLen, hnextLen⟩ := exists_read (l := l.drop (2 + len.toNat)) (i := 1) (by omega)
  obtain ⟨nextId, hnextId⟩ := exists_read (l := l.drop (2 + len.toNat)) (i := 0) (by omega)
  simp only [hnextLen, hnextId]
  split_ifs <;> exact nofun

theorem sumFrags_ne_fault {total payloadlen : ℕ} (h : 2 ≤ l.length) :
    sumFrags k l total payloadlen ≠ .error .outOfBounds := by
  induction l, total, payloadlen using sumFrags.induct (k := k) with
  | case1 l total payloadlen e he =>
    obtain ⟨v, hv⟩ := exists_read (l := l) (i := 1) h
    rw [hv] at he
    cases he
  | case2 l total payloadlen len hlen e he =>
    rw [sumFrags, hlen]
    dsimp only
    rw [he]
    rintro hfault
    cases hfault
    exact successorfrag_ne_fault he
  | case3 l total payloadlen len hlen hnone =>
    rw [sumFrags, hlen]
    dsimp only
    rw [hnone]
    exact nofun
  | case4 l total payloadlen len hlen next hnext ih =>
    obtain ⟨-, -, -, -, -, hlong, -⟩ := of_successorfrag hnext
    rw [sumFrags, hlen]
    dsimp only
    rw [hnext]
    exact ih hlong

/-- The lengths are read within the buffer, whatever it holds. -/
theorem fragseqInfo_ne_fault : fragseqInfo k l ≠ .error .outOfBounds := by
  unfold fragseqInfo
  by_cases hempty : l.length = 0
  · rw [if_pos hempty]
    exact nofun
  by_cases hshort : l.length < 2
  · rw [if_neg hempty, if_pos hshort]
    exact nofun
  obtain ⟨len, hlen⟩ := exists_read (l := l) (i := 1) (by omega)
  obtain ⟨id, hid⟩ := exists_read (l := l) (i := 0) (by omega)
  rw [if_neg hempty, if_neg hshort]
  simp only [hlen, hid, bind, Except.bind]
  split
  · exact nofun
  split
  · next e he =>
    rintro hfault
    cases hfault
    exact successorfrag_ne_fault he
  · exact nofun
  · next next hnext =>
    obtain ⟨-, -, -, -, -, hlong, -⟩ := of_successorfrag hnext
    intro hfault
    split at hfault
    · next e he =>
      cases hfault
      exact sumFrags_ne_fault hlong he
    · cases hfault

end Faults

/-! ## Defragmentation -/

section Drop

variable {l l' a x y : List UInt8} {u : UInt8} {i n : ℕ}

theorem read_of_drop (h : l.drop i = u :: y) : read l i = .ok u := by
  have hget : l[i]? = some u := by
    rw [← Nat.add_zero i, ← List.getElem?_drop, h]
    rfl
  rw [read, hget]

theorem read_succ_of_drop {v : UInt8} (h : l.drop i = u :: v :: y) : read l (i + 1) = .ok v := by
  refine read_of_drop (y := y) ?_
  rw [← List.drop_drop, h]
  rfl

theorem slice_of_drop (h : l.drop i = x ++ y) (hi : i ≤ l.length) :
    slice l i x.length = some x := by
  have hlen := congrArg List.length h
  rw [List.length_drop, List.length_append] at hlen
  rw [slice_eq (by omega), h, List.take_left]

/-- A piece in front of an offset is not seen behind it. -/
theorem drop_write (hi : a.length + x.length ≤ i) :
    (a ++ x ++ l.drop x.length).drop i = (a ++ l).drop i := by
  obtain ⟨j, rfl⟩ := Nat.exists_eq_add_of_le hi
  rw [← List.length_append, List.drop_length_add_append, List.drop_drop, List.length_append,
    Nat.add_assoc, List.drop_length_add_append]

end Drop

section Defrag

variable {k : ElemUnit} {id : UInt8} {b tail fragbuff out : List UInt8} {inlineDefrag : Bool}

theorem memMove_of_transfer {src dst out : List UInt8} {s d n : ℕ}
    (h : transfer src dst s d n = some out) : memMove src dst s d n = .ok out := by
  rw [memMove, h]

/-- The loop takes a fragment. -/
theorem defragLoop_step {o₁ o₂ piece l : List UInt8} {n : UInt8} {curr : ℕ}
    (hsrc : (source inlineDefrag fragbuff (o₁ ++ o₂)).drop curr = k.fragid :: n :: (piece ++ l))
    (hn : n.toNat = piece.length) (ho : piece.length ≤ o₂.length) (currlen : ℕ) :
    defragLoop inlineDefrag k fragbuff (o₁ ++ o₂) o₁.length curr (2 + piece.length + l.length)
        currlen =
      if l = [] then
        .ok (o₁ ++ piece ++ o₂.drop piece.length, o₁.length, curr, 0, currlen + piece.length)
      else
        defragLoop inlineDefrag k fragbuff (o₁ ++ piece ++ o₂.drop piece.length)
          (o₁ ++ piece).length (curr + (2 + piece.length)) l.length (currlen + piece.length) := by
  have hsrc2 : (source inlineDefrag fragbuff (o₁ ++ o₂)).drop (curr + 2) = piece ++ l := by
    rw [← List.drop_drop, hsrc]
    rfl
  have hmove : memMove (source inlineDefrag fragbuff (o₁ ++ o₂)) (o₁ ++ o₂) (curr + 2) o₁.length
      piece.length = .ok (o₁ ++ piece ++ o₂.drop piece.length) := by
    have hlong := congrArg List.length hsrc
    simp only [List.length_drop, List.length_cons] at hlong
    have hslice := slice_of_drop hsrc2 (by omega)
    have hparts : o₁ ++ o₂ = o₁ ++ o₂.take piece.length ++ o₂.drop piece.length := by
      rw [List.append_assoc, List.take_append_drop]
    refine memMove_of_transfer (transfer_eq hslice ?_)
    rw [hparts]
    exact put_append rfl (by rw [List.length_take]; omega)
  have hsub : 2 + piece.length + l.length - (2 + piece.length) = l.length := by omega
  rw [defragLoop]
  simp only [read_of_drop hsrc, ne_eq, not_true_eq_false, if_false,
    read_succ_of_drop hsrc, hn, hmove, hsub, List.length_eq_zero_iff, List.length_append]
  rw [if_neg (by omega)]

/-- The loop stops at a unit that is no fragment. -/
theorem defragLoop_stop {dst curr remlen currlen : ℕ}
    (hsrc : (source inlineDefrag fragbuff out).drop curr = tail) (htail : Closes k tail)
    (hne : tail ≠ []) : defragLoop inlineDefrag k fragbuff out dst curr remlen currlen =
      .ok (out, dst, curr, remlen, currlen) := by
  rcases tail with _ | ⟨x, _ | ⟨y, l⟩⟩
  · exact absurd rfl hne
  · exact htail.elim
  · rw [defragLoop]
    simp only [read_of_drop hsrc, ne_eq, htail.2, not_false_eq_true, if_true]

/-- **The loop** over all fragments, in either mode: `o₁` is what is put together already,
    and the fragments are read from behind it on. -/
theorem defragLoop_frags {o₁ o₂ : List UInt8} {curr : ℕ} (hb : b ≠ []) (htail : Closes k tail)
    (hsrc : (source inlineDefrag fragbuff (o₁ ++ o₂)).drop curr = frags k.fragid b ++ tail)
    (hcurr : o₁.length ≤ curr) (ho : b.length ≤ o₂.length) (currlen : ℕ) :
    ∃ dst curr', defragLoop inlineDefrag k fragbuff (o₁ ++ o₂) o₁.length curr
        ((frags k.fragid b).length + tail.length) currlen =
      .ok (o₁ ++ b ++ o₂.drop b.length, dst, curr', tail.length, currlen + b.length) ∧
      (tail ≠ [] → dst = (o₁ ++ b).length ∧ curr' = curr + (frags k.fragid b).length) := by
  induction b using frags.induct generalizing o₁ o₂ curr currlen with
  | case1 => exact absurd rfl hb
  | case2 b _ ih =>
    set piece := b.take 255
    have hparts : b = piece ++ b.drop 255 := (List.take_append_drop 255 b).symm
    have hlen : b.length = piece.length + (b.drop 255).length := by
      rw [← List.length_append, ← hparts]
    have hfrags : frags k.fragid b = k.fragid :: UInt8.ofNat piece.length ::
        (piece ++ frags k.fragid (b.drop 255)) := frags_of_ne hb
    have hlenf : (frags k.fragid b).length =
        2 + piece.length + (frags k.fragid (b.drop 255)).length := by
      rw [hfrags]
      simp only [List.length_cons, List.length_append]
      omega
    have hsrc' : (source inlineDefrag fragbuff (o₁ ++ o₂)).drop curr =
        k.fragid :: UInt8.ofNat piece.length ::
          (piece ++ (frags k.fragid (b.drop 255) ++ tail)) := by
      rw [hsrc, hfrags]
      simp only [List.cons_append, List.append_assoc]
    have hstep := defragLoop_step hsrc' toNat_length_take (by omega) currlen
    have hnext : (source inlineDefrag fragbuff (o₁ ++ piece ++ o₂.drop piece.length)).drop
        (curr + (2 + piece.length)) = frags k.fragid (b.drop 255) ++ tail := by
      have hsame : (source inlineDefrag fragbuff (o₁ ++ piece ++ o₂.drop piece.length)).drop
          (curr + (2 + piece.length)) =
          (source inlineDefrag fragbuff (o₁ ++ o₂)).drop (curr + (2 + piece.length)) := by
        cases inlineDefrag
        · rfl
        · exact drop_write (by omega)
      rw [hsame, ← List.drop_drop, hsrc', ← List.drop_drop]
      exact List.drop_left
    rw [List.length_append] at hstep
    rw [hlenf, Nat.add_assoc, hstep]
    split_ifs with hend
    · obtain ⟨hrest, rfl⟩ := List.append_eq_nil_iff.1 hend
      have hrest0 : b.drop 255 = [] := by
        by_contra hne
        rw [frags_of_ne hne] at hrest
        cases hrest
      rw [hrest0, List.append_nil] at hparts
      rw [← hparts]
      exact ⟨_, _, rfl, fun h => absurd rfl h⟩
    · by_cases hrest0 : b.drop 255 = []
      · rw [hrest0, List.append_nil] at hparts
        rw [hrest0, frags_nil, List.nil_append] at hnext hend
        rw [hrest0, frags_nil] at hlenf ⊢
        rw [List.length_nil, Nat.zero_add, defragLoop_stop hnext htail hend, ← hparts]
        exact ⟨_, _, rfl, fun _ => ⟨rfl, rfl⟩⟩
      · obtain ⟨dst, curr', hloop, hlast⟩ := ih hrest0 hnext
          (by rw [List.length_append]; omega)
          (by simp only [List.length_drop] at hlen ⊢; omega) (currlen + piece.length)
        have hb' : o₁ ++ piece ++ b.drop 255 = o₁ ++ b := by
          rw [List.append_assoc, ← hparts]
        rw [hb', List.drop_drop, ← hlen, Nat.add_assoc, ← hlen] at hloop
        exact ⟨dst, curr', hloop, fun h => ⟨hb' ▸ (hlast h).1, by rw [(hlast h).2]; omega⟩⟩

/-- The body without an element ID extension. -/
def ElemUnit.payload (k : ElemUnit) (id : UInt8) (b : List UInt8) : List UInt8 :=
  if k.hasExt id then b.drop 1 else b

section Lead

variable (hb : 255 < b.length) (htail : Closes k tail)

include hb in
theorem drop_ne_nil : b.drop 255 ≠ [] := by
  rw [← List.length_pos_iff, List.length_drop]
  omega

/-- The length of what is left of the body behind the lead piece, with its headers. -/
theorem length_frags_drop : (frags k.fragid (b.drop 255)).length =
    b.length - 255 + 2 * ((b.length - 1) / 255) := by
  rw [length_frags, List.length_drop]
  omega

/-- The sequence as the loop finds it: a lead unit `o₁`, and the fragments. -/
structure Lead (k : ElemUnit) (id : UInt8) (b tail o₁ o₂ : List UInt8) : Prop where
  eq : fragSequence k.fragid id b ++ tail = o₁ ++ o₂
  lead : o₁ = id :: 255 :: b.take 255
  length : o₁.length = 257
  frags : o₂ = frags k.fragid (b.drop 255) ++ tail
  rest : o₂.length = b.length - 255 + 2 * ((b.length - 1) / 255) + tail.length

include hb in
theorem exists_lead (k : ElemUnit) (id : UInt8) (tail : List UInt8) :
    ∃ o₁ o₂, Lead k id b tail o₁ o₂ :=
  ⟨_, _, by simp only [fragSequence, List.cons_append, List.append_assoc], rfl,
    by simp only [List.length_cons, List.length_take]; omega, rfl,
    by rw [List.length_append, length_frags_drop]⟩

theorem Lead.append_drop {o₁ o₂ : List UInt8} (h : Lead k id b tail o₁ o₂) :
    o₁ ++ b.drop 255 = id :: 255 :: b := by
  rw [h.lead]
  simp only [List.cons_append, List.take_append_drop]

theorem Lead.read_zero {o₁ o₂ : List UInt8} (h : Lead k id b tail o₁ o₂) :
    read (o₁ ++ o₂) 0 = .ok id := by
  rw [h.lead]
  rfl

theorem Lead.read_one {o₁ o₂ : List UInt8} (h : Lead k id b tail o₁ o₂) :
    read (o₁ ++ o₂) 1 = .ok 255 := by
  rw [h.lead]
  rfl

include hb htail

/-- **Inline defragmentation** puts the payload together behind the lead header and moves
    what follows up to it. -/
theorem joinFrags_inline (id : UInt8) (d : List UInt8) :
    ∃ stale, joinFrags true k (fragSequence k.fragid id b ++ tail) d =
        .ok (id :: 255 :: (b ++ tail ++ stale), k.payloadlen id b) ∧
      stale.length = 2 * ((b.length - 1) / 255) := by
  obtain ⟨o₁, o₂, hlead⟩ := exists_lead hb k id tail
  have hlen := hlead.length
  have hrestlen := hlead.rest
  set rest := b.drop 255
  have hrest : rest.length = b.length - 255 := List.length_drop
  have hfrags : (frags k.fragid rest).length = rest.length + 2 * ((b.length - 1) / 255) := by
    rw [hrest]
    exact length_frags_drop
  have hsrc : (source true (o₁ ++ o₂) (o₁ ++ o₂)).drop 257 = frags k.fragid rest ++ tail := by
    rw [← hlen, ← hlead.frags]
    exact List.drop_left
  obtain ⟨dst, curr, hloop, hend⟩ := defragLoop_frags (b := rest) (drop_ne_nil hb) htail hsrc
    (by omega) (by omega) (255 - (if k.hasExt id then 1 else 0))
  have hpay : 255 - (if k.hasExt id then 1 else 0) + rest.length = k.payloadlen id b := by
    unfold ElemUnit.payloadlen
    split <;> omega
  have hdst : 2 + (if k.hasExt id then 1 else 0) + (255 - (if k.hasExt id then 1 else 0)) =
      o₁.length := by
    rw [hlen]
    split <;> rfl
  have hrem : (o₁ ++ o₂).length - (2 + 255) = (frags k.fragid rest).length + tail.length := by
    rw [List.length_append]
    omega
  -- what is behind the sequence moves up to the payload
  have hmove : tail ≠ [] →
      memMove (o₁ ++ rest ++ o₂.drop rest.length) (o₁ ++ rest ++ o₂.drop rest.length) curr dst
        tail.length = .ok (o₁ ++ rest ++ tail ++ (o₂.drop rest.length).drop tail.length) := by
    intro hne
    obtain ⟨rfl, rfl⟩ := hend hne
    have hdrop : (o₁ ++ rest ++ o₂.drop rest.length).drop
        (257 + (frags k.fragid rest).length) = tail ++ [] := by
      rw [drop_write (by omega), ← hlen, List.drop_length_add_append, List.append_nil, hlead.frags]
      exact List.drop_left
    have hslice := slice_of_drop hdrop (by
      simp only [List.length_append, List.length_drop]
      omega)
    refine memMove_of_transfer (transfer_eq hslice ?_)
    have hparts : o₁ ++ rest ++ o₂.drop rest.length = o₁ ++ rest ++
        (o₂.drop rest.length).take tail.length ++ (o₂.drop rest.length).drop tail.length := by
      rw [List.append_assoc (o₁ ++ rest), List.take_append_drop]
    rw [hparts]
    refine put_append rfl ?_
    rw [List.length_take, List.length_drop]
    omega
  have hout : ∀ l, o₁ ++ rest ++ tail ++ l = id :: 255 :: (b ++ tail ++ l) := by
    intro l
    rw [hlead.append_drop]
    rfl
  refine ⟨(o₂.drop rest.length).drop tail.length, ?_, ?_⟩
  · rw [hlead.eq, ← hout, joinFrags]
    simp only [hlead.read_zero, hlead.read_one, bind, Except.bind, UInt8.reduceToNat, if_true,
      hdst, hrem, hloop, hpay, true_and]
    by_cases hne : tail = []
    · subst hne
      simp [pure, Except.pure]
    · simp only [ne_eq, List.length_eq_zero_iff, hne, not_false_eq_true, if_true, hmove hne]
      rfl
  · simp only [List.length_drop]
    omega

/-- **Copying defragmentation** writes the payload to the start of the other buffer. -/
theorem joinFrags_copy {d : List UInt8} (hd : k.payloadlen id b ≤ d.length) :
    joinFrags false k (fragSequence k.fragid id b ++ tail) d =
      .ok (k.payload id b ++ d.drop (k.payloadlen id b), k.payloadlen id b) := by
  obtain ⟨o₁, o₂, hlead⟩ := exists_lead hb k id tail
  have hlen := hlead.length
  have hrestlen := hlead.rest
  have hext : (if k.hasExt id then 1 else 0) ≤ 1 := by split <;> omega
  have hpayload : k.payload id b = b.drop (if k.hasExt id then 1 else 0) := by
    unfold ElemUnit.payload
    split <;> rfl
  have hpaylen : k.payloadlen id b = b.length - (if k.hasExt id then 1 else 0) := by
    unfold ElemUnit.payloadlen
    split <;> rfl
  generalize hx : (if k.hasExt id then 1 else 0) = ext at hext hpayload hpaylen
  set rest := b.drop 255
  set piece := (b.take 255).drop ext
  have hrest : rest.length = b.length - 255 := List.length_drop
  have hpiece : piece.length = 255 - ext := by
    simp only [piece, List.length_drop, List.length_take]
    omega
  have hfrags : (frags k.fragid rest).length = rest.length + 2 * ((b.length - 1) / 255) := by
    rw [hrest]
    exact length_frags_drop
  -- the lead piece, without the extension
  have hmove : memMove (o₁ ++ o₂) d (2 + ext) 0 (255 - ext) =
      .ok (piece ++ d.drop (255 - ext)) := by
    have hdrop : (o₁ ++ o₂).drop (2 + ext) = piece ++ o₂ := by
      rw [hlead.lead, ← List.drop_drop]
      change (b.take 255 ++ o₂).drop ext = _
      rw [List.drop_append_of_le_length (by rw [List.length_take]; omega)]
    have hslice := slice_of_drop hdrop (by rw [List.length_append]; omega)
    rw [hpiece] at hslice
    refine memMove_of_transfer (transfer_eq hslice ?_)
    rw [put_eq (by omega), hpiece]
    simp
  have hsrc : (source false (o₁ ++ o₂) (piece ++ d.drop (255 - ext))).drop 257 =
      frags k.fragid rest ++ tail := by
    rw [← hlen, ← hlead.frags]
    exact List.drop_left
  obtain ⟨dst, curr, hloop, -⟩ := defragLoop_frags (b := rest) (drop_ne_nil hb) htail hsrc
    (by omega) (by rw [hrest, List.length_drop]; omega) (255 - ext)
  have hrem : (o₁ ++ o₂).length - (2 + 255) = (frags k.fragid rest).length + tail.length := by
    rw [List.length_append]
    omega
  have hjoin : piece ++ rest = b.drop ext := by
    have hb' : b.drop ext = (b.take 255 ++ b.drop 255).drop ext := by rw [List.take_append_drop]
    rw [hb', List.drop_append_of_le_length (by rw [List.length_take]; omega)]
  rw [hlead.eq, joinFrags]
  simp only [hlead.read_zero, hlead.read_one, bind, Except.bind, UInt8.reduceToNat,
    Bool.false_eq_true, if_false, hx, hmove, Nat.zero_add, hpiece, hrem] at hloop ⊢
  simp only [hloop, false_and, if_false, pure, Except.pure, hjoin, List.drop_drop, hpayload,
    hpaylen, Except.ok.injEq, Prod.mk.injEq, List.append_cancel_left_eq]
  refine ⟨congrArg (d.drop ·) ?_, ?_⟩ <;> omega

/-- **Defragmentation** of a sequence, in both modes. -/
theorem defragFragseq_fragSequence (d : List UInt8) :
    defragFragseq true k (fragSequence k.fragid id b ++ tail) d =
        joinFrags true k (fragSequence k.fragid id b ++ tail) d ∧
      (k.payloadlen id b ≤ d.length →
        defragFragseq false k (fragSequence k.fragid id b ++ tail) d =
          joinFrags false k (fragSequence k.fragid id b ++ tail) d) := by
  have hne : ¬ (fragSequence k.fragid id b ++ tail).length = 0 := by simp [fragSequence]
  have hpay : 0 < k.payloadlen id b := by
    unfold ElemUnit.payloadlen
    split <;> omega
  have hinfo := fragseqInfo_fragSequence id hb htail
  refine ⟨?_, fun hd => ?_⟩
  · simp only [defragFragseq, if_neg hne, Bool.true_eq_false, false_and, if_false, hinfo]
  · simp only [defragFragseq, if_neg hne, true_and, hinfo]
    rw [if_neg (by omega), if_neg (by omega)]

end Lead

end Defrag

end Sm8850.Elem
