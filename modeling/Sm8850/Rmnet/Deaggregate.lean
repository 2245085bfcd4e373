/-
  Deaggregation does not depend on how the bytes are cut into fragments.

  * `flatFrame` and `flatDeaggregate` say what the frames of a flat byte string are.
  * `fragsBytes_after`: from the fragment that `startFragment` finds on, the fragments
    hold what is left of the bytes.
  * **`deaggregate_flat`**: the descriptors hold the frames of the flat byte string.
-/
import Mathlib.Data.List.Forall2
import Sm8850.Rmnet.Fragments

namespace Sm8850.Rmnet

variable {mem : Pages} {l rest : List SkbFrag} {frag : SkbFrag} {d : FragDescriptor} {skb : Skb}
  {dataFormat : UInt32} {start offset n pktLen : ℕ}

/-! ## The flat byte string -/

/-- The length of the frame the bytes begin with: a MAP header, `pkt_len` bytes, and the
    trailer or the v5 header that the data format asks for.  There is none if it is empty,
    or the bytes end before it does. -/
def flatFrame (dataFormat : UInt32) (bytes : List UInt8) : Option ℕ :=
  if bytes.length < mapHeaderSize then none
  else if mapPktLen bytes = 0 then none
  else
    let hsize := if cksumV4Format dataFormat then some csumTrailerSize
      else if v5Format dataFormat && !cdBit bytes then bytes[mapHeaderSize]?.map v5HeaderSize
      else some 0
    match hsize with
    | none => none
    | some hsize =>
      if mapPktLen bytes + mapHeaderSize + hsize ≤ bytes.length then
        some (mapPktLen bytes + mapHeaderSize + hsize)
      else none

theorem flatFrame_bounds {bytes : List UInt8} (h : flatFrame dataFormat bytes = some n) :
    0 < n ∧ n ≤ bytes.length := by
  unfold flatFrame at h
  split at h
  · cases h
  · split at h
    · cases h
    · simp only at h
      split at h
      · cases h
      · split at h
        · obtain rfl := Option.some.inj h
          exact ⟨by omega, by assumption⟩
        · cases h

/-- The frames of a byte string, up to the first that is empty or truncated. -/
def flatDeaggregate (dataFormat : UInt32) (bytes : List UInt8) : List (List UInt8) :=
  match _h : flatFrame dataFormat bytes with
  | none => []
  | some n => bytes.take n :: flatDeaggregate dataFormat (bytes.drop n)
termination_by bytes.length
decreasing_by
  have := flatFrame_bounds _h
  rw [List.length_drop]
  omega

theorem flatDeaggregate_none {bytes : List UInt8} (h : flatFrame dataFormat bytes = none) :
    flatDeaggregate dataFormat bytes = [] := by
  rw [flatDeaggregate]
  split
  · rfl
  · rename_i heq
    cases h.symm.trans heq

theorem flatDeaggregate_some {bytes : List UInt8} (h : flatFrame dataFormat bytes = some n) :
    flatDeaggregate dataFormat bytes =
      bytes.take n :: flatDeaggregate dataFormat (bytes.drop n) := by
  rw [flatDeaggregate]
  split
  · rename_i heq
    cases heq.symm.trans h
  · rename_i heq
    obtain rfl := Option.some.inj (heq.symm.trans h)
    rfl

/-- The frames are consecutive pieces from the front of the bytes. -/
theorem flatDeaggregate_flatten (dataFormat : UInt32) (bytes : List UInt8) :
    (flatDeaggregate dataFormat bytes).flatten <+: bytes := by
  fun_induction flatDeaggregate dataFormat bytes with
  | case1 => exact List.nil_prefix
  | case2 bytes n _ ih =>
    calc _ <+: bytes.take n ++ bytes.drop n := (List.prefix_append_right_inj _).2 ih
      _ = bytes := List.take_append_drop n bytes

/-! ## Fragments -/

theorem startFragment_cons (start offset : ℕ) (f : SkbFrag) (l : List SkbFrag) :
    startFragment start offset (f :: l) =
      if start < f.size + offset then some (offset, f, l)
      else startFragment start (offset + f.size) l := rfl

/-- There is a fragment with `start` in it unless the bytes end before. -/
theorem startFragment_none (h : startFragment start offset l = none) :
    offset + fragsLen l ≤ start ∨ start < offset := by
  induction l generalizing offset with
  | nil => exact Nat.lt_or_ge start offset |>.symm.imp_left fun h => h
  | cons f l ih =>
    rw [startFragment_cons] at h
    split at h
    · cases h
    · rw [fragsLen_cons]
      rcases ih h with h | h <;> omega

/-- From the fragment with `start` in it on the fragments hold the rest of the bytes. -/
theorem fragsBytes_after (mem : Pages) {o : ℕ} (hle : offset ≤ start)
    (h : startFragment start offset l = some (o, frag, rest)) :
    o ≤ start ∧ start - o < frag.size ∧
    (fragsBytes mem l).drop (start - offset) =
      fragsBytes mem (⟨frag.page, frag.off + (start - o), frag.size - (start - o)⟩ :: rest) := by
  induction l generalizing offset with
  | nil => cases h
  | cons f l ih =>
    rw [startFragment_cons] at h
    split at h
    · rename_i hlt
      obtain ⟨rfl, rfl, rfl⟩ := h
      refine ⟨hle, by omega, ?_⟩
      rw [fragsBytes_cons, fragsBytes_cons, List.drop_append_of_le_length]
      · congr 1
        exact drop_readPage _ _ _ _ _
      · rw [frag.length_bytes]
        omega
    · rename_i hge
      obtain ⟨ho, hlt, heq⟩ := ih (by omega) h
      refine ⟨ho, hlt, ?_⟩
      rw [← heq, fragsBytes_cons, List.drop_append, f.length_bytes,
        List.drop_eq_nil_of_le (by rw [f.length_bytes]; omega), List.nil_append]
      congr 1
      omega

/-- What the loop over the fragments copies. -/
structure Copied (mem : Pages) (l : List SkbFrag) (pktLen : ℕ) (d : FragDescriptor)
    (r : ℕ × FragDescriptor) : Prop where
  missing : r.1 = pktLen - fragsLen l
  bytes : r.2.bytes mem = d.bytes mem ++ (fragsBytes mem l).take pktLen
  len : r.2.len + fragsLen d.frags = d.len + fragsLen r.2.frags
  priority : r.2.priority = d.priority

/-- The packet ends in the fragment. -/
theorem Copied.part (d : FragDescriptor) (rest : List SkbFrag) (hlt : pktLen < frag.size) :
    Copied mem (frag :: rest) pktLen d
      (0, rmnetFragDescriptorAddFrag d frag.page frag.off pktLen) where
  missing := by
    rw [fragsLen_cons]
    show 0 = pktLen - (frag.size + fragsLen rest)
    omega
  bytes := by
    show fragsBytes mem (d.frags ++ [_]) = fragsBytes mem d.frags ++ _
    rw [fragsBytes_concat, fragsBytes_cons, List.take_append_of_le_length]
    · congr 1
      exact (take_readPage _ _ _ (Nat.le_of_lt hlt)).symm
    · rw [SkbFrag.length_bytes]
      exact Nat.le_of_lt hlt
  len := by
    show d.len + pktLen + fragsLen d.frags = d.len + fragsLen (d.frags ++ [⟨_, _, pktLen⟩])
    rw [fragsLen_concat, Nat.add_right_comm, Nat.add_assoc]
  priority := rfl

/-- The packet goes on after the fragment. -/
theorem Copied.whole {r : ℕ × FragDescriptor} (hge : frag.size ≤ pktLen)
    (h : Copied mem rest (pktLen - frag.size)
      (rmnetFragDescriptorAddFrag d frag.page frag.off frag.size) r) :
    Copied mem (frag :: rest) pktLen d r where
  missing := by
    rw [h.missing, fragsLen_cons]
    omega
  bytes := by
    rw [h.bytes, fragsBytes_cons, List.take_append, frag.length_bytes,
      List.take_of_length_le (l := frag.bytes mem), ← List.append_assoc]
    · exact congrArg (· ++ _) (fragsBytes_concat mem d.frags frag)
    · rwa [frag.length_bytes]
  len := by
    have hl : r.2.len + fragsLen (d.frags ++ [frag]) = d.len + frag.size + fragsLen r.2.frags :=
      h.len
    rw [fragsLen_concat] at hl
    omega
  priority := h.priority

theorem copyFragments_spec (mem : Pages) (l : List SkbFrag) (pktLen : ℕ) (d : FragDescriptor) :
    Copied mem l pktLen d (copyFragments l pktLen 0 d) := by
  induction l generalizing pktLen d with
  | nil =>
    rw [copyFragments]
    exact ⟨rfl, by rw [fragsBytes, List.flatMap_nil, List.take_nil, List.append_nil], rfl, rfl⟩
  | cons f l ih =>
    rw [copyFragments]
    split
    · rename_i h0
      subst h0
      exact ⟨(Nat.zero_sub _).symm, by rw [List.take_zero, List.append_nil], rfl, rfl⟩
    · rename_i hpos
      simp only [Nat.zero_add]
      by_cases hlt : pktLen < f.size
      · have hmin : min f.size pktLen = pktLen := Nat.min_eq_right (Nat.le_of_lt hlt)
        rw [hmin, if_neg (by omega), Nat.sub_self, copyFragments, if_pos rfl]
        exact .part d l hlt
      · have hmin : min f.size pktLen = f.size := Nat.min_eq_left (Nat.le_of_not_lt hlt)
        rw [hmin, if_pos (Nat.sub_self _)]
        exact .whole (Nat.le_of_not_lt hlt) (ih _ _)

/-! ## Deaggregation -/

/-- The rest of the bytes is read whichever way. -/
theorem readBits_eq {first : SkbFrag} (k len : ℕ) {bytes : List UInt8}
    (hb : (skb.bytes mem).drop start = bytes) (hlt : start < skb.len)
    (hfrags : bytes = fragsBytes mem (first :: rest)) :
    readBits mem skb first start k len =
      if k + len ≤ bytes.length then some ((bytes.drop k).take len) else none := by
  have hlen : (skb.bytes mem).length = skb.len := length_fragsBytes _ _
  unfold readBits
  split
  · rename_i hfits
    have hle : k + len ≤ bytes.length := by
      rw [hfrags, length_fragsBytes, fragsLen_cons]
      exact Nat.le_trans hfits (Nat.le_add_right _ _)
    rw [if_pos hle, hfrags, fragsBytes_cons, List.drop_append_of_le_length,
      List.take_append_of_le_length, SkbFrag.bytes, drop_readPage, take_readPage _ _ _ (by omega)]
    · rw [List.length_drop, SkbFrag.length_bytes]
      omega
    · rw [SkbFrag.length_bytes]
      omega
  · unfold skbCopyBits
    rw [← hb, List.drop_drop, List.length_drop, hlen]
    exact if_congr (by omega) rfl rfl

theorem getD_take {bytes : List UInt8} {i k : ℕ} (h : i < k) :
    (bytes.take k).getD i 0 = bytes.getD i 0 := by
  rw [List.getD_eq_getElem?_getD, List.getElem?_take_of_lt h, List.getD_eq_getElem?_getD]

theorem mapPktLen_take (bytes : List UInt8) :
    mapPktLen (bytes.take mapHeaderSize) = mapPktLen bytes := by
  rw [mapPktLen, getD_take (by decide), getD_take (by decide)]
  rfl

theorem cdBit_take (bytes : List UInt8) : cdBit (bytes.take mapHeaderSize) = cdBit bytes := by
  rw [cdBit, getD_take (by decide)]
  rfl

/-- What a descriptor of a frame is. -/
structure Holds (mem : Pages) (skb : Skb) (frame : List UInt8) (d : FragDescriptor) : Prop where
  bytes : d.bytes mem = frame
  len : d.len = frame.length
  frags : d.len = fragsLen d.frags
  priority : d.priority = skb.priority

/-- The type byte of a v5 header is there or not. -/
theorem nextHeaderSize_eq (dataFormat : UInt32) {first : SkbFrag} {bytes : List UInt8}
    (hb : (skb.bytes mem).drop start = bytes) (hlt : start < skb.len)
    (hfrags : bytes = fragsBytes mem (first :: rest)) :
    nextHeaderSize mem dataFormat skb first start (bytes.take mapHeaderSize) =
      if cksumV4Format dataFormat then some csumTrailerSize
      else if v5Format dataFormat && !cdBit bytes then bytes[mapHeaderSize]?.map v5HeaderSize
      else some 0 := by
  have hread : (readBits mem skb first start mapHeaderSize 1).map (fun type =>
      v5HeaderSize (type.getD 0 0)) = bytes[mapHeaderSize]?.map v5HeaderSize := by
    rw [readBits_eq _ _ hb hlt hfrags]
    by_cases h : mapHeaderSize + 1 ≤ bytes.length
    · rw [if_pos h, List.getElem?_eq_getElem h, Option.map_some, Option.map_some,
        getD_take (by decide), List.getD_eq_getElem?_getD, List.getElem?_drop, Nat.add_zero,
        List.getElem?_eq_getElem h]
      rfl
    · rw [if_neg h, List.getElem?_eq_none (by omega)]
      rfl
  rw [nextHeaderSize, hread, cdBit_take]

/-- A packet within the bytes is copied to the new descriptor. -/
theorem copyFragments_holds {bytes : List UInt8} (hl : bytes = fragsBytes mem l)
    (hfits : n ≤ bytes.length) :
    (copyFragments l n 0 { priority := skb.priority }).1 = 0 ∧
    Holds mem skb (bytes.take n) (copyFragments l n 0 { priority := skb.priority }).2 := by
  obtain ⟨hmissing, hbytes, hlen, hp⟩ := copyFragments_spec mem l n { priority := skb.priority }
  have hframe : (bytes.take n).length = n := by
    rw [List.length_take]
    exact Nat.min_eq_left hfits
  have hd : (copyFragments l n 0 { priority := skb.priority }).2.bytes mem = bytes.take n := by
    rw [hbytes, hl]
    rfl
  have hfrags := length_fragsBytes mem (copyFragments l n 0 { priority := skb.priority }).2.frags
  have hd' := congrArg List.length hd
  rw [FragDescriptor.bytes, hfrags, hframe] at hd'
  have hlen : (copyFragments l n 0 { priority := skb.priority }).2.len + 0 = 0 + fragsLen _ := hlen
  refine ⟨?_, hd, by omega, by omega, hp⟩
  rw [hmissing, ← length_fragsBytes mem l, ← hl]
  omega

/-- Bytes are missing of a packet that is longer. -/
theorem copyFragments_short {bytes : List UInt8} (hl : bytes = fragsBytes mem l)
    (hlong : bytes.length < n) : (copyFragments l n 0 { priority := skb.priority }).1 ≠ 0 := by
  rw [(copyFragments_spec mem l n { priority := skb.priority }).missing, ← length_fragsBytes mem l,
    ← hl]
  omega

/-- **One frame**: the descriptor holds what the bytes begin with. -/
theorem deaggregateOne_flat (mem : Pages) (dataFormat : UInt32) (hlt : start < skb.len) :
    match flatFrame dataFormat ((skb.bytes mem).drop start) with
    | none => rmnetFragDeaggregateOne mem dataFormat skb start = none
    | some n => ∃ d, rmnetFragDeaggregateOne mem dataFormat skb start = some d ∧
        Holds mem skb (((skb.bytes mem).drop start).take n) d := by
  generalize hb : (skb.bytes mem).drop start = bytes
  cases hs : startFragment start 0 skb.frags with
  | none =>
    have hle : 0 + fragsLen skb.frags ≤ start :=
      (startFragment_none hs).resolve_right (Nat.not_lt_zero _)
    rw [Nat.zero_add] at hle
    exact absurd hlt (Nat.not_lt_of_le hle)
  | some x =>
    obtain ⟨o, frag, rest⟩ := x
    obtain ⟨-, -, hfrags⟩ := fragsBytes_after mem (Nat.zero_le _) hs
    replace hfrags := hb.symm.trans hfrags
    have hmaph := readBits_eq 0 mapHeaderSize hb hlt hfrags
    have hnext := nextHeaderSize_eq dataFormat hb hlt hfrags
    rw [Nat.zero_add, List.drop_zero] at hmaph
    simp only [rmnetFragDeaggregateOne, hs, Option.bind_eq_bind, Option.bind_some, hmaph]
    unfold flatFrame
    by_cases hshort : bytes.length < mapHeaderSize
    · rw [if_pos hshort, if_neg (Nat.not_le_of_lt hshort)]
      rfl
    rw [if_neg hshort, if_pos (Nat.le_of_not_lt hshort), Option.bind_some, mapPktLen_take, hnext]
    by_cases hempty : mapPktLen bytes = 0
    · rw [if_pos hempty, if_pos hempty]
    rw [if_neg hempty, if_neg hempty]
    generalize (if cksumV4Format dataFormat then some csumTrailerSize
      else if v5Format dataFormat && !cdBit bytes then bytes[mapHeaderSize]?.map v5HeaderSize
      else some 0) = hsize
    cases hsize with
    | none => rfl
    | some hsize =>
      rw [Option.bind_some]
      by_cases hfits : mapPktLen bytes + mapHeaderSize + hsize ≤ bytes.length
      · obtain ⟨hnone, hholds⟩ := copyFragments_holds hfrags hfits
        simp only [if_pos hfits]
        exact ⟨_, if_pos hnone, hholds⟩
      · simp only [if_neg hfits]
        exact if_neg (copyFragments_short hfrags (Nat.lt_of_not_le hfits))

theorem rmnetFragDeaggregateOne_len (hlt : start < skb.len)
    (h : rmnetFragDeaggregateOne mem dataFormat skb start = some d) : 0 < d.len := by
  have hone := deaggregateOne_flat mem dataFormat hlt
  split at hone
  · cases h.symm.trans hone
  · rename_i n hn
    obtain ⟨d', hd', hholds⟩ := hone
    obtain rfl := Option.some.inj (h.symm.trans hd')
    obtain ⟨hpos, hle⟩ := flatFrame_bounds hn
    rw [hholds.len, List.length_take]
    omega

/-- The loop of `rmnet_frag_deaggregate`. -/
def deaggregateFrom (mem : Pages) (dataFormat : UInt32) (skb : Skb) (start : ℕ) :
    List FragDescriptor :=
  if _hlt : start < skb.len then
    match _h : rmnetFragDeaggregateOne mem dataFormat skb start with
    | none => []
    | some d => d :: deaggregateFrom mem dataFormat skb (start + d.len)
  else []
termination_by skb.len - start
decreasing_by
  have := rmnetFragDeaggregateOne_len _hlt _h
  omega

/-- `rmnet_frag_deaggregate`: the descriptors it adds to the list. -/
def rmnetFragDeaggregate (mem : Pages) (dataFormat : UInt32) (skb : Skb) : List FragDescriptor :=
  deaggregateFrom mem dataFormat skb 0

/-- From an offset on the descriptors hold the frames of the rest of the bytes. -/
theorem deaggregateFrom_flat (mem : Pages) (dataFormat : UInt32) (skb : Skb) (start : ℕ) :
    List.Forall₂ (Holds mem skb) (flatDeaggregate dataFormat ((skb.bytes mem).drop start))
      (deaggregateFrom mem dataFormat skb start) := by
  have hlen : (skb.bytes mem).length = skb.len := length_fragsBytes _ _
  fun_induction deaggregateFrom mem dataFormat skb start with
  | case1 start hlt h =>
    have hone := deaggregateOne_flat mem dataFormat hlt
    split at hone
    · rename_i hn
      rw [flatDeaggregate_none hn]
      exact .nil
    · obtain ⟨d, hd, -⟩ := hone
      cases h.symm.trans hd
  | case2 start hlt d h ih =>
    have hone := deaggregateOne_flat mem dataFormat hlt
    split at hone
    · cases h.symm.trans hone
    · rename_i n hn
      obtain ⟨d', hd', hholds⟩ := hone
      obtain rfl := Option.some.inj (h.symm.trans hd')
      have hd : d.len = n := by
        rw [hholds.len, List.length_take]
        exact Nat.min_eq_left (flatFrame_bounds hn).2
      rw [flatDeaggregate_some hn, List.drop_drop, ← hd]
      exact .cons (hd ▸ hholds) ih
  | case3 start hge =>
    have hnil : (skb.bytes mem).drop start = [] :=
      List.drop_eq_nil_of_le (hlen.symm ▸ Nat.le_of_not_lt hge)
    rw [hnil, flatDeaggregate_none rfl]
    exact .nil

/-- **Deaggregation does not depend on the fragments**: whatever the bytes, the data format
    and the fragments they are cut into, there is one descriptor for each frame of the flat
    byte string, in order, and it holds the bytes of the frame; its `len` is the length
    of the frame and the sum of the sizes of its fragments.  The frames are consecutive
    pieces from the front of the bytes. -/
theorem deaggregate_flat (mem : Pages) (dataFormat : UInt32) (skb : Skb) :
    List.Forall₂ (fun frame d => d.bytes mem = frame ∧ d.len = frame.length ∧
      d.len = fragsLen d.frags ∧ d.priority = skb.priority)
      (flatDeaggregate dataFormat (skb.bytes mem)) (rmnetFragDeaggregate mem dataFormat skb) ∧
    (flatDeaggregate dataFormat (skb.bytes mem)).flatten <+: skb.bytes mem := by
  refine ⟨?_, flatDeaggregate_flatten _ _⟩
  have h := deaggregateFrom_flat mem dataFormat skb 0
  rw [List.drop_zero] at h
  exact h.imp fun _ _ hd => ⟨hd.bytes, hd.len, hd.frags, hd.priority⟩

end Sm8850.Rmnet
