/-
  Defragmentation undoes fragmentation.

  * `RoundTrips`: what creating, measuring and defragmenting a sequence are to do together.
  * **`fragseq_roundTrips_iff`**: with fewer than 2 ^ 16 full fragments they do so in the inline
    mode, and in the copying mode only for a payload buffer that holds the payload where the
    inline mode has it as well, behind the bytes of the header.
  * `not_roundTrips_manyFrags`: from 2 ^ 16 full fragments on the inline mode leaves out some.
-/
import Sm8850.Elem.FragseqWrite

namespace Sm8850.Elem

open Lib.Bytes

variable {inlineFrag : Bool} {k : ElemUnit} {id idext : UInt8}
variable {payloadbuff fragbuff payload seq : List UInt8} {req : ℕ}

/-! ## What is to hold -/

/-- Where the payload stands in its buffer: in the inline mode behind the bytes reserved for
    the element ID, the length and the extension, else at the start. -/
def payloadOffset (inlineFrag : Bool) (k : ElemUnit) (id : UInt8) : ℕ :=
  if inlineFrag then 2 + k.ext id else 0

/-- The bytes behind the sequence: of the inline buffer those behind the payload, but for
    as many at the end as the payload grows by. -/
def behind (inlineFrag : Bool) (k : ElemUnit) (id : UInt8) (payloadbuff fragbuff : List UInt8)
    (payloadlen req : ℕ) : List UInt8 :=
  if inlineFrag then
    (payloadbuff.drop (2 + k.ext id + payloadlen)).take (payloadbuff.length - req)
  else fragbuff.drop req

/-- A sequence is taken for one, and its payload is put together from it in both modes, also in
    front of something else.  The inline mode moves that up. -/
def Restores (k : ElemUnit) (id : UInt8) (payload seq : List UInt8) : Prop :=
  ∀ tail, Closes k tail →
    fragseqInfo k (seq ++ tail) = .ok (some (seq.length, payload.length)) ∧
    (∀ d, payload.length ≤ d.length → defragFragseq false k (seq ++ tail) d =
      .ok (payload ++ d.drop payload.length, payload.length)) ∧
    ∀ d, ∃ lead stale, defragFragseq true k (seq ++ tail) d =
        .ok (lead ++ payload ++ tail ++ stale, payload.length) ∧
      lead.length = 2 + k.ext id

/-- A payload is written as a sequence of just the required size that restores it, and all
    else is kept. -/
def RoundTrips (inlineFrag : Bool) (k : ElemUnit) (id idext : UInt8)
    (payloadbuff fragbuff payload : List UInt8) (req : ℕ) : Prop :=
  ∃ seq, createFragseq inlineFrag k id idext payloadbuff payload.length fragbuff =
      .ok (seq ++ behind inlineFrag k id payloadbuff fragbuff payload.length req, req) ∧
    seq.length = req ∧ Restores k id payload seq

/-! ## Sequences -/

theorem restores_fragSequence (hn : 255 < payload.length + k.ext id) :
    Restores k id payload (fragSequence k.fragid id (k.body id idext payload)) := by
  intro tail htail
  have hbody : 255 < (k.body id idext payload).length := by rwa [ElemUnit.length_body]
  refine ⟨?_, fun d hd => ?_, fun d => ?_⟩
  · rw [fragseqInfo_fragSequence id hbody htail, ElemUnit.payloadlen_body]
  · have hd' : k.payloadlen id (k.body id idext payload) ≤ d.length := by
      rwa [ElemUnit.payloadlen_body]
    rw [(defragFragseq_fragSequence hbody htail d).2 hd', joinFrags_copy hbody htail hd',
      ElemUnit.payload_body, ElemUnit.payloadlen_body]
  · obtain ⟨stale, hjoin, -⟩ := joinFrags_inline hbody htail id d
    obtain ⟨lead, hlead, hlen⟩ : ∃ lead, id :: 255 :: k.body id idext payload = lead ++ payload ∧
        lead.length = 2 + k.ext id := by
      unfold ElemUnit.body
      obtain ⟨hext, he⟩ | ⟨hext, he⟩ := k.ext_eq id
      · exact ⟨[id, 255, idext], by rw [if_pos hext]; rfl, by rw [he]; rfl⟩
      · exact ⟨[id, 255], by rw [hext, if_neg nofun]; rfl, by rw [he]; rfl⟩
    refine ⟨lead, stale, ?_, hlen⟩
    rw [(defragFragseq_fragSequence hbody htail d).1, hjoin, ElemUnit.payloadlen_body, ← hlead]
    simp only [List.cons_append]

/-- A sequence restores one payload at most. -/
theorem Restores.unique {payload' : List UInt8} (h : Restores k id payload seq)
    (h' : Restores k id payload' seq) : payload = payload' := by
  have hlen : payload.length = payload'.length := by
    have hinfo := (h [] trivial).1
    rw [(h' [] trivial).1] at hinfo
    simpa using hinfo.symm
  have hcopy := (h [] trivial).2.1 payload (Nat.le_refl _)
  rw [(h' [] trivial).2.1 payload hlen.ge, hlen] at hcopy
  simp only [Except.ok.injEq, Prod.mk.injEq, and_true] at hcopy
  rw [List.drop_of_length_le hlen.le, List.append_nil, List.append_nil] at hcopy
  exact hcopy.symm

/-! ## Round trips -/

/-- The size that is asked for, in terms of the body. -/
theorem requirements_eq (hreq : requirements k id payload.length = some req)
    (hfrags : (payload.length + k.ext id) / 255 < 2 ^ 16) :
    255 < payload.length + k.ext id ∧
      req = 2 + (payload.length + k.ext id) + 2 * ((payload.length + k.ext id - 1) / 255) := by
  obtain ⟨p, hp, rfl⟩ := Option.map_eq_some_iff.1 hreq
  have hn := lt_of_creationParams hp
  rw [creationParams_eq k id _ hn (by omega)] at hp
  cases hp
  exact ⟨hn, rfl⟩

theorem length_fragSequence_body (hn : 255 < payload.length + k.ext id) :
    (fragSequence k.fragid id (k.body id idext payload)).length =
      2 + (payload.length + k.ext id) + 2 * ((payload.length + k.ext id - 1) / 255) := by
  rw [length_fragSequence _ _ (by rwa [ElemUnit.length_body]), ElemUnit.length_body]
  omega

/-- A buffer around its piece at an offset. -/
theorem exists_parts {l m : List UInt8} {off : ℕ} (h : (l.drop off).take m.length = m)
    (hoff : off ≤ l.length) :
    l = l.take off ++ m ++ l.drop (off + m.length) ∧ (l.take off).length = off := by
  refine ⟨?_, by rw [List.length_take]; omega⟩
  have hrest : l.drop off = m ++ l.drop (off + m.length) := by
    have hsplit := List.take_append_drop m.length (l.drop off)
    rw [h, List.drop_drop] at hsplit
    exact hsplit.symm
  rw [List.append_assoc, ← hrest, List.take_append_drop]

/-- **The inline mode** is right. -/
theorem roundTrips_inline (hreq : requirements k id payload.length = some req)
    (hpayload : (payloadbuff.drop (2 + k.ext id)).take payload.length = payload)
    (hbuff : req ≤ payloadbuff.length)
    (hfrags : (payload.length + k.ext id) / 255 < 2 ^ 16) :
    RoundTrips true k id idext payloadbuff fragbuff payload req := by
  obtain ⟨hn, hreq⟩ := requirements_eq hreq hfrags
  obtain ⟨hparts, hr⟩ := exists_parts hpayload (by omega)
  have hrest : (payloadbuff.drop (2 + k.ext id + payload.length)).length =
      payloadbuff.length - (2 + k.ext id + payload.length) := List.length_drop
  refine ⟨fragSequence k.fragid id (k.body id idext payload), ?_, ?_, restores_fragSequence hn⟩
  · nth_rewrite 1 [hparts]
    have hmore : payloadbuff.length - (2 + k.ext id + payload.length) -
        2 * ((payload.length + k.ext id - 1) / 255) = payloadbuff.length - req := by omega
    rw [createFragseq_inline hn hfrags idext fragbuff hr (by omega), hrest, hmore, ← hreq,
      behind, if_pos rfl]
  · rw [length_fragSequence_body hn, hreq]

/-- **The copying mode** makes a sequence of what stands behind the header bytes. -/
theorem roundTrips_copy_iff (hreq : requirements k id payload.length = some req)
    (hbuff : req ≤ fragbuff.length) (hfrags : (payload.length + k.ext id) / 255 < 2 ^ 16) :
    RoundTrips false k id idext payloadbuff fragbuff payload req ↔
      (payloadbuff.drop (2 + k.ext id)).take payload.length = payload := by
  obtain ⟨hn, hreq⟩ := requirements_eq hreq hfrags
  constructor
  · rintro ⟨seq, hcreate, hlen, hrestores⟩
    have hlong : 2 + (payload.length + k.ext id) ≤ payloadbuff.length := by
      by_contra hshort
      obtain ⟨e, he⟩ := createFragseq_copy_short hn hfrags idext fragbuff
        (Nat.lt_of_not_le hshort)
      rw [he] at hcreate
      cases hcreate
    -- what is copied instead of the payload
    set copied := (payloadbuff.drop (2 + k.ext id)).take payload.length with hcopied
    have hsame : copied.length = payload.length := by
      rw [List.length_take, List.length_drop]
      omega
    obtain ⟨hparts, hr⟩ := exists_parts (m := copied) (by rw [hsame]) (by omega)
    have hn' : 255 < copied.length + k.ext id := by rwa [hsame]
    have hcopy := createFragseq_copy hn' (by rwa [hsame]) idext fragbuff
      (payloadbuff.drop (2 + k.ext id + copied.length)) hr
      (by rw [hsame, ← hreq]; exact hbuff)
    rw [← hparts, hsame, hcreate, ← hreq, behind, if_neg nofun, Except.ok.injEq,
      Prod.mk.injEq] at hcopy
    have hseq : seq = fragSequence k.fragid id (k.body id idext copied) :=
      (List.append_inj hcopy.1 (by rw [hlen, length_fragSequence_body (by rwa [hsame]), hsame,
        hreq])).1
    rw [hseq] at hrestores
    exact (hrestores.unique (restores_fragSequence (by rwa [hsame]))).symm
  · intro hpayload
    have hlong : payload.length ≤ payloadbuff.length - (2 + k.ext id) := by
      have hlen := congrArg List.length hpayload
      rw [List.length_take, List.length_drop] at hlen
      omega
    have hoff : 2 + k.ext id ≤ payloadbuff.length := by
      by_contra hshort
      obtain ⟨-, he⟩ | ⟨-, he⟩ := k.ext_eq id <;> omega
    obtain ⟨hparts, hr⟩ := exists_parts hpayload hoff
    refine ⟨fragSequence k.fragid id (k.body id idext payload), ?_, ?_, restores_fragSequence hn⟩
    · nth_rewrite 1 [hparts]
      rw [createFragseq_copy hn hfrags idext fragbuff _ hr (by omega), ← hreq, behind, if_neg nofun]
    · rw [length_fragSequence_body hn, hreq]

/-- **Defragmentation undoes fragmentation** just in the inline mode and where the payload
    buffer of the copying mode is filled as that of the inline mode is. -/
theorem fragseq_roundTrips_iff (hreq : requirements k id payload.length = some req)
    (hpayload : (payloadbuff.drop (payloadOffset inlineFrag k id)).take payload.length = payload)
    (hbuff : req ≤ (if inlineFrag then payloadbuff else fragbuff).length)
    (hfrags : (payload.length + k.ext id) / 255 < 2 ^ 16) :
    RoundTrips inlineFrag k id idext payloadbuff fragbuff payload req ↔
      inlineFrag = true ∨
        (payloadbuff.drop (2 + k.ext id)).take payload.length = payload := by
  cases inlineFrag
  · simp only [Bool.false_eq_true, false_or]
    exact roundTrips_copy_iff hreq hbuff hfrags
  · simp only [true_or, iff_true]
    exact roundTrips_inline hreq hpayload hbuff hfrags

theorem fragseq_roundTrips_inline_elem :
    RoundTrips true .elem 221 0 (List.replicate 260 7) [] (List.replicate 256 7) 260 :=
  (fragseq_roundTrips_iff (by rw [List.length_replicate]; rfl)
    (by rw [List.length_replicate, List.drop_replicate, List.take_replicate]
        exact congrArg (List.replicate · 7) (by decide))
    (by rw [if_pos rfl, List.length_replicate])
    (by rw [List.length_replicate]; decide)).2 (.inl rfl)

/-- A copy of 256 zeros, with two ones behind them in the payload buffer: the ones are copied
    in place of the last two. -/
theorem not_roundTrips_copy :
    requirements .elem 221 (List.replicate 256 (0 : UInt8)).length = some 260 ∧
      ((List.replicate 256 (0 : UInt8) ++ [1, 1]).drop (payloadOffset false .elem 221)).take
        (List.replicate 256 (0 : UInt8)).length = List.replicate 256 0 ∧
      ¬ RoundTrips false .elem 221 0 (List.replicate 256 0 ++ [1, 1]) (List.replicate 260 0)
        (List.replicate 256 0) 260 := by
  have hreq : requirements .elem 221 (List.replicate 256 (0 : UInt8)).length = some 260 := by
    rw [List.length_replicate]
    rfl
  refine ⟨hreq, List.take_left, fun h => ?_⟩
  have hcopied := (roundTrips_copy_iff hreq (by rw [List.length_replicate])
    (by rw [List.length_replicate]; decide)).1 h
  have hlast := congrArg (·[255]?) hcopied
  rw [List.length_replicate, List.getElem?_take_of_lt (by decide), List.getElem?_drop,
    List.getElem?_append_right (by rw [List.length_replicate]; decide), List.length_replicate,
    List.getElem?_replicate_of_lt (by decide)] at hlast
  exact absurd hlast (by decide)

/-! ## Many fragments -/

section ManyFrags

variable {out out' : List UInt8} {src remaining len more : ℕ}

theorem getElem?_write {l l' : List UInt8} {i j : ℕ} {v : UInt8} (h : write l i v = .ok l')
    (hj : j ≠ i) : l'[j]? = l[j]? := by
  unfold write at h
  split at h
  · cases h
    exact List.getElem?_set_ne hj.symm
  · cases h

/-- A fragment leaves what is in front of its header. -/
theorem getElem?_placeFrag {j : ℕ}
    (h : placeFrag inlineFrag k payloadbuff out src remaining len more = .ok out')
    (hj : j < src + remaining - 2) : out'[j]? = out[j]? := by
  obtain ⟨out₁, hmove, h⟩ := bind_eq_ok.1 h
  obtain ⟨out₂, hid, hlen⟩ := bind_eq_ok.1 h
  rw [getElem?_write hlen (by omega), getElem?_write hid (by omega)]
  unfold memMove at hmove
  split at hmove
  · next moved htransfer =>
    cases hmove
    obtain ⟨piece, -, hput⟩ := Option.bind_eq_some_iff.1 htransfer
    unfold put at hput
    split at hput
    · next hfit =>
      cases hput
      rw [List.append_assoc, List.getElem?_append_left (by rw [List.length_take]; omega),
        List.getElem?_take_of_lt (by omega)]
    · cases hput
  · cases hmove

/-- The loop leaves what is in front of the second unit's header. -/
theorem getElem?_placeMaxFrags {p : CreationParams} {payloadlen i j : ℕ} (hj : j ≤ 257)
    (h : placeMaxFrags inlineFrag k p payloadbuff payloadlen i out remaining = .ok out')
    (hi : 2 * i ≤ remaining) : out'[j]? = out[j]? := by
  induction i generalizing out remaining with
  | zero =>
    cases h
    rfl
  | succ i ih =>
    cases i with
    | zero =>
      cases h
      rfl
    | succ i =>
      rw [placeMaxFrags] at h
      obtain ⟨out₁, hplace, hloop⟩ := bind_eq_ok.1 h
      rw [ih hloop (by omega), getElem?_placeFrag hplace (by omega)]

theorem getElem?_writeLead {j : ℕ} (h : writeLead k id idext out = .ok out') (hj : 2 < j) :
    out'[j]? = out[j]? := by
  obtain ⟨out₁, hid, h⟩ := bind_eq_ok.1 h
  obtain ⟨out₂, hlen, h⟩ := bind_eq_ok.1 h
  have hkeep : out₂[j]? = out[j]? := by
    rw [getElem?_write hlen (by omega), getElem?_write hid (by omega)]
  split at h
  · rw [getElem?_write h (by omega), hkeep]
  · cases h
    exact hkeep

/-- The second unit of whatever is taken for a sequence is a fragment. -/
theorem getElem?_of_fragseqInfo {l : List UInt8} {r : ℕ × ℕ}
    (h : fragseqInfo k l = .ok (some r)) : l[257]? = some k.fragid := by
  obtain ⟨id, b, tail, rfl, hb, -⟩ := exists_fragSequence h
  have hdrop : (fragSequence k.fragid id b ++ tail).drop 257 =
      frags k.fragid (b.drop 255) ++ tail := by
    rw [fragSequence, List.cons_append, List.cons_append, List.append_assoc]
    change ((id :: 255 :: b.take 255) ++ (frags k.fragid (b.drop 255) ++ tail)).drop 257 = _
    exact List.drop_left' (by simp only [List.length_cons, List.length_take]; omega)
  have hne : b.drop 255 ≠ [] := drop_ne_nil hb
  rw [← Nat.add_zero 257, ← List.getElem?_drop, hdrop, frags_of_ne hne]
  rfl

/-- **From 2 ^ 16 full fragments on** the counter of the loop starts too low, and the first
    fragment gets no header: a payload fails that has another byte in its place. -/
theorem not_roundTrips_manyFrags (hreq : requirements k id payload.length = some req)
    (hpayload : (payloadbuff.drop (2 + k.ext id)).take payload.length = payload)
    (hlow : 2 ^ 16 ≤ (payload.length + k.ext id) / 255)
    (hhigh : (payload.length + k.ext id) / 255 < 2 ^ 32)
    (hbyte : payload[255 - k.ext id]? ≠ some k.fragid) :
    ¬ RoundTrips true k id idext payloadbuff fragbuff payload req := by
  rintro ⟨seq, hcreate, hlen, hrestores⟩
  have hfragid : seq[257]? = some k.fragid := by
    have hinfo := (hrestores [] trivial).1
    rw [List.append_nil] at hinfo
    exact getElem?_of_fragseqInfo hinfo
  have hext : k.ext id ≤ 1 := by
    obtain ⟨-, he⟩ | ⟨-, he⟩ := k.ext_eq id <;> omega
  have hread : payloadbuff[257]? = payload[255 - k.ext id]? := by
    rw [← hpayload, List.getElem?_take_of_lt (by omega), List.getElem?_drop]
    congr 1
    omega
  have hp := creationParams_eq k id payload.length (by omega) hhigh
  simp only [createFragseq, hp, if_true] at hcreate
  split_ifs at hcreate
  obtain ⟨out₁, hplace, hcreate⟩ := bind_eq_ok.1 hcreate
  obtain ⟨out₂, hlead, hcreate⟩ := bind_eq_ok.1 hcreate
  have hout : out₂[257]? = payloadbuff[257]? := by
    rw [getElem?_writeLead hlead (by omega)]
    unfold placeFrags at hplace
    have hcount := Nat.mod_lt ((payload.length + k.ext id) / 255) (y := 2 ^ 16) (by decide)
    split at hplace
    · obtain ⟨out, hlast, hloop⟩ := bind_eq_ok.1 hplace
      dsimp only at hlast hloop
      rw [getElem?_placeMaxFrags (Nat.le_refl _) hloop (by omega),
        getElem?_placeFrag hlast (by omega)]
    · dsimp only at hplace
      rw [getElem?_placeMaxFrags (Nat.le_refl _) hplace (by omega)]
  cases hcreate
  rw [List.getElem?_append_left (List.getElem?_eq_some_iff.1 hfragid).1, hfragid, hread] at hout
  exact hbyte hout.symm

end ManyFrags

end Sm8850.Elem
