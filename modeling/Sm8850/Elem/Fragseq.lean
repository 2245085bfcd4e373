/-
  Fragment sequences of elements and subelements: `wlan_utility.c`.

  * `creationParams`, `createFragseq`: a payload made into a sequence, in its own buffer
    or into another one.
  * `fragseqInfo`: the lengths of a sequence at the start of a buffer.
  * `defragFragseq`: the payload of a sequence, in its own buffer or into another one.

  A unit's header is its ID and its length, and at most 255 bytes follow them.  A buffer is
  its bytes, and a pointer into it an offset, or the bytes from there on.  A read or a write
  that leaves its buffer is a fault.
-/
import Sm8850.Lib.Moves

namespace Sm8850.Elem

open Lib.Bytes

/-! ## Element units -/

/-- An error of `QDF_STATUS`, or an access outside of a buffer. -/
inductive Fault where
  | eInval | eProto | outOfBounds

/-- An element, or a subelement with the fragment ID of its protocol area. -/
inductive ElemUnit where
  | elem
  | subelem (fragid : UInt8)

/-- `elemunit_fragid`; `WLAN_ELEMID_FRAGMENT` is 242. -/
def ElemUnit.fragid : ElemUnit → UInt8
  | elem => 242
  | subelem fragid => fragid

/-- Whether a unit has an element ID extension; `WLAN_ELEMID_EXTN_ELEM` is 255. -/
def ElemUnit.hasExt : ElemUnit → UInt8 → Bool
  | elem, id => id = 255
  | subelem _, _ => false

/-! ## Accesses -/

theorem bind_eq_ok {ε α β : Type} {x : Except ε α} {f : α → Except ε β} {b : β} :
    x >>= f = .ok b ↔ ∃ a, x = .ok a ∧ f a = .ok b := by
  cases x with
  | error e => exact ⟨nofun, nofun⟩
  | ok a => exact ⟨fun h => ⟨a, rfl, h⟩, fun ⟨_, ha, h⟩ => by cases ha; exact h⟩

def read (l : List UInt8) (i : ℕ) : Except Fault UInt8 :=
  match l[i]? with
  | some v => .ok v
  | none => .error .outOfBounds

def write (l : List UInt8) (i : ℕ) (v : UInt8) : Except Fault (List UInt8) :=
  if i < l.length then .ok (l.set i v) else .error .outOfBounds

/-- `qdf_mem_copy`, and `qdf_mem_move` within one buffer. -/
def memMove (src dst : List UInt8) (s d n : ℕ) : Except Fault (List UInt8) :=
  match transfer src dst s d n with
  | some out => .ok out
  | none => .error .outOfBounds

/-- The buffer that is read: in an inline mode the one that is written to. -/
def source (inlineMode : Bool) (buff out : List UInt8) : List UInt8 :=
  if inlineMode then out else buff

/-! ## Fragmentation -/

/-- The parameters of a fragment sequence. -/
structure CreationParams where
  expectedFragseqlen : ℕ
  prepayloadLeadbytes : ℕ
  numMaxsizefrags : ℕ
  smallerfragSize : ℕ
  extrahdrbytes : ℕ

/-- The number of max-sized fragments, a 32-bit one. -/
def numMaxsizefrags (k : ElemUnit) (id : UInt8) (payloadlen : ℕ) : ℕ :=
  (if k.hasExt id then (payloadlen + 1) / 255 else payloadlen / 255) % 2 ^ 32

/-- The size of a last fragment below the maximum. -/
def smallerfragSize (k : ElemUnit) (id : UInt8) (payloadlen : ℕ) : ℕ :=
  if k.hasExt id then (payloadlen - 254) % 255 else payloadlen % 255

/-- The header bytes behind the lead fragment's, from a 32-bit subtraction. -/
def extrahdrbytes (num smaller : ℕ) : ℕ :=
  (if num = 0 then 2 ^ 32 - 1 else num - 1) * 2 + (if smaller ≠ 0 then 2 else 0)

/-- `wlan_get_elemsubelem_fragseq_creationparams`: nothing where no fragmentation is
    required. -/
def creationParams (k : ElemUnit) (id : UInt8) (payloadlen : ℕ) : Option CreationParams :=
  if payloadlen ≤ (if k.hasExt id then 254 else 255) then none
  else
    let num := numMaxsizefrags k id payloadlen
    let smaller := smallerfragSize k id payloadlen
    let extra := extrahdrbytes num smaller
    let lead := if k.hasExt id then 2 + 1 else 2
    some
      { expectedFragseqlen := lead + payloadlen + extra
        prepayloadLeadbytes := lead
        numMaxsizefrags := num
        smallerfragSize := smaller
        extrahdrbytes := extra }

/-- `wlan_get_elemsubelem_fragseq_requirements`: the required size, where fragmentation is
    required. -/
def requirements (k : ElemUnit) (id : UInt8) (payloadlen : ℕ) : Option ℕ :=
  (creationParams k id payloadlen).map CreationParams.expectedFragseqlen

/-- Move or copy a fragment of `len` bytes, with `more` bytes behind it, to its place
    `remaining` bytes higher up, and write its header. -/
def placeFrag (inlineFrag : Bool) (k : ElemUnit) (payloadbuff out : List UInt8)
    (src remaining len more : ℕ) : Except Fault (List UInt8) := do
  let dst := src + remaining
  let out ← memMove (source inlineFrag payloadbuff out) out src dst (len + more)
  let out ← write out (dst - 2) k.fragid
  write out (dst - 2 + 1) (UInt8.ofNat len)

/-- The loop over the max-sized fragments behind the lead one, from the `i`th down.  The
    highest one takes along what is behind the payload, if no smaller one did. -/
def placeMaxFrags (inlineFrag : Bool) (k : ElemUnit) (p : CreationParams)
    (payloadbuff : List UInt8) (payloadlen : ℕ) :
    ℕ → List UInt8 → ℕ → Except Fault (List UInt8)
  | 0, out, _ => .ok out
  | 1, out, _ => .ok out
  | i + 2, out, remaining => do
    let behind := payloadbuff.length - p.prepayloadLeadbytes - payloadlen - remaining
    let more := if inlineFrag ∧ i + 2 = p.numMaxsizefrags ∧
        p.prepayloadLeadbytes + payloadlen < payloadbuff.length ∧ p.smallerfragSize = 0
      then behind else 0
    let out ← placeFrag inlineFrag k payloadbuff out (2 + (i + 1) * 255) remaining
      255 more
    placeMaxFrags inlineFrag k p payloadbuff payloadlen (i + 1) out (remaining - 2)

/-- The fragments behind the lead one.  The loop's counter is a 16-bit one. -/
def placeFrags (inlineFrag : Bool) (k : ElemUnit) (p : CreationParams)
    (payloadbuff : List UInt8) (payloadlen : ℕ) (out : List UInt8) :
    Except Fault (List UInt8) :=
  if p.smallerfragSize ≠ 0 then do
    let behind := payloadbuff.length - p.prepayloadLeadbytes - payloadlen - p.extrahdrbytes
    let more := if inlineFrag ∧ p.prepayloadLeadbytes + payloadlen < payloadbuff.length
      then behind else 0
    let out ← placeFrag inlineFrag k payloadbuff out
      (2 + p.numMaxsizefrags * 255) p.extrahdrbytes p.smallerfragSize more
    placeMaxFrags inlineFrag k p payloadbuff payloadlen (p.numMaxsizefrags % 2 ^ 16) out
      (p.extrahdrbytes - 2)
  else
    placeMaxFrags inlineFrag k p payloadbuff payloadlen (p.numMaxsizefrags % 2 ^ 16) out
      p.extrahdrbytes

/-- The IDs and the length of the lead fragment. -/
def writeLead (k : ElemUnit) (id idext : UInt8) (out : List UInt8) :
    Except Fault (List UInt8) := do
  let out ← write out 0 id
  let out ← write out 1 (255)
  if k.hasExt id then write out 2 idext else return out

/-- `wlan_create_elemsubelem_fragseq`: the buffer with the sequence, and the sequence's
    length.  In the inline mode that buffer is the payload's own. -/
def createFragseq (inlineFrag : Bool) (k : ElemUnit) (id idext : UInt8)
    (payloadbuff : List UInt8) (payloadlen : ℕ) (fragbuff : List UInt8) :
    Except Fault (List UInt8 × ℕ) :=
  match creationParams k id payloadlen with
  | none => .error .eInval
  | some p =>
    if payloadbuff.length = 0 then .error .eInval
    else if payloadbuff.length < payloadlen then .error .eInval
    else if inlineFrag then
      if payloadbuff.length < p.expectedFragseqlen then .error .eInval
      else do
        let out ← placeFrags true k p payloadbuff payloadlen payloadbuff
        let out ← writeLead k id idext out
        return (out, p.expectedFragseqlen)
    else if fragbuff.length = 0 then .error .eInval
    else if fragbuff.length < p.expectedFragseqlen then .error .eInval
    else do
      let out ← placeFrags false k p payloadbuff payloadlen fragbuff
      let out ← memMove payloadbuff out 2 2 255
      let out ← writeLead k id idext out
      return (out, p.expectedFragseqlen)

/-! ## Lengths of a sequence -/

/-- `wlan_get_elemsubelem_successorfrag`, on the bytes from the current unit on: those from
    the fragment after it on, if there is one. -/
def successorfrag (k : ElemUnit) (l : List UInt8) : Except Fault (Option (List UInt8)) :=
  if l.length < 2 then .error .eProto
  else do
    let len ← read l 1
    let totallen := 2 + len.toNat
    if l.length < totallen then .error .eProto
    else if l.length = totallen then .ok none
    else
      let next := l.drop totallen
      if next.length < 2 then .error .eProto
      else do
        let nextLen ← read next 1
        if next.length < 2 + nextLen.toNat then .error .eProto
        else do
          let nextId ← read next 0
          if nextId ≠ k.fragid then .ok none
          else if len.toNat ≠ 255 then .error .eProto
          else if nextLen = 0 then .error .eProto
          else .ok (some next)

/-- A fragment follows a whole unit of the full length, and is whole and not empty. -/
theorem of_successorfrag {k : ElemUnit} {l next : List UInt8}
    (h : successorfrag k l = .ok (some next)) :
    ∃ len nextLen : UInt8, read l 1 = .ok len ∧ len = 255 ∧ next = l.drop 257 ∧
      2 ≤ next.length ∧ read next 0 = .ok k.fragid ∧ read next 1 = .ok nextLen ∧ nextLen ≠ 0 ∧
      2 + nextLen.toNat ≤ next.length := by
  unfold successorfrag at h
  split at h
  · cases h
  obtain ⟨len, hlen, h⟩ := bind_eq_ok.1 h
  dsimp only at h
  split at h
  · cases h
  split at h
  · cases h
  split at h
  · cases h
  obtain ⟨nextLen, hnextLen, h⟩ := bind_eq_ok.1 h
  split at h
  · cases h
  obtain ⟨nextId, hnextId, h⟩ := bind_eq_ok.1 h
  split at h
  · cases h
  split at h
  · cases h
  split at h
  · cases h
  cases h
  have hfull : len = 255 := UInt8.toNat_inj.1 (by simp only [UInt8.reduceToNat]; omega)
  have hid : nextId = k.fragid := by simp_all
  subst hfull hid
  exact ⟨255, nextLen, hlen, rfl, rfl, by omega, hnextId, hnextLen, by assumption, by omega⟩

theorem length_successorfrag {k : ElemUnit} {l next : List UInt8}
    (h : successorfrag k l = .ok (some next)) : next.length < l.length := by
  obtain ⟨_, _, _, _, hnext, hlong, _⟩ := of_successorfrag h
  rw [hnext, List.length_drop] at hlong ⊢
  omega

/-- The loop over the fragments behind the lead one, with the lengths before a fragment. -/
def sumFrags (k : ElemUnit) (frag : List UInt8) (totallen payloadlen : ℕ) :
    Except Fault (ℕ × ℕ) :=
  match read frag 1 with
  | .error e => .error e
  | .ok len =>
    match _hnext : successorfrag k frag with
    | .error e => .error e
    | .ok none => .ok (totallen + (2 + len.toNat), payloadlen + len.toNat)
    | .ok (some next) =>
      sumFrags k next (totallen + (2 + len.toNat)) (payloadlen + len.toNat)
termination_by frag.length
decreasing_by exact length_successorfrag _hnext

/-- `wlan_get_elemsubelem_fragseq_info`: the total length and the payload length, if the
    buffer starts with a fragment sequence. -/
def fragseqInfo (k : ElemUnit) (buff : List UInt8) : Except Fault (Option (ℕ × ℕ)) :=
  if buff.length = 0 then .error .eInval
  else if buff.length < 2 then .error .eProto
  else do
    let len ← read buff 1
    if buff.length < 2 + len.toNat then .error .eProto
    else
      match successorfrag k buff with
      | .error e => .error e
      | .ok none => .ok none
      | .ok (some next) => do
        let id ← read buff 0
        let payloadlen := if k.hasExt id then len.toNat - 1 else len.toNat
        let r ← sumFrags k next (2 + len.toNat) payloadlen
        return some r

/-! ## Defragmentation -/

/-- The loop over the fragments behind the lead one: the buffer written to, the place of
    the next piece, the current unit, and the two lengths. -/
def defragLoop (inlineDefrag : Bool) (k : ElemUnit) (fragbuff out : List UInt8)
    (dst curr remlen currlen : ℕ) : Except Fault (List UInt8 × ℕ × ℕ × ℕ × ℕ) :=
  let buff := source inlineDefrag fragbuff out
  match read buff curr with
  | .error e => .error e
  | .ok id =>
    if id ≠ k.fragid then .ok (out, dst, curr, remlen, currlen)
    else
      match read buff (curr + 1) with
      | .error e => .error e
      | .ok len =>
        match memMove buff out (curr + 2) dst len.toNat with
        | .error e => .error e
        | .ok out =>
          if remlen < 2 + len.toNat then .error .outOfBounds
          else if remlen - (2 + len.toNat) = 0 then
            .ok (out, dst, curr, 0, currlen + len.toNat)
          else
            defragLoop inlineDefrag k fragbuff out (dst + len.toNat)
              (curr + (2 + len.toNat)) (remlen - (2 + len.toNat)) (currlen + len.toNat)
termination_by remlen
decreasing_by omega

/-- What `wlan_defrag_elemsubelem_fragseq` does once it knows of a sequence: it copies the
    lead piece, unless it stays where it is, runs the loop, and in the inline mode moves what
    is behind the sequence. -/
def joinFrags (inlineDefrag : Bool) (k : ElemUnit) (fragbuff defragbuff : List UInt8) :
    Except Fault (List UInt8 × ℕ) := do
  let id ← read fragbuff 0
  let len ← read fragbuff 1
  let ext := if k.hasExt id then 1 else 0
  let currPayloadlen := len.toNat - ext
  let src := 2 + ext
  let totallen := 2 + len.toNat
  let out ← if inlineDefrag then .ok fragbuff
    else memMove fragbuff defragbuff src 0 currPayloadlen
  let dst := (if inlineDefrag then src else 0) + currPayloadlen
  let (out, dst, curr, remlen, currlen) ← defragLoop inlineDefrag k fragbuff out dst totallen
    (fragbuff.length - totallen) currPayloadlen
  let out ← if inlineDefrag ∧ remlen ≠ 0 then memMove out out curr dst remlen else .ok out
  return (out, currlen)

/-- `wlan_defrag_elemsubelem_fragseq`: the buffer with the payload, and the payload's
    length.  In the inline mode that buffer is the sequence's own. -/
def defragFragseq (inlineDefrag : Bool) (k : ElemUnit) (fragbuff defragbuff : List UInt8) :
    Except Fault (List UInt8 × ℕ) :=
  if fragbuff.length = 0 then .error .eInval
  else if inlineDefrag = false ∧ defragbuff.length = 0 then .error .eInval
  else
    match fragseqInfo k fragbuff with
    | .error e => .error e
    | .ok none => .error .eInval
    | .ok (some (_, payloadlen)) =>
      if inlineDefrag = false ∧ defragbuff.length < payloadlen then .error .eInval
      else joinFrags inlineDefrag k fragbuff defragbuff

end Sm8850.Elem
