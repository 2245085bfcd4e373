/-
  What is copied when a coalesced frame is cut in a linear buffer.

  * The headers of a frame are read wherever they are said to be, also behind its end
    (`frameMem`, `memParseHeaders`); `linearCopies` are the ranges that are copied.
  * `pieceSizes`: how long the pieces are that the frame is cut into, of the header alone, and
    `spread` where they begin; `segmentNlos_copies` says that these are copied, the offset being
    cut to 16 bits.
  * `CoalSafe`: an accepted header has 1 to 6 NLOs and 48 packets at most, and nothing is copied
    from behind the frame.
  * **`coalSafe_iff`**: this holds just if the number of packets fits in 8 bits and the pieces
    end in the frame.
-/
import Sm8850.Rmnet.CoalescePlan
import Sm8850.Rmnet.FragCoalesce
import Sm8850.Rmnet.MapCoalesce

namespace Sm8850.Rmnet

open Lib.Bytes

/-! ## Memory -/

/-- The bytes of a frame, and what is behind them in memory. -/
def frameMem (pkt : List UInt8) (behind : ℕ → UInt8) (i : ℕ) : UInt8 :=
  if i < pkt.length then pkt.getD i 0 else behind (i - pkt.length)

def memBytes (mem : ℕ → UInt8) (off len : ℕ) : List UInt8 :=
  (List.range len).map fun i => mem (off + i)

/-- Memory as far as a header can be said to be. -/
def memReader (mem : ℕ → UInt8) : Reader where
  limit := 2 ^ 17
  read off len := if off + len ≤ 2 ^ 17 then some (memBytes mem off len) else none
  read_le h := by
    split_ifs at h with hle
    exact hle

/-- `pskb_pull`, which leaves a buffer that is too short as it is. -/
def pskbPull (bytes : List UInt8) (len : ℕ) : List UInt8 :=
  if len ≤ bytes.length then bytes.drop len else bytes

/-- The IPv6 header, as `rmnet_map_segment_coal_skb` reads it. -/
def memParseIpv6 (skip : SkipExthdr) (pkt : List UInt8) (r : Reader) : Option ParsedHeaders :=
  match r.read 0 40 with
  | none => none
  | some ip6h =>
    match skip pkt 40 (byteAt ip6h 6) with
    | (start, nexthdr, fragOff) =>
      let ipLen := start.getD (2 ^ 16 - 1) % 2 ^ 16
      if fragOff ≠ 0 then none
      else
        some { ipProto := 6, ipLen := ipLen, transProto := nexthdr, plain := decide (ipLen ≤ 40) }

/-- The headers of a packet. -/
def memParseHeaders (skip : SkipExthdr) (pkt : List UInt8) (behind : ℕ → UInt8) :
    Option ParsedHeaders :=
  let r := memReader (frameMem pkt behind)
  let version := (frameMem pkt behind 0).toNat
  if version / 16 = 4 then (parseIpv4 r).bind (parseTrans r)
  else if version / 16 = 6 then (memParseIpv6 skip pkt r).bind (parseTrans r)
  else none

section
variable {skip : SkipExthdr} {pkt b : List UInt8} {behind : ℕ → UInt8} {off len : ℕ}
  {h h' : ParsedHeaders}

/-- What is read inside the frame are its bytes. -/
theorem memBytes_of_slice (hb : slice pkt off len = some b) :
    memBytes (frameMem pkt behind) off len = b := by
  obtain ⟨hle, rfl⟩ := slice_eq_some hb
  refine List.ext_getElem (by simp [memBytes]; omega) fun i hi hi' => ?_
  unfold memBytes at hi ⊢
  rw [List.length_map, List.length_range] at hi
  rw [List.getElem_map, List.getElem_range, frameMem, if_pos (by omega), List.getElem_take,
    List.getElem_drop, List.getD_eq_getElem _ _ (by omega)]

theorem memReader_of_flat (hlimit : off + len ≤ 2 ^ 17)
    (hb : (flatReader pkt).read off len = some b) :
    (memReader (frameMem pkt behind)).read off len = some b := by
  have hread : (memReader (frameMem pkt behind)).read off len =
      some (memBytes (frameMem pkt behind) off len) := if_pos hlimit
  rw [hread, memBytes_of_slice hb]

theorem parseTrans_of_flat (hlen : h.ipLen < 2 ^ 16)
    (hparse : parseTrans (flatReader pkt) h = some h') :
    parseTrans (memReader (frameMem pkt behind)) h = some h' := by
  unfold parseTrans at hparse ⊢
  split_ifs at hparse ⊢
  · obtain ⟨th, hth, rfl⟩ := Option.map_eq_some_iff.1 hparse
    rw [memReader_of_flat (by omega) hth]
    rfl
  · obtain ⟨uh, huh, rfl⟩ := Option.map_eq_some_iff.1 hparse
    rw [memReader_of_flat (by omega) huh]
    rfl

theorem frameMem_zero (hpkt : 0 < pkt.length) :
    (frameMem pkt behind 0).toNat = byteAt pkt 0 := by
  unfold frameMem byteAt
  rw [if_pos hpkt]

theorem parseIpv4_of_flat (behind : ℕ → UInt8) (hparse : parseIpv4 (flatReader pkt) = some h) :
    0 < pkt.length ∧ h.ipLen < 2 ^ 16 ∧
      parseIpv4 (memReader (frameMem pkt behind)) = some h := by
  obtain ⟨iph, hiph, rfl⟩ := Option.map_eq_some_iff.1 hparse
  have hle := (flatReader pkt).read_le hiph
  refine ⟨Nat.lt_of_lt_of_le (by omega) hle, ?_, ?_⟩
  · dsimp only
    omega
  · unfold parseIpv4
    rw [memReader_of_flat (by omega) hiph]
    rfl

theorem memParseIpv6_of_map (behind : ℕ → UInt8)
    (hparse : mapParseIpv6 skip pkt = some h) :
    0 < pkt.length ∧ h.ipLen < 2 ^ 16 ∧
      memParseIpv6 skip pkt (memReader (frameMem pkt behind)) = some h := by
  unfold mapParseIpv6 at hparse
  cases hip6h : slice pkt 0 40 with
  | none =>
    rw [hip6h] at hparse
    cases hparse
  | some ip6h =>
    rw [hip6h] at hparse
    have hle := (slice_eq_some hip6h).1
    refine ⟨by omega, ?_, ?_⟩
    · dsimp only at hparse
      split_ifs at hparse
      obtain rfl := Option.some.inj hparse
      exact Nat.mod_lt _ (by omega)
    · have hread : (flatReader pkt).read 0 40 = some ip6h := hip6h
      unfold memParseIpv6
      rw [memReader_of_flat (by omega) hread]
      exact hparse

/-- Headers that are in the frame are found there. -/
theorem memParseHeaders_of_map (hparse : mapParseHeaders skip pkt = some h) :
    memParseHeaders skip pkt behind = some h := by
  unfold mapParseHeaders at hparse
  unfold memParseHeaders
  dsimp only at hparse ⊢
  split_ifs at hparse with hfour hsix
  · obtain ⟨h', hip, htrans⟩ := Option.bind_eq_some_iff.1 hparse
    obtain ⟨hpkt, hlen, hmem⟩ := parseIpv4_of_flat behind hip
    rw [frameMem_zero hpkt, if_pos hfour, hmem]
    exact parseTrans_of_flat hlen htrans
  · obtain ⟨h', hip, htrans⟩ := Option.bind_eq_some_iff.1 hparse
    obtain ⟨hpkt, hlen, hmem⟩ := memParseIpv6_of_map behind hip
    rw [frameMem_zero hpkt, if_neg hfour, if_pos hsix, hmem]
    exact parseTrans_of_flat hlen htrans

end

/-! ## The copies -/

/-- What `__rmnet_map_segment_coal_skb` copies: the payload, the transport and the IP header,
    as offsets and lengths. -/
def pieceCopies (h : PktHeaders) (dataOffset dlen : ℕ) : List (ℕ × ℕ) :=
  [(h.ipLen + h.transLen + dataOffset, dlen), (h.ipLen, h.transLen), (0, h.ipLen)]

/-- A frame that `rmnet_map_segment_coal_skb` gets, as it is when its headers are pulled. -/
structure Pulled where
  hdr : CoalHeader
  pkt : List UInt8

def pulled (bytes : List UInt8) (behind : ℕ → UInt8) : Pulled where
  hdr := coalHeader (memBytes (frameMem (pskbPull bytes mapHeaderSize) behind) 0 coalHeaderSize)
  pkt := pskbPull (pskbPull bytes mapHeaderSize) coalHeaderSize

/-- The frame is cut, and not passed on as it is. -/
def Pulled.isCut (f : Pulled) (h : ParsedHeaders) (gro : Bool) : Bool :=
  !(rmnetMapV5CsumBuggy f.hdr && !h.zeroCsum) &&
    !((gro && h.plain) && f.hdr.numNlos == 1 && f.hdr.csumValid)

/-- `rmnet_map_segment_coal_skb`: what it copies from the frame. -/
def linearCopies (skip : SkipExthdr) (bytes : List UInt8) (behind : ℕ → UInt8)
    (nloErrMask : ℕ) (gro : Bool) : List (ℕ × ℕ) :=
  let f := pulled bytes behind
  match memParseHeaders skip f.pkt behind with
  | none => []
  | some h =>
    if f.isCut h gro then
      ((segmentNlos (fun m _ => some (pieceCopies h.toPktHeaders m.dataOffset
          (m.gsoSize * m.gsoSegs))) 8 (gro && h.plain) (h.ipLen + h.transLen)
        (f.hdr.nlPairs.take f.hdr.numNlos) 0 nloErrMask ({}, [])).2).flatten
    else []

/-- The check of a linear frame, wherever its header is. -/
def linearCheck (bytes : List UInt8) (behind : ℕ → UInt8) : Option ℕ :=
  dataCheckCoalHeader (coalHeader (memBytes (frameMem bytes behind) mapHeaderSize coalHeaderSize))

/-! ## The pieces of a frame -/

/-- The payload of the packets of an NLO. -/
def dataLen (hlen : ℕ) (p : NlPair) : ℕ := (p.pktLen + 2 ^ 16 - hlen % 2 ^ 16) % 2 ^ 16

/-- The numbers of packets in the pieces of an NLO, `held` good ones being kept back: a packet
    that is alone is a piece of its own, the others make one until then. -/
def runs : List Bool → ℕ → List ℕ
  | [], held => if held ≠ 0 then [held] else []
  | true :: alone, held => (if held ≠ 0 then [held] else []) ++ 1 :: runs alone 0
  | false :: alone, held => runs alone (held + 1)

/-- Which packets are alone: all without GRO, else the ones with an error. -/
def alone (gro : Bool) : ℕ → ℕ → List Bool
  | 0, _ => []
  | n + 1, mask => (!gro || mask.testBit 0) :: alone gro n (mask >>> 1)

/-- The lengths of the pieces. -/
def pieceSizes (gro : Bool) (hlen : ℕ) : List NlPair → ℕ → List ℕ
  | [], _ => []
  | p :: rest, mask =>
    (runs (alone gro p.numPackets mask) 0).map (dataLen hlen p * ·) ++
      pieceSizes gro hlen rest (mask >>> p.numPackets)

/-- Pieces one behind the other: where they begin, and how long they are. -/
def spread : ℕ → List ℕ → List (ℕ × ℕ)
  | _, [] => []
  | u, n :: ns => (u, n) :: spread (u + n) ns

/-- The payload that a header speaks of. -/
def described (hlen : ℕ) (nlos : List NlPair) : ℕ :=
  (nlos.map fun p => dataLen hlen p * p.numPackets).sum

theorem spread_append (u : ℕ) (a b : List ℕ) :
    spread u (a ++ b) = spread u a ++ spread (u + a.sum) b := by
  induction a generalizing u with
  | nil => rfl
  | cons n a ih => rw [List.cons_append, spread, ih, spread, List.sum_cons, Nat.add_assoc]; rfl

theorem sum_held (held : ℕ) : (if held ≠ 0 then [held] else []).sum = held := by
  split_ifs with h
  · exact List.sum_singleton
  · exact (not_not.1 h).symm

theorem runs_sum (es : List Bool) (held : ℕ) : (runs es held).sum = held + es.length := by
  induction es generalizing held with
  | nil => exact sum_held held
  | cons e es ih =>
    cases e with
    | true =>
      rw [runs, List.sum_append, sum_held, List.sum_cons, ih, List.length_cons]
      omega
    | false =>
      rw [runs, ih, List.length_cons]
      omega

theorem length_alone (gro : Bool) (n mask : ℕ) : (alone gro n mask).length = n := by
  induction n generalizing mask with
  | zero => rfl
  | succ n ih => rw [alone, List.length_cons, ih]

theorem sum_map_mul (d : ℕ) (ns : List ℕ) : (ns.map (d * ·)).sum = d * ns.sum := by
  induction ns with
  | nil => rfl
  | cons n ns ih => rw [List.map_cons, List.sum_cons, List.sum_cons, ih, Nat.mul_add]

theorem pieceSizes_sum (gro : Bool) (hlen : ℕ) (nlos : List NlPair) (mask : ℕ) :
    (pieceSizes gro hlen nlos mask).sum = described hlen nlos := by
  induction nlos generalizing mask with
  | nil => rfl
  | cons p nlos ih =>
    rw [pieceSizes, List.sum_append, sum_map_mul, runs_sum, length_alone, ih, Nat.zero_add]
    rfl

theorem runs_eq_nil {es : List Bool} {held : ℕ} (h : runs es held = []) :
    held = 0 ∧ es = [] := by
  have hsum := runs_sum es held
  rw [h, List.sum_nil] at hsum
  exact ⟨by omega, List.length_eq_zero_iff.1 (by omega)⟩

/-- There is a piece just if there is a packet. -/
theorem pieceSizes_eq_nil (gro : Bool) (hlen : ℕ) (nlos : List NlPair) (mask : ℕ) :
    pieceSizes gro hlen nlos mask = [] ↔ Cuts.pktCount nlos = 0 := by
  induction nlos generalizing mask with
  | nil => exact iff_of_true rfl rfl
  | cons p nlos ih =>
    rw [pieceSizes, List.append_eq_nil_iff, List.map_eq_nil_iff, ih, Cuts.pktCount_cons,
      Nat.add_eq_zero_iff]
    refine and_congr_left' ⟨fun h => ?_, fun h => ?_⟩
    · rw [← length_alone gro p.numPackets mask, (runs_eq_nil h).2]
      rfl
    · rw [h]
      rfl

/-! ## What the loop copies -/

section Loop

variable {β : Type} {F : ℕ → ℕ → β} {u d g n mask pktId : ℕ} {gro valid : Bool} {l : List β}
  {s : CoalMeta × List β}

/-- The loop at a point of the payload: packets of this length, some of them kept back, and what
    it has made so far. -/
structure Reached (u d g : ℕ) (l : List β) (s : CoalMeta × List β) : Prop where
  offset : s.1.dataOffset = u % 2 ^ 16
  size : s.1.gsoSize = d
  segs : s.1.gsoSegs = g
  result : s.2 = l

/-- What the loop makes of pieces. -/
def madeOf (F : ℕ → ℕ → β) (u : ℕ) (sizes : List ℕ) : List β :=
  (spread u sizes).map fun x => F (x.1 % 2 ^ 16) x.2

theorem madeOf_append (u : ℕ) (a b : List ℕ) :
    madeOf F u (a ++ b) = madeOf F u a ++ madeOf F (u + a.sum) b := by
  rw [madeOf, spread_append, List.map_append]
  rfl

/-- What is made of a piece, of which only the place and the length are noted. -/
def noting (F : ℕ → ℕ → β) (m : CoalMeta) (_ : Bool) : Option β :=
  some (F m.dataOffset (m.gsoSize * m.gsoSegs))

theorem Reached.segmentData (h : Reached u d g l s) (pktId : ℕ) (valid : Bool) :
    Reached (u + d * g) d 0 (l ++ madeOf F u [d * g]) (segmentData (noting F) pktId valid s) := by
  obtain ⟨hoffset, hsize, hsegs, hresult⟩ := h
  unfold Rmnet.segmentData noting
  dsimp only
  refine ⟨?_, hsize, rfl, ?_⟩
  · rw [hoffset, hsize, hsegs, Nat.mod_add_mod]
  · rw [hoffset, hsize, hsegs, hresult]
    rfl

theorem Reached.setSegs (h : Reached u d g l s) (n : ℕ) : Reached u d n l (setSegs n s) :=
  ⟨h.offset, h.size, rfl, h.result⟩

theorem Reached.flushData (h : Reached u d g l s) (pktId : ℕ) :
    Reached (u + d * g) d 0 (l ++ madeOf F u ((if g ≠ 0 then [g] else []).map (d * ·)))
      (flushData (noting F) pktId s) := by
  unfold Rmnet.flushData
  rw [h.segs]
  by_cases hg : g ≠ 0
  · rw [if_pos hg, if_pos hg]
    exact h.segmentData pktId true
  · obtain rfl := not_not.1 hg
    rw [if_neg hg, if_neg hg, Nat.mul_zero, Nat.add_zero, List.map_nil]
    exact ⟨h.offset, h.size, h.segs, h.result.trans (List.append_nil l).symm⟩

/-- A packet that is alone, after what was kept back. -/
theorem Reached.single (h : Reached u d g l s) (pktId pktId' : ℕ) (valid : Bool) :
    Reached (u + d * (g + 1)) d 0
      (l ++ madeOf F u (((if g ≠ 0 then [g] else []) ++ [1]).map (d * ·)))
      (Rmnet.segmentData (noting F) pktId valid
        (Rmnet.setSegs 1 (Rmnet.flushData (noting F) pktId' s))) := by
  have hone := ((h.flushData (F := F) pktId').setSegs 1).segmentData (F := F) pktId valid
  rw [List.map_append, madeOf_append, ← List.append_assoc, sum_map_mul, sum_held, Nat.mul_add,
    ← Nat.add_assoc]
  exact hone

theorem flushData_zero (h : s.1.gsoSegs = 0) (emit : CoalMeta → Bool → Option β) (pktId : ℕ) :
    flushData emit pktId s = s := if_neg (not_not.2 h)

/-- A packet that is not alone is kept back. -/
theorem Reached.keep (h : Reached u d g l s) (hg : g + 1 < 2 ^ 8) :
    Reached u d (g + 1) l (Rmnet.setSegs ((s.1.gsoSegs + 1) % 2 ^ 8) s) := by
  rw [h.segs, Nat.mod_eq_of_lt hg]
  exact h.setSegs (g + 1)

/-- **The packets of an NLO** are sent out in its runs. -/
theorem Reached.segmentPackets (h : Reached u d g l s) (hg : gro = false → g = 0)
    (hcount : g + n < 2 ^ 8) (totalPkt mask : ℕ) :
    let r := segmentPackets (noting F) 8 gro n totalPkt mask s
    r.2.1 = mask >>> n ∧ Reached (u + d * (g + n)) d 0
      (l ++ madeOf F u ((runs (alone gro n mask) g).map (d * ·)))
      (Rmnet.flushData (noting F) r.1 r.2.2) := by
  induction n generalizing u g l s totalPkt mask with
  | zero => exact ⟨rfl, h.flushData totalPkt⟩
  | succ n ih =>
    rw [Rmnet.segmentPackets, alone]
    have hmask : ∀ r : ℕ, r = mask >>> 1 >>> n → r = mask >>> (n + 1) := by
      rintro r rfl
      rw [← Nat.shiftRight_add, Nat.add_comm]
    by_cases halone : (!gro || mask.testBit 0) = true
    · have hpacket : ∃ pktId valid, segmentPacket (noting F) 8 gro totalPkt (mask.testBit 0) s =
          Rmnet.segmentData (noting F) pktId valid
            (Rmnet.setSegs 1 (Rmnet.flushData (noting F) totalPkt s)) := by
        unfold segmentPacket
        cases gro with
        | false =>
          refine ⟨totalPkt, !mask.testBit 0, ?_⟩
          rw [flushData_zero (h.segs.trans (hg rfl))]
          rfl
        | true =>
          rw [Bool.not_true, Bool.false_or] at halone
          exact ⟨totalPkt, false, by rw [halone]; rfl⟩
      obtain ⟨pktId, valid, hpacket⟩ := hpacket
      rw [hpacket, halone, runs]
      obtain ⟨hshift, hreached⟩ := ih (h.single (F := F) pktId totalPkt valid) (fun _ => rfl)
        (by omega) ((totalPkt + 1) % 2 ^ 8) (mask >>> 1)
      refine ⟨hmask _ hshift, ?_⟩
      have hend : u + d * (g + (n + 1)) = u + d * (g + 1) + d * (0 + n) := by
        rw [Nat.zero_add, Nat.add_assoc, ← Nat.mul_add, Nat.add_assoc g, Nat.add_comm 1]
      rw [hend, List.append_cons, List.map_append, madeOf_append, ← List.append_assoc,
        sum_map_mul, List.sum_append, sum_held, List.sum_singleton]
      exact hreached
    · rw [Bool.not_eq_true] at halone
      obtain ⟨hgro, hbit⟩ := Bool.or_eq_false_iff.1 halone
      rw [Bool.not_eq_false'] at hgro
      subst hgro
      have hpacket : segmentPacket (noting F) 8 true totalPkt (mask.testBit 0) s =
          Rmnet.setSegs ((s.1.gsoSegs + 1) % 2 ^ 8) s := by
        rw [hbit]
        rfl
      rw [hpacket, halone, runs]
      obtain ⟨hshift, hreached⟩ := ih (h.keep (by omega)) (fun hgro => by cases hgro) (by omega)
        ((totalPkt + 1) % 2 ^ 8) (mask >>> 1)
      refine ⟨hmask _ hshift, ?_⟩
      rw [show g + (n + 1) = g + 1 + n by omega]
      exact hreached

/-- **The frame** is copied in the pieces its header speaks of. -/
theorem segmentNlos_copies (hlen totalPkt : ℕ) (nlos : List NlPair)
    (hbytes : ∀ p ∈ nlos, p.numPackets < 2 ^ 8) (hoffset : s.1.dataOffset = u % 2 ^ 16)
    (hsegs : s.1.gsoSegs = 0) (mask : ℕ) :
    (segmentNlos (noting F) 8 gro hlen nlos totalPkt mask s).2 =
      s.2 ++ madeOf F u (pieceSizes gro hlen nlos mask) := by
  induction nlos generalizing u s totalPkt mask with
  | nil => exact (List.append_nil s.2).symm
  | cons p nlos ih =>
    have hsize (size : ℕ) : Reached u size 0 s.2 ({ s.1 with gsoSize := size }, s.2) :=
      ⟨hoffset, rfl, hsegs, rfl⟩
    have hbegin : Reached u (dataLen hlen p) 0 s.2
        ({ s.1 with gsoSize := (p.pktLen + 2 ^ 16 - hlen % 2 ^ 16) % 2 ^ 16 }, s.2) :=
      hsize (dataLen hlen p)
    have hp := hbytes p List.mem_cons_self
    have hflat : gro = false → (0 : ℕ) = 0 := fun _ => rfl
    obtain ⟨hmask, hend⟩ :=
      hbegin.segmentPackets (F := F) (n := p.numPackets) hflat (by omega) totalPkt mask
    rw [segmentNlos, pieceSizes, madeOf_append, sum_map_mul, runs_sum, length_alone]
    refine (ih _ (fun q hq => hbytes q (List.mem_cons_of_mem _ hq)) hend.offset hend.segs
      _).trans ?_
    rw [hend.result, hmask, Nat.zero_add, List.append_assoc]

end Loop

/-! ## Where the pieces end -/

/-- A range of bytes lies in the first `len` ones, if it has any. -/
def Inside (len : ℕ) (r : ℕ × ℕ) : Prop := r.2 = 0 ∨ r.1 + r.2 ≤ len

/-- The pieces that the header speaks of end in the frame: all of them do, or the frame is so
    long that an offset of 16 bits stays in it. -/
def EndsIn (len hlen : ℕ) (sizes : List ℕ) : Prop :=
  hlen + sizes.sum ≤ len ∨
    (2 ^ 16 + hlen ≤ len ∧ ∀ x ∈ spread 0 sizes, Inside len (hlen + x.1 % 2 ^ 16, x.2))

theorem spread_le {u : ℕ} {sizes : List ℕ} {x : ℕ × ℕ} (h : x ∈ spread u sizes) :
    x.1 + x.2 ≤ u + sizes.sum := by
  induction sizes generalizing u with
  | nil => cases h
  | cons n sizes ih =>
    rw [List.sum_cons]
    rcases List.mem_cons.1 h with rfl | h
    · dsimp only
      omega
    · have := ih h
      omega

/-- Below 64 KiB no piece begins behind another one that ends in the frame and yet does not. -/
theorem sum_le_of_inside {len hlen u : ℕ} {sizes : List ℕ} (hlen16 : len < 2 ^ 16 + hlen)
    (hu : hlen + u ≤ len)
    (h : ∀ x ∈ spread u sizes, Inside len (hlen + x.1 % 2 ^ 16, x.2)) :
    hlen + u + sizes.sum ≤ len := by
  induction sizes generalizing u with
  | nil => exact hu
  | cons n sizes ih =>
    have hfirst := h _ List.mem_cons_self
    unfold Inside at hfirst
    dsimp only at hfirst
    rw [Nat.mod_eq_of_lt (by omega)] at hfirst
    have hnext := ih (u := u + n) (by omega) fun x hx => h x (List.mem_cons_of_mem _ hx)
    rw [List.sum_cons]
    omega

theorem endsIn_iff {len hlen : ℕ} {sizes : List ℕ} (hle : hlen ≤ len) :
    EndsIn len hlen sizes ↔
      ∀ x ∈ spread 0 sizes, Inside len (hlen + x.1 % 2 ^ 16, x.2) := by
  constructor
  · rintro (hsum | ⟨-, hall⟩) x hx
    · have hend := spread_le hx
      have hmod := Nat.mod_le x.1 (2 ^ 16)
      exact .inr (by dsimp only; omega)
    · exact hall x hx
  · intro hall
    rcases Nat.lt_or_ge len (2 ^ 16 + hlen) with hlt | hge
    · exact .inl (sum_le_of_inside hlt hle hall)
    · exact .inr ⟨hge, hall⟩

/-- The headers are copied from the frame just if they are in it. -/
theorem pieceCopies_inside {h : PktHeaders} {len off n : ℕ} :
    (∀ r ∈ pieceCopies h off n, Inside len r) ↔
      h.ipLen + h.transLen ≤ len ∧ Inside len (h.ipLen + h.transLen + off, n) := by
  unfold pieceCopies Inside
  simp only [List.mem_cons, List.not_mem_nil, or_false, forall_eq_or_imp, forall_eq]
  omega

/-! ## The check -/

/-- The number of packets in all pairs. -/
def CoalHeader.packets (hdr : CoalHeader) : ℕ := Cuts.pktCount hdr.nlPairs

theorem checkPairs_le {l : List NlPair} {i pkts mask mask' : ℕ} (hpkts : pkts ≤ maxPackets)
    (h : checkPairs l i pkts mask = some mask') :
    (pkts + Cuts.pktCount l) % 2 ^ 8 ≤ maxPackets := by
  induction l generalizing i pkts mask with
  | nil => exact Nat.le_trans (Nat.mod_le _ _) hpkts
  | cons p l ih =>
    rw [checkPairs] at h
    split_ifs at h with hmany
    have hrest := ih (Nat.not_lt.1 hmany) h
    rw [Nat.mod_add_mod] at hrest
    rwa [Cuts.pktCount_cons, ← Nat.add_assoc]

/-- What the check promises: the number of packets is small in 8 bits. -/
theorem dataCheckCoalHeader_some {hdr : CoalHeader} {mask : ℕ}
    (h : dataCheckCoalHeader hdr = some mask) :
    (1 ≤ hdr.numNlos ∧ hdr.numNlos ≤ maxNlos) ∧ hdr.packets % 2 ^ 8 ≤ maxPackets := by
  unfold dataCheckCoalHeader at h
  split_ifs at h with hnlos
  have hpairs := checkPairs_le (Nat.zero_le _) h
  rw [Nat.zero_add] at hpairs
  exact ⟨by omega, hpairs⟩

/-- An accepted header has few packets just if their number fits in 8 bits. -/
theorem packets_le_iff {hdr : CoalHeader} {mask : ℕ} (h : dataCheckCoalHeader hdr = some mask) :
    hdr.packets ≤ maxPackets ↔ hdr.packets < 2 ^ 8 := by
  have hmod := (dataCheckCoalHeader_some h).2
  unfold maxPackets at *
  omega

/-! ## The theorem -/

/-- The header of a linear frame that is checked. -/
def linearHdr (bytes : List UInt8) (behind : ℕ → UInt8) : CoalHeader :=
  coalHeader (memBytes (frameMem bytes behind) mapHeaderSize coalHeaderSize)

/-- What is to hold of an accepted frame. -/
structure FrameSafe (skip : SkipExthdr) (bytes : List UInt8) (behind : ℕ → UInt8) (gro : Bool)
    (mask : ℕ) : Prop where
  nlos : 1 ≤ (linearHdr bytes behind).numNlos ∧ (linearHdr bytes behind).numNlos ≤ maxNlos
  packets : (linearHdr bytes behind).packets ≤ maxPackets
  inside : ∀ r ∈ linearCopies skip bytes behind mask gro, Inside (pulled bytes behind).pkt.length r

/-- What is to hold of a linear frame. -/
def CoalSafe (skip : SkipExthdr) (bytes : List UInt8) (behind : ℕ → UInt8) (gro : Bool) : Prop :=
  ∀ mask, linearCheck bytes behind = some mask → FrameSafe skip bytes behind gro mask

/-- What is to hold of the check of a frame in fragments. -/
def FragCheckSafe (mem : Pages) (d : FragDescriptor) : Prop :=
  ∀ mask, rmnetFragDataCheckCoalHeader mem d = some mask →
    ∃ b, rmnetFragHeaderPtr mem d mapHeaderSize coalHeaderSize = some b ∧
      (1 ≤ (coalHeader b).numNlos ∧ (coalHeader b).numNlos ≤ maxNlos) ∧
      (coalHeader b).packets ≤ maxPackets

/-- The NLOs that a frame is cut by. -/
def Pulled.nlos (f : Pulled) : List NlPair := f.hdr.nlPairs.take f.hdr.numNlos

/-- Where the frame is cut, its pieces end in it. -/
def PiecesEnd (skip : SkipExthdr) (bytes : List UInt8) (behind : ℕ → UInt8) (gro : Bool)
    (mask : ℕ) : Prop :=
  let f := pulled bytes behind
  ∀ h, memParseHeaders skip f.pkt behind = some h → f.isCut h gro = true →
    Cuts.pktCount f.nlos ≠ 0 → h.ipLen + h.transLen ≤ f.pkt.length ∧
      EndsIn f.pkt.length (h.ipLen + h.transLen)
        (pieceSizes (gro && h.plain) (h.ipLen + h.transLen) f.nlos mask)

/-- The header speaks of no more than there is. -/
structure Truthful (skip : SkipExthdr) (bytes : List UInt8) (behind : ℕ → UInt8) (gro : Bool)
    (mask : ℕ) : Prop where
  packets : (linearHdr bytes behind).packets < 2 ^ 8
  pieces : PiecesEnd skip bytes behind gro mask

section
variable {skip : SkipExthdr} {bytes : List UInt8} {behind : ℕ → UInt8} {gro : Bool} {mask : ℕ}

theorem numPackets_lt {b : List UInt8} {p : NlPair} (h : p ∈ (coalHeader b).nlPairs) :
    p.numPackets < 2 ^ 8 := by
  obtain ⟨i, -, rfl⟩ := List.mem_map.1 h
  exact byteAt_lt b _

theorem mem_madeOf_pieceCopies {h : PktHeaders} {sizes : List ℕ} {len : ℕ} :
    (∀ r ∈ (madeOf (pieceCopies h) 0 sizes).flatten, Inside len r) ↔
      ∀ x ∈ spread 0 sizes, h.ipLen + h.transLen ≤ len ∧
        Inside len (h.ipLen + h.transLen + x.1 % 2 ^ 16, x.2) := by
  unfold madeOf
  constructor
  · intro hall x hx
    refine pieceCopies_inside.1 fun r hr => hall r (List.mem_flatten.2 ⟨_, ?_, hr⟩)
    exact List.mem_map.2 ⟨x, hx, rfl⟩
  · intro hall r hr
    obtain ⟨l, hl, hr⟩ := List.mem_flatten.1 hr
    obtain ⟨x, hx, rfl⟩ := List.mem_map.1 hl
    exact pieceCopies_inside.2 (hall x hx) r hr

theorem spread_eq_nil {u : ℕ} {sizes : List ℕ} : spread u sizes = [] ↔ sizes = [] := by
  cases sizes with
  | nil => exact iff_of_true rfl rfl
  | cons n sizes => exact iff_of_false nofun nofun

/-- The headers and the payloads are in the frame. -/
theorem pieces_inside {h : PktHeaders} {sizes : List ℕ} {len : ℕ} :
    (∀ r ∈ (madeOf (pieceCopies h) 0 sizes).flatten, Inside len r) ↔
      (sizes ≠ [] → h.ipLen + h.transLen ≤ len ∧ EndsIn len (h.ipLen + h.transLen) sizes) := by
  rw [mem_madeOf_pieceCopies]
  constructor
  · intro hall hsizes
    obtain ⟨x, rest, hx⟩ := List.exists_cons_of_ne_nil (mt (spread_eq_nil (u := 0)).1 hsizes)
    have hle := (hall x (hx ▸ List.mem_cons_self)).1
    exact ⟨hle, (endsIn_iff hle).2 fun x hx => (hall x hx).2⟩
  · intro hends x hx
    have hsizes : sizes ≠ [] := by
      rintro rfl
      cases hx
    obtain ⟨hle, hend⟩ := hends hsizes
    exact ⟨hle, (endsIn_iff hle).1 hend x hx⟩

/-- Nothing is copied from behind the frame just if its pieces end in it. -/
theorem linearCopies_inside : (∀ r ∈ linearCopies skip bytes behind mask gro,
      Inside (pulled bytes behind).pkt.length r) ↔ PiecesEnd skip bytes behind gro mask := by
  unfold linearCopies PiecesEnd
  dsimp only
  cases hparse : memParseHeaders skip (pulled bytes behind).pkt behind with
  | none => exact iff_of_true (by intros; contradiction) (by intros; contradiction)
  | some h =>
    dsimp only
    simp only [Option.some.injEq, forall_eq']
    by_cases hcut : (pulled bytes behind).isCut h gro = true
    · rw [if_pos hcut]
      have hcopies := @segmentNlos_copies _ (pieceCopies h.toPktHeaders) 0 (gro && h.plain) ({}, [])
        (h.ipLen + h.transLen) 0 (pulled bytes behind).nlos
        (fun p hp => numPackets_lt (List.mem_of_mem_take hp)) rfl rfl mask
      unfold noting Pulled.nlos at hcopies
      rw [hcopies, List.nil_append, pieces_inside, Ne, pieceSizes_eq_nil]
      exact ⟨fun h _ => h, fun h => h hcut⟩
    · rw [if_neg hcut]
      exact iff_of_true nofun fun h => absurd h hcut

end

/-- **A coalescing header keeps to its limits, and what is copied to the frame, just if the
    header speaks of no more than there is.**  The check of fragments is the same. -/
theorem coalSafe_iff (skip : SkipExthdr) (bytes : List UInt8) (behind : ℕ → UInt8) (gro : Bool)
    (mem : Pages) (d : FragDescriptor) :
    (CoalSafe skip bytes behind gro ↔
      ∀ mask, linearCheck bytes behind = some mask → Truthful skip bytes behind gro mask) ∧
    (FragCheckSafe mem d ↔ ∀ mask b, rmnetFragDataCheckCoalHeader mem d = some mask →
      rmnetFragHeaderPtr mem d mapHeaderSize coalHeaderSize = some b →
      (coalHeader b).packets < 2 ^ 8) := by
  constructor
  · refine forall_congr' fun mask => imp_congr_right fun hcheck => ?_
    constructor
    · rintro ⟨-, hpackets, hinside⟩
      exact ⟨(packets_le_iff hcheck).1 hpackets, linearCopies_inside.1 hinside⟩
    · rintro ⟨hpackets, hpieces⟩
      exact ⟨(dataCheckCoalHeader_some hcheck).1, (packets_le_iff hcheck).2 hpackets,
        linearCopies_inside.2 hpieces⟩
  · refine forall_congr' fun mask => ?_
    constructor
    · intro hsafe b hcheck hb
      obtain ⟨b', hb', -, hpackets⟩ := hsafe hcheck
      rw [hb] at hb'
      obtain rfl := Option.some.inj hb'
      rw [rmnetFragDataCheckCoalHeader, hb, Option.bind_some] at hcheck
      exact (packets_le_iff hcheck).1 hpackets
    · intro hpackets hcheck
      obtain ⟨b, hb, hdata⟩ := Option.bind_eq_some_iff.1 hcheck
      exact ⟨b, hb, (dataCheckCoalHeader_some hdata).1,
        (packets_le_iff hdata).2 (hpackets b hcheck hb)⟩

/-! ## Two frames -/

/-- A header with one NLO of 256 packets, as 48 and 208. -/
def manyPackets : List UInt8 :=
  [0, 0, 0, 0, 0, 32, 0, 0, 0, 60, 0, 48, 0, 60, 0, 208] ++ List.replicate 16 0

/-- A TCP packet without payload, of which the header says that it has 1360 bytes. -/
def noPayload : List UInt8 :=
  [0, 0, 0, 0, 0, 16, 0, 0, 5, 120, 0, 1] ++ List.replicate 20 0 ++
    [0x45, 0, 0, 40, 0, 0, 0, 0, 64, 6, 0, 0, 10, 0, 0, 1, 10, 0, 0, 2,
      0, 80, 0, 80, 0, 0, 0, 0, 0, 0, 0, 0, 0x50, 0, 0, 0, 0, 0, 0, 0]

/-- The first is accepted, and from the second more is copied than there is. -/
theorem coalSafe_manyPackets_noPayload :
    ¬ CoalSafe (fun _ _ n => (some 40, n, 0)) manyPackets (fun _ => 0) false ∧
      ¬ CoalSafe (fun _ _ n => (some 40, n, 0)) noPayload (fun _ => 0) false := by
  constructor
  · intro hsafe
    have hpackets := (hsafe 0 (by decide +kernel)).packets
    exact absurd hpackets (by decide +kernel)
  · intro hsafe
    have hinside := (hsafe 0 (by decide +kernel)).inside (40, 1360) (by decide +kernel)
    exact absurd hinside (by unfold Inside; decide +kernel)

end Sm8850.Rmnet
