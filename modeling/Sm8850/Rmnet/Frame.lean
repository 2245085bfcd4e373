/-
  A coalesced frame as a byte string.

  * `Parsed` says that its headers are there, `WellFormed` that they are whole and its
    lengths add up.
  * `PieceSkb` is a packet for the stack that stands for a piece of a frame, and
    `PieceSkb.packets_eq` says for which packets.
-/
import Sm8850.Rmnet.Packets
import Sm8850.Rmnet.CoalescePlan

namespace Sm8850.Rmnet

open Lib.Bytes

variable {pkt bytes : List UInt8} {hdr : CoalHeader} {h : ParsedHeaders} {m : CoalMeta}
  {skb : RxSkBuff} {good : Bool}

/-! ## Headers -/

/-- The header bytes are there. -/
structure Parsed (pkt : List UInt8) (h : ParsedHeaders) : Prop where
  ip : (h.ipProto = 4 ∧ 20 ≤ pkt.length) ∨ h.ipProto = 6
  trans : (h.transProto = IPPROTO_TCP ∧ h.ipLen + 20 ≤ pkt.length ∧ h.zeroCsum = false) ∨
    (h.transProto = IPPROTO_UDP ∧ h.ipLen + 8 ≤ pkt.length ∧ h.transLen = 8 ∧
      h.zeroCsum = (h.ipProto == 4 && be16 pkt (h.ipLen + 6) == 0))

theorem parseTrans_spec {h₀ : ParsedHeaders} (hz : h₀.zeroCsum = false)
    (hp : parseTrans (flatReader pkt) h₀ = some h) :
    h.ipProto = h₀.ipProto ∧
    ((h.transProto = IPPROTO_TCP ∧ h.ipLen + 20 ≤ pkt.length ∧ h.zeroCsum = false) ∨
    (h.transProto = IPPROTO_UDP ∧ h.ipLen + 8 ≤ pkt.length ∧ h.transLen = 8 ∧
      h.zeroCsum = (h.ipProto == 4 && be16 pkt (h.ipLen + 6) == 0))) := by
  unfold parseTrans at hp
  split at hp
  · rename_i htcp
    obtain ⟨th, hth, rfl⟩ := Option.map_eq_some_iff.1 hp
    exact ⟨rfl, .inl ⟨htcp, (slice_eq_some hth).1, hz⟩⟩
  · split at hp
    · rename_i hudp
      obtain ⟨uh, huh, rfl⟩ := Option.map_eq_some_iff.1 hp
      refine ⟨rfl, .inr ⟨hudp, (slice_eq_some huh).1, rfl, ?_⟩⟩
      show (h₀.ipProto == 4 && be16 uh 6 == 0) = _
      rw [be16_slice huh (by decide)]
    · cases hp

theorem parseHeaders_spec {version : ℕ} (hp : parseHeaders version (flatReader pkt) = some h) :
    Parsed pkt h := by
  unfold parseHeaders at hp
  split at hp
  · obtain ⟨h₀, h4, ht⟩ := Option.bind_eq_some_iff.1 hp
    obtain ⟨iph, hiph, rfl⟩ := Option.map_eq_some_iff.1 h4
    obtain ⟨hproto, htrans⟩ := parseTrans_spec rfl ht
    exact ⟨.inl ⟨hproto, by simpa using (slice_eq_some hiph).1⟩, htrans⟩
  · split at hp
    · obtain ⟨h₀, h6, ht⟩ := Option.bind_eq_some_iff.1 hp
      unfold parseIpv6 at h6
      split at h6
      · cases h6
      · split at h6
        · cases h6
        · split at h6
          · cases h6
          · obtain rfl := Option.some.inj h6
            obtain ⟨hproto, htrans⟩ := parseTrans_spec rfl ht
            exact ⟨.inr hproto, htrans⟩
    · cases hp

/-! ## The frame -/

def framePayload (bytes : List UInt8) : List UInt8 := bytes.drop (mapHeaderSize + coalHeaderSize)

/-- The coalescing header of a frame. -/
def frameHdr (bytes : List UInt8) : CoalHeader :=
  coalHeader ((bytes.drop mapHeaderSize).take coalHeaderSize)

/-- The headers of its packet. -/
def frameHeaders (bytes : List UInt8) : Option ParsedHeaders :=
  parseHeaders (byteAt (framePayload bytes) 0) (flatReader (framePayload bytes))

/-- The NLOs that count. -/
def CoalHeader.nlos (hdr : CoalHeader) : List NlPair := hdr.nlPairs.take hdr.numNlos

/-- How a frame is cut. -/
def frameCuts (hdr : CoalHeader) (h : ParsedHeaders) (mask : ℕ) (gro : Bool) : Cuts where
  gro := gro && h.plain
  hlen := h.ipLen + h.transLen
  nlos := hdr.nlos
  mask := mask

/-- A well-formed coalesced frame: a MAP header, whose length has 16 bits, a coalescing header,
    and a packet with whole headers; every packet length of the coalescing header is
    at least that of the headers, and the payload is that of all packets. -/
structure WellFormed (bytes : List UInt8) (hdr : CoalHeader) (h : ParsedHeaders) : Prop where
  long : mapHeaderSize + coalHeaderSize < bytes.length
  short : bytes.length < 2 ^ 16 + mapHeaderSize + coalHeaderSize
  hdr_eq : hdr = frameHdr bytes
  headers : frameHeaders bytes = some h
  ipLen : (if h.ipProto = 4 then 20 else 40) ≤ h.ipLen
  transLen : h.transProto = IPPROTO_TCP → 20 ≤ h.transLen
  fits : ∀ p ∈ hdr.nlos, h.ipLen + h.transLen ≤ p.pktLen
  payload : (framePayload bytes).length =
    h.ipLen + h.transLen + (frameCuts hdr h 0 false).total

theorem WellFormed.parsed (hw : WellFormed bytes hdr h) : Parsed (framePayload bytes) h :=
  parseHeaders_spec hw.headers

theorem WellFormed.layout (hw : WellFormed bytes hdr h) : Layout h.toPktHeaders := by
  obtain ⟨hip, htrans⟩ := hw.parsed
  have hlen := hw.ipLen
  constructor
  · rcases hip with ⟨h4, -⟩ | h6
    · rw [if_pos h4] at hlen
      exact .inl ⟨h4, hlen⟩
    · rw [if_neg (by rw [h6]; decide)] at hlen
      exact .inr ⟨h6, hlen⟩
  · rcases htrans with ⟨htcp, -⟩ | ⟨hudp, -, h8, -⟩
    · exact .inl ⟨htcp, hw.transLen htcp⟩
    · exact .inr ⟨hudp, h8⟩

theorem nlPair_lt {b : List UInt8} {p : NlPair} (hp : p ∈ (coalHeader b).nlPairs) :
    p.pktLen < 2 ^ 16 ∧ p.numPackets < 2 ^ 8 := by
  obtain ⟨i, -, rfl⟩ := List.mem_map.1 hp
  exact ⟨be16_lt _ _, byteAt_lt _ _⟩

theorem WellFormed.length_lt (hw : WellFormed bytes hdr h) :
    (framePayload bytes).length < 2 ^ 16 := by
  have := hw.short
  rw [framePayload, List.length_drop]
  omega

theorem WellFormed.cuts (hw : WellFormed bytes hdr h) (mask : ℕ) (gro : Bool) :
    (frameCuts hdr h mask gro).Wf := by
  have hlen := hw.payload
  have hlt := hw.length_lt
  refine ⟨?_, fun p hp => ?_, ?_⟩
  · show h.ipLen + h.transLen < 2 ^ 16
    omega
  · have hmem : p ∈ hdr.nlPairs := List.mem_of_mem_take hp
    rw [hw.hdr_eq] at hmem
    obtain ⟨hl, hn⟩ := nlPair_lt hmem
    exact ⟨hw.fits p hp, hl, hn⟩
  · show (frameCuts hdr h 0 false).total < 2 ^ 16
    omega

/-- A frame with one packet length. -/
theorem WellFormed.single (hw : WellFormed bytes hdr h) (hone : hdr.numNlos = 1) :
    hdr.nlos = [hdr.nlPairs.headD ⟨0, 0, 0⟩] := by
  rw [CoalHeader.nlos, hone, hw.hdr_eq]
  rfl

theorem WellFormed.length_single (hw : WellFormed bytes hdr h) {p : NlPair}
    (hp : hdr.nlos = [p]) :
    (framePayload bytes).length =
      h.ipLen + h.transLen + (p.pktLen - (h.ipLen + h.transLen)) * p.numPackets := by
  have htotal : (frameCuts hdr h 0 false).total =
      p.numPackets * (p.pktLen - (h.ipLen + h.transLen)) := by
    show (hdr.nlos.flatMap fun q =>
      List.replicate q.numPackets (q.pktLen - (h.ipLen + h.transLen))).sum = _
    rw [hp, List.flatMap_singleton, List.sum_replicate_nat]
  rw [hw.payload, htotal, Nat.mul_comm]

/-! ## The pieces of a frame -/

/-- The flags a piece is given: the dangerous ones are only left to one that ends the frame. -/
def pieceFlags (pkt : List UInt8) (h : ParsedHeaders) (m : CoalMeta) : Option ℕ :=
  if h.transProto = IPPROTO_TCP ∧ be16 pkt (h.ipLen + 12) &&& dangerousFlags ≠ 0 ∧
      h.ipLen + h.transLen + m.dataOffset + m.gsoSize * m.gsoSegs < pkt.length then
    some (clearDangerous (be16 pkt (h.ipLen + 12)))
  else none

/-- The payload of a piece. -/
def pieceData (pkt : List UInt8) (h : ParsedHeaders) (m : CoalMeta) : List UInt8 :=
  (pkt.drop (h.ipLen + h.transLen + m.dataOffset)).take (m.gsoSize * m.gsoSegs)

/-- A packet for the stack that stands for a piece. -/
structure PieceSkb (pkt : List UInt8) (h : ParsedHeaders) (m : CoalMeta) (good₀ : Bool)
    (skb : RxSkBuff) : Prop where
  own : Own h.toPktHeaders skb (pieceData pkt h m) ((be16 pkt 4 + m.pktId) % 2 ^ 16)
    ((be32 pkt (h.ipLen + 4) + m.dataOffset) % 2 ^ 32)
    ((pieceFlags pkt h m).getD (be16 pkt (h.ipLen + 12))) good₀
  lens : m.gsoSegs ≤ 1 →
    Lens h.toPktHeaders skb.header (h.ipLen + h.transLen + (pieceData pkt h m).length)
  gsoSize : skb.gsoSize = if 1 < m.gsoSegs then m.gsoSize else 0
  gsoSegs : skb.gsoSegs = if 1 < m.gsoSegs then m.gsoSegs else 0

/-- The packets of a piece. -/
def piecePacket (pkt : List UInt8) (h : ParsedHeaders) (m : CoalMeta) (good : Bool)
    (size segs i : ℕ) : Packet :=
  segPacket h.toPktHeaders (pieceData pkt h m) ((be16 pkt 4 + m.pktId) % 2 ^ 16)
    ((be32 pkt (h.ipLen + 4) + m.dataOffset) % 2 ^ 32)
    ((pieceFlags pkt h m).getD (be16 pkt (h.ipLen + 12))) good size segs i

theorem length_pieceData
    (hle : h.ipLen + h.transLen + m.dataOffset + m.gsoSize * m.gsoSegs ≤ pkt.length) :
    (pieceData pkt h m).length = m.gsoSize * m.gsoSegs := by
  rw [pieceData, List.length_take, List.length_drop]
  omega

/-- The frame as one piece. -/
theorem pieceData_whole {size n : ℕ}
    (hlen : pkt.length = h.ipLen + h.transLen + size * n) :
    pieceData pkt h ⟨0, size, n, 0⟩ = pkt.drop (h.ipLen + h.transLen) := by
  refine List.take_of_length_le ?_
  rw [List.length_drop]
  show pkt.length - (h.ipLen + h.transLen + 0) ≤ size * n
  omega

theorem pieceFlags_whole {size n : ℕ} (hlen : pkt.length = h.ipLen + h.transLen + size * n) :
    pieceFlags pkt h ⟨0, size, n, 0⟩ = none := by
  refine if_neg ?_
  rintro ⟨-, -, hlt⟩
  have hlt : h.ipLen + h.transLen + 0 + size * n < pkt.length := hlt
  omega

theorem PieceSkb.expand (hl : Layout h.toPktHeaders) (hp : PieceSkb pkt h m good skb)
    (hle : h.ipLen + h.transLen + m.dataOffset + m.gsoSize * m.gsoSegs ≤ pkt.length) :
    skb.expand m.gsoSize m.gsoSegs =
      (List.range m.gsoSegs).map (piecePacket pkt h m good m.gsoSize m.gsoSegs) :=
  hp.own.expand hl (fun h1 => hp.lens (Nat.le_of_eq h1)) (length_pieceData hle)

/-- **What a piece stands for** does not depend on how its packet was made. -/
theorem PieceSkb.packets_eq (hl : Layout h.toPktHeaders) (hp : PieceSkb pkt h m good skb)
    (hle : h.ipLen + h.transLen + m.dataOffset + m.gsoSize * m.gsoSegs ≤ pkt.length) :
    skb.packets =
      if 1 < m.gsoSegs then
        (List.range m.gsoSegs).map (piecePacket pkt h m good m.gsoSize m.gsoSegs)
      else [piecePacket pkt h m good (pieceData pkt h m).length 1 0] := by
  unfold RxSkBuff.packets
  rw [hp.gsoSize, hp.gsoSegs]
  split
  · rename_i hgt
    rw [Nat.max_eq_right (Nat.le_of_lt hgt)]
    exact hp.expand hl hle
  · rename_i hle₁
    have h1 : skb.expand (pieceData pkt h m).length 1 =
        (List.range 1).map (piecePacket pkt h m good (pieceData pkt h m).length 1) :=
      hp.own.expand hl (fun _ => hp.lens (Nat.le_of_not_lt hle₁)) (Nat.mul_one _).symm
    exact h1

end Sm8850.Rmnet
