/-
  Coalesced frames in a linear buffer (`rmnet_map_data.c`).

  * The headers are where the bytes are; extension headers are skipped by the kernel
    (`ipv6_skip_exthdr`), which is a parameter.
  * `mapSegmentCoalSkb` makes the packet of a piece of a frame, and
    `rmnetMapSegmentCoalSkb` cuts a frame into packets.
-/
import Sm8850.Rmnet.Coalesce

namespace Sm8850.Rmnet

open Lib.Bytes

/-- `ipv6_skip_exthdr`: from the bytes, an offset and the first `nexthdr`, the offset of what
    is behind the extension headers (`none` stands for a negative value), its `nexthdr`, and
    `frag_off`. -/
abbrev SkipExthdr := List UInt8 → ℕ → ℕ → Option ℕ × ℕ × ℕ

variable (K : Csum) (skip : SkipExthdr)

/-! ## The frame -/

/-- `rmnet_map_data_check_coal_header`. -/
def rmnetMapDataCheckCoalHeader (bytes : List UInt8) : Option ℕ :=
  (slice bytes mapHeaderSize coalHeaderSize).bind fun b => dataCheckCoalHeader (coalHeader b)

/-- The IPv6 header, as `rmnet_map_segment_coal_skb` reads it.  The length is kept in a `u16`,
    so the test for a negative one never holds; a failure leaves `nexthdr` alone. -/
def mapParseIpv6 (pkt : List UInt8) : Option ParsedHeaders :=
  match slice pkt 0 40 with
  | none => none
  | some ip6h =>
    match skip pkt 40 (byteAt ip6h 6) with
    | (start, nexthdr, fragOff) =>
      let ipLen := start.getD (2 ^ 16 - 1) % 2 ^ 16
      if fragOff ≠ 0 then none
      else
        some { ipProto := 6, ipLen := ipLen, transProto := nexthdr, plain := decide (ipLen ≤ 40) }

/-- The headers of a packet. -/
def mapParseHeaders (pkt : List UInt8) : Option ParsedHeaders :=
  let version := byteAt pkt 0
  if version / 16 = 4 then (parseIpv4 (flatReader pkt)).bind (parseTrans (flatReader pkt))
  else if version / 16 = 6 then (mapParseIpv6 skip pkt).bind (parseTrans (flatReader pkt))
  else none

/-- `rmnet_map_validate_csum`. -/
def rmnetMapValidateCsum (h : PktHeaders) (pkt : List UInt8) : Bool :=
  let datagramLen := pkt.length - h.ipLen
  K.fold (K.ofBytes ((pkt.drop h.ipLen).take datagramLen) (pseudoCsum K h pkt datagramLen)) == 0

/-! ## Packets -/

/-- `rmnet_map_partial_csum`. -/
def rmnetMapPartialCsum (h : PktHeaders) (skb : RxSkBuff) : RxSkBuff :=
  { skb with
    header := setBe16 skb.header (checkOffset h)
      (pseudoCsum K h skb.header ((skb.len - h.ipLen) % 2 ^ 16))
    ipSummed := .checksumPartial }

/-- The transport header of a piece of a frame: the sequence number and the flags, or the
    length of the UDP packet. -/
def mapTransHeader (h : PktHeaders) (m : CoalMeta) (pktLen : ℕ) (header : List UInt8) :
    List UInt8 :=
  let dlen := m.gsoSize * m.gsoSegs
  if h.transProto = IPPROTO_TCP then
    let flags := be16 header (h.ipLen + 12)
    let header := setBe32 header (h.ipLen + 4) (be32 header (h.ipLen + 4) + m.dataOffset)
    if flags &&& dangerousFlags ≠ 0 ∧ h.ipLen + h.transLen + m.dataOffset + dlen < pktLen then
      setBe16 header (h.ipLen + 12) (clearDangerous flags)
    else header
  else setBe16 header (h.ipLen + 4) (h.transLen + dlen)

/-- The IP header of a piece of a frame. -/
def mapIpHeader (h : PktHeaders) (m : CoalMeta) (len : ℕ) (header : List UInt8) : List UInt8 :=
  if h.ipProto = 4 then
    let iph := setBe16 header 4 (be16 header 4 + m.pktId)
    let iph := setBe16 (setBe16 iph 2 len) 10 0
    setBe16 iph 10 (K.ipFast (iph.take (byteAt iph 0 % 16 * 4)))
  else setBe16 header 4 (len - 40)

/-- `__rmnet_map_segment_coal_skb`: the new packet. -/
def mapSegmentCoalSkb (h : ParsedHeaders) (pkt : List UInt8) (priority : ℕ) (m : CoalMeta)
    (csumValid : Bool) : Option RxSkBuff :=
  let hlen := h.ipLen + h.transLen
  let payload := (pkt.drop (hlen + m.dataOffset)).take (m.gsoSize * m.gsoSegs)
  let header := mapTransHeader h.toPktHeaders m pkt.length (pkt.take hlen)
  let header := mapIpHeader K h.toPktHeaders m (hlen + payload.length) header
  let skb : RxSkBuff := { hdrs := h.toPktHeaders, header := header, payload := payload }
  let skb :=
    if csumValid || h.zeroCsum then rmnetMapPartialCsum K h.toPktHeaders skb
    else corruptCsum K h.toPktHeaders skb
  let skb := if 1 < m.gsoSegs then gsoStamp h.toPktHeaders m skb else skb
  some { skb with priority := priority }

/-- The frame as one packet, its headers as they are. -/
def reuseSkb (h : ParsedHeaders) (pkt : List UInt8) (priority : ℕ) (ipSummed : IpSummed) :
    RxSkBuff :=
  { hdrs := h.toPktHeaders, header := pkt.take (h.ipLen + h.transLen),
    payload := pkt.drop (h.ipLen + h.transLen), ipSummed := ipSummed, priority := priority }

/-- The frame as one packet with a good checksum. -/
def reuseGoodSkb (hdr : CoalHeader) (h : ParsedHeaders) (pkt : List UInt8) (priority : ℕ) :
    RxSkBuff :=
  let p := hdr.nlPairs.headD ⟨0, 0, 0⟩
  let hlen := h.ipLen + h.transLen
  let m : CoalMeta :=
    { gsoSize := (p.pktLen + 2 ^ 16 - hlen % 2 ^ 16) % 2 ^ 16, gsoSegs := p.numPackets }
  let skb := reuseSkb h pkt priority .checksumUnnecessary
  if 1 < m.gsoSegs then
    gsoStamp h.toPktHeaders m (rmnetMapPartialCsum K h.toPktHeaders skb)
  else skb

/-- `rmnet_map_segment_coal_skb`: the packets it adds to the list. -/
def rmnetMapSegmentCoalSkb (bytes : List UInt8) (priority nloErrMask : ℕ) (gro : Bool) :
    List RxSkBuff :=
  let hdr := coalHeader ((bytes.drop mapHeaderSize).take coalHeaderSize)
  let pkt := bytes.drop (mapHeaderSize + coalHeaderSize)
  match mapParseHeaders skip pkt with
  | none => []
  | some h =>
    let gro := gro && h.plain
    if rmnetMapV5CsumBuggy hdr && !h.zeroCsum then
      [reuseSkb h pkt priority
        (if rmnetMapValidateCsum K h.toPktHeaders pkt then .checksumUnnecessary
          else .checksumNone)]
    else if gro && hdr.numNlos == 1 && hdr.csumValid then [reuseGoodSkb K hdr h pkt priority]
    else
      (segmentNlos (mapSegmentCoalSkb K h pkt priority) 8 gro (h.ipLen + h.transLen)
        (hdr.nlPairs.take hdr.numNlos) 0 nloErrMask ({}, [])).2

end Sm8850.Rmnet
