/-
  Coalesced frames: what both receive paths share (`rmnet_descriptor.c`, `rmnet_map_data.c`).

  * `CoalHeader` is the QMAPv5 header of a coalesced frame, `dataCheckCoalHeader` its check.
  * `parseVersion` and `parseTrans` find the IP and the transport header, whichever way the
    bytes are read (`Reader`).
  * `segmentNlos` is the loop that cuts a frame: it asks `emit` for a packet at every point
    where the frame is cut.
  * `RxSkBuff` is a packet for the stack, and `RxSkBuff.packets` are the segments it stands for.
  * The checksum functions of the kernel are a parameter (`Csum`).
-/
import Sm8850.Rmnet.Fragments

namespace Sm8850.Rmnet

open Lib.Bytes

/-! ## The coalescing header -/

/-- `struct rmnet_map_v5_nl_pair`, in the byte order of the host. -/
structure NlPair where
  pktLen : ℕ
  csumErrorBitmap : ℕ
  numPackets : ℕ

/-- `struct rmnet_map_v5_coal_header`. -/
structure CoalHeader where
  numNlos : ℕ
  csumValid : Bool
  closeType : ℕ
  closeValue : ℕ
  nlPairs : List NlPair

/-- `sizeof(struct rmnet_map_v5_coal_header)`. -/
def coalHeaderSize : ℕ := 28

/-- `RMNET_MAP_V5_MAX_NLOS`. -/
def maxNlos : ℕ := 6

/-- `RMNET_MAP_V5_MAX_PACKETS`. -/
def maxPackets : ℕ := 48

def nlPair (b : List UInt8) (i : ℕ) : NlPair :=
  ⟨be16 b (4 + 4 * i), byteAt b (4 + 4 * i + 2), byteAt b (4 + 4 * i + 3)⟩

def coalHeader (b : List UInt8) : CoalHeader where
  numNlos := byteAt b 1 / 16 % 8
  csumValid := byteAt b 1 / 128 == 1
  closeType := byteAt b 2 % 16
  closeValue := byteAt b 2 / 16
  nlPairs := (List.range maxNlos).map (nlPair b)

/-- The loop of the check: the error bits of all pairs, if there are not too many packets.
    The number of packets is kept in a `u8`. -/
def checkPairs : List NlPair → ℕ → ℕ → ℕ → Option ℕ
  | [], _, _, mask => some mask
  | p :: rest, i, pkts, mask =>
    let mask := mask ||| p.csumErrorBitmap <<< (8 * i)
    let pkts := (pkts + p.numPackets) % 2 ^ 8
    if maxPackets < pkts then none else checkPairs rest (i + 1) pkts mask

/-- What `rmnet_frag_data_check_coal_header` and `rmnet_map_data_check_coal_header` find:
    the error mask; `none` stands for `-EINVAL`. -/
def dataCheckCoalHeader (hdr : CoalHeader) : Option ℕ :=
  if hdr.numNlos = 0 ∨ maxNlos < hdr.numNlos then none else checkPairs hdr.nlPairs 0 0 0

/-- `rmnet_map_v5_csum_buggy`. -/
def rmnetMapV5CsumBuggy (hdr : CoalHeader) : Bool :=
  if hdr.numNlos ≠ 1 ∨ (hdr.nlPairs.head?.map NlPair.numPackets) ≠ some 1 then false
  else if hdr.closeType = 4 then true -- `RMNET_MAP_COAL_CLOSE_COAL`
  else if hdr.closeType = 3 then -- `RMNET_MAP_COAL_CLOSE_HW`
    match hdr.closeValue with
    | 1 => true -- `RMNET_MAP_COAL_CLOSE_HW_PKT`
    | 2 => true -- `RMNET_MAP_COAL_CLOSE_HW_BYTE`
    | 3 => true -- `RMNET_MAP_COAL_CLOSE_HW_TIME`
    | _ => false
  else false

/-! ## The IP and the transport header -/

/-- A way to read bytes, which does not go beyond their end. -/
@[ext] structure Reader where
  limit : ℕ
  read : ℕ → ℕ → Option (List UInt8)
  read_le : ∀ {off len b}, read off len = some b → off + len ≤ limit

/-- Bytes in one piece. -/
def flatReader (bytes : List UInt8) : Reader where
  limit := bytes.length
  read := slice bytes
  read_le h := (slice_eq_some h).1

/-- The bytes of a descriptor. -/
def fragReader (mem : Pages) (d : FragDescriptor) : Reader where
  limit := d.len
  read := rmnetFragHeaderPtr mem d
  read_le h := by
    unfold rmnetFragHeaderPtr at h
    split at h
    · cases h
    · omega

/-- The headers, whether they let the packets be coalesced, and whether there is no checksum
    (UDP over IPv4). -/
structure ParsedHeaders extends PktHeaders where
  plain : Bool
  zeroCsum : Bool := false
  deriving DecidableEq

def IPPROTO_TCP : ℕ := 6

def IPPROTO_UDP : ℕ := 17

def NEXTHDR_FRAGMENT : ℕ := 44

def NEXTHDR_AUTH : ℕ := 51

def NEXTHDR_NONE : ℕ := 59

/-- `ipv6_ext_hdr`. -/
def ipv6ExtHdr (nexthdr : ℕ) : Bool :=
  nexthdr ∈ [0, 43, NEXTHDR_FRAGMENT, NEXTHDR_AUTH, NEXTHDR_NONE, 60]

/-- The length of an extension header. -/
def extHdrLen (nexthdr : ℕ) (hp : List UInt8) : ℕ :=
  if nexthdr = NEXTHDR_AUTH then (byteAt hp 1 + 2) * 4 else (byteAt hp 1 + 1) * 8

/-- What is behind the extension headers. -/
structure ExtHdrs where
  start : ℕ
  nexthdr : ℕ
  fragOff : ℕ
  fragHdr : Bool

/-- `rmnet_frag_ipv6_skip_exthdr`; `none` stands for `-EINVAL`. -/
def ipv6SkipExthdr (r : Reader) (start nexthdr fragOff : ℕ) (fragHdr : Bool) : Option ExtHdrs :=
  if !ipv6ExtHdr nexthdr then some ⟨start, nexthdr, fragOff, fragHdr⟩
  else if nexthdr = NEXTHDR_NONE then none
  else
    match _h : r.read start 2 with
    | none => none
    | some hp =>
      if nexthdr = NEXTHDR_FRAGMENT then
        match r.read (start + 2) 2 with
        | none => none
        | some fp =>
          -- the offset proper of a fragment
          if be16 fp 0 / 8 ≠ 0 then some ⟨start, nexthdr, be16 fp 0, true⟩
          else ipv6SkipExthdr r (start + 8) (byteAt hp 0) (be16 fp 0) true
      else
        ipv6SkipExthdr r (start + extHdrLen nexthdr hp) (byteAt hp 0) fragOff fragHdr
termination_by r.limit - start
decreasing_by
  · have := r.read_le _h
    omega
  · have := r.read_le _h
    unfold extHdrLen
    split <;> omega

/-- The IPv4 header. -/
def parseIpv4 (r : Reader) : Option ParsedHeaders :=
  (r.read 0 20).map fun iph =>
    { ipProto := 4, ipLen := byteAt iph 0 % 16 * 4, transProto := byteAt iph 9,
      -- no coalescing of packets with IP options
      plain := byteAt iph 0 % 16 == 5 }

/-- The IPv6 header, as `rmnet_frag_segment_coal_data` reads it. -/
def parseIpv6 (r : Reader) : Option ParsedHeaders :=
  match r.read 0 40 with
  | none => none
  | some ip6h =>
    match ipv6SkipExthdr r 40 (byteAt ip6h 6) 0 false with
    | none => none
    | some ext =>
      if ext.fragOff ≠ 0 then none
      else
        some { ipProto := 6, ipLen := ext.start % 2 ^ 16, transProto := ext.nexthdr,
               -- nor of ones with extension headers
               plain := !ext.fragHdr && ext.start % 2 ^ 16 ≤ 40 }

/-- The transport header. -/
def parseTrans (r : Reader) (h : ParsedHeaders) : Option ParsedHeaders :=
  if h.transProto = IPPROTO_TCP then
    (r.read h.ipLen 20).map fun th => { h with transLen := byteAt th 12 / 16 * 4 }
  else if h.transProto = IPPROTO_UDP then
    (r.read h.ipLen 8).map fun uh =>
      { h with transLen := 8, zeroCsum := h.ipProto == 4 && be16 uh 6 == 0 }
  else none

/-- The headers of a packet with this version byte. -/
def parseHeaders (version : ℕ) (r : Reader) : Option ParsedHeaders :=
  if version / 16 = 4 then (parseIpv4 r).bind (parseTrans r)
  else if version / 16 = 6 then (parseIpv6 r).bind (parseTrans r)
  else none

/-! ## Cutting -/

section Cutting

variable {β : Type}

/-- `__rmnet_frag_segment_data` and `__rmnet_map_segment_coal_skb`, as far as they are the
    same: the packet goes to the end of the list, and the frame is moved past its data.
    Without the packet nothing changes. -/
def segmentData (emit : CoalMeta → Bool → Option β) (pktId : ℕ) (csumValid : Bool)
    (s : CoalMeta × List β) : CoalMeta × List β :=
  match emit s.1 csumValid with
  | none => s
  | some packet =>
    ({ s.1 with
        dataOffset := (s.1.dataOffset + s.1.gsoSize * s.1.gsoSegs) % 2 ^ 16
        pktId := (pktId + 1) % 2 ^ 8
        gsoSegs := 0 }, s.2 ++ [packet])

def setSegs (n : ℕ) (s : CoalMeta × List β) : CoalMeta × List β :=
  ({ s.1 with gsoSegs := n }, s.2)

/-- What is pending is sent out. -/
def flushData (emit : CoalMeta → Bool → Option β) (pktId : ℕ) (s : CoalMeta × List β) :
    CoalMeta × List β :=
  if s.1.gsoSegs ≠ 0 then segmentData emit pktId true s else s

/-- One packet of the frame: without GRO it is sent out by itself, with GRO a good one is
    kept back, and a bad one is sent out after what was.  The packets kept back are counted
    in a word of `bits` bits. -/
def segmentPacket (emit : CoalMeta → Bool → Option β) (bits : ℕ) (gro : Bool) (totalPkt : ℕ)
    (csumErr : Bool) (s : CoalMeta × List β) : CoalMeta × List β :=
  if !gro then segmentData emit totalPkt (!csumErr) (setSegs 1 s)
  else if csumErr then
    segmentData emit totalPkt false (setSegs 1 (flushData emit totalPkt s))
  else setSegs ((s.1.gsoSegs + 1) % 2 ^ bits) s

/-- The packets of an NLO: afterwards the number of packets so far, and what is left of the
    error mask. -/
def segmentPackets (emit : CoalMeta → Bool → Option β) (bits : ℕ) (gro : Bool) :
    ℕ → ℕ → ℕ → CoalMeta × List β → ℕ × ℕ × (CoalMeta × List β)
  | 0, totalPkt, mask, s => (totalPkt, mask, s)
  | n + 1, totalPkt, mask, s =>
    segmentPackets emit bits gro n ((totalPkt + 1) % 2 ^ 8) (mask >>> 1)
      (segmentPacket emit bits gro totalPkt (mask.testBit 0) s)

/-- The NLOs: packets of another length are not sent out together. -/
def segmentNlos (emit : CoalMeta → Bool → Option β) (bits : ℕ) (gro : Bool) (hlen : ℕ) :
    List NlPair → ℕ → ℕ → CoalMeta × List β → CoalMeta × List β
  | [], _, _, s => s
  | p :: rest, totalPkt, mask, s =>
    let s := ({ s.1 with gsoSize := (p.pktLen + 2 ^ 16 - hlen % 2 ^ 16) % 2 ^ 16 }, s.2)
    let (totalPkt, mask, s) := segmentPackets emit bits gro p.numPackets totalPkt mask s
    segmentNlos emit bits gro hlen rest totalPkt mask (flushData emit totalPkt s)

end Cutting

/-! ## Checksums -/

/-- The checksum functions of the kernel: `csum_tcpudp_magic` and `csum_ipv6_magic` (of both
    addresses, the length and the protocol), `csum_partial`, `csum_fold`, `ip_fast_csum`,
    `csum_replace2` and `csum16_add`. -/
structure Csum where
  tcpudpMagic : List UInt8 → ℕ → ℕ → ℕ
  ipv6Magic : List UInt8 → ℕ → ℕ → ℕ
  ofBytes : List UInt8 → ℕ → ℕ
  fold : ℕ → ℕ
  ipFast : List UInt8 → ℕ
  replace2 : ℕ → ℕ → ℕ → ℕ
  add16 : ℕ → ℕ → ℕ

/-- The sum of the 16-bit words. -/
def wordSum : List UInt8 → ℕ
  | [] => 0
  | [a] => a.toNat * 256
  | a :: b :: rest => a.toNat * 256 + b.toNat + wordSum rest

/-- A sum in one's complement, inverted. -/
def inetFold (n : ℕ) : ℕ := 65535 - (if n = 0 then 0 else (n - 1) % 65535 + 1)

/-- The Internet checksum. -/
def inetCsum : Csum where
  tcpudpMagic addrs len proto := inetFold (wordSum addrs + len + proto)
  ipv6Magic addrs len proto := inetFold (wordSum addrs + len + proto)
  ofBytes l init := init + wordSum l
  fold := inetFold
  ipFast l := inetFold (wordSum l)
  replace2 check old new := inetFold ((65535 - check) + (65535 - old) + new)
  add16 a b := (a + b) % 65536 + (a + b) / 65536

/-- The pseudo header, for the IP header the bytes begin with. -/
def pseudoCsum (K : Csum) (h : PktHeaders) (ip : List UInt8) (len : ℕ) : ℕ :=
  if h.ipProto = 4 then 65535 - K.tcpudpMagic ((ip.drop 12).take 8) len h.transProto
  else 65535 - K.ipv6Magic ((ip.drop 8).take 32) len h.transProto

/-! ## Packets for the stack -/

inductive IpSummed
  | checksumNone
  | checksumUnnecessary
  | checksumPartial
  deriving DecidableEq

inductive GsoType
  | tcpv4
  | tcpv6
  | udpL4

/-- `struct sk_buff`: the IP and the transport header, where they are, and what is behind
    them. -/
structure RxSkBuff where
  hdrs : PktHeaders
  header : List UInt8
  payload : List UInt8
  ipSummed : IpSummed := .checksumNone
  gsoType : Option GsoType := none
  gsoSize : ℕ := 0
  gsoSegs : ℕ := 0
  priority : ℕ := 0

def RxSkBuff.len (skb : RxSkBuff) : ℕ := skb.header.length + skb.payload.length

/-- `rmnet_frag_gso_stamp` and `rmnet_map_gso_stamp`. -/
def gsoStamp (h : PktHeaders) (m : CoalMeta) (skb : RxSkBuff) : RxSkBuff :=
  { skb with
    gsoType := some (if h.transProto = IPPROTO_TCP then
      if h.ipProto = 4 then .tcpv4 else .tcpv6 else .udpL4)
    gsoSize := m.gsoSize
    gsoSegs := m.gsoSegs }

/-- The offset of the checksum in the transport header. -/
def checkOffset (h : PktHeaders) : ℕ :=
  if h.transProto = IPPROTO_TCP then h.ipLen + 16 else h.ipLen + 6

/-- The faked bad checksum: the right one, plus one. -/
def corruptCsum (K : Csum) (h : PktHeaders) (skb : RxSkBuff) : RxSkBuff :=
  let header := setBe16 skb.header (checkOffset h)
    (pseudoCsum K h skb.header (skb.len - h.ipLen))
  let csum := K.ofBytes ((header ++ skb.payload).drop h.ipLen) 0
  { skb with
    header := setBe16 header (checkOffset h) (K.add16 (K.fold csum) 1)
    ipSummed := .checksumNone }

/-- FIN and PSH. -/
def dangerousFlags : ℕ := 0x0009

def clearDangerous (flags : ℕ) : ℕ := flags &&& 0xFFF6

/-- `CWR`. -/
def clearCwr (flags : ℕ) : ℕ := flags &&& 0xFF7F

/-- A packet as the stack sees it: `ipTotalLen` is `payload_len` over IPv6, and the fields of
    other protocols are not there. -/
structure Packet where
  payload : List UInt8
  ipId : Option ℕ
  ipTotalLen : ℕ
  tcpSeq : Option ℕ
  tcpFlags : Option ℕ
  udpLen : Option ℕ
  csumGood : Bool
  deriving DecidableEq

/-- A value that only packets of one protocol have. -/
def only (p : Prop) [Decidable p] (v : ℕ) : Option ℕ := if p then some v else none

/-- The packet that is not segmented. -/
def RxSkBuff.packet (skb : RxSkBuff) : Packet where
  payload := skb.payload
  ipId := only (skb.hdrs.ipProto = 4) (be16 skb.header 4)
  ipTotalLen := if skb.hdrs.ipProto = 4 then be16 skb.header 2 else be16 skb.header 4
  tcpSeq := only (skb.hdrs.transProto = IPPROTO_TCP) (be32 skb.header (skb.hdrs.ipLen + 4))
  tcpFlags := only (skb.hdrs.transProto = IPPROTO_TCP) (be16 skb.header (skb.hdrs.ipLen + 12))
  udpLen := only (skb.hdrs.transProto = IPPROTO_UDP) (be16 skb.header (skb.hdrs.ipLen + 4))
  csumGood := skb.ipSummed != .checksumNone

/-- The `i`-th of the segments that GSO cuts a packet into: identifiers count up, the
    dangerous flags are left to the last one and CWR to the first one. -/
def RxSkBuff.segment (skb : RxSkBuff) (size segs i : ℕ) : Packet :=
  let h := skb.hdrs
  let chunk := (skb.payload.drop (i * size)).take size
  let len := skb.header.length + chunk.length
  let flags := be16 skb.header (h.ipLen + 12)
  let flags := if i + 1 < segs then clearDangerous flags else flags
  let flags := if 0 < i then clearCwr flags else flags
  { payload := chunk
    ipId := only (h.ipProto = 4) ((be16 skb.header 4 + i) % 2 ^ 16)
    ipTotalLen := if h.ipProto = 4 then len else len - 40
    tcpSeq := only (h.transProto = IPPROTO_TCP)
      ((be32 skb.header (h.ipLen + 4) + i * size) % 2 ^ 32)
    tcpFlags := only (h.transProto = IPPROTO_TCP) flags
    udpLen := only (h.transProto = IPPROTO_UDP) (8 + chunk.length)
    csumGood := skb.ipSummed != .checksumNone }

/-- A packet expanded into this many segments of this size. -/
def RxSkBuff.expand (skb : RxSkBuff) (size segs : ℕ) : List Packet :=
  if segs = 1 then [skb.packet] else (List.range segs).map (skb.segment size segs)

/-- What a packet for the stack stands for. -/
def RxSkBuff.packets (skb : RxSkBuff) : List Packet :=
  skb.expand skb.gsoSize (max 1 skb.gsoSegs)

end Sm8850.Rmnet
