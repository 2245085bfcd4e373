/-
  Coalesced frames in page fragments (`rmnet_descriptor.c`).

  * `fragSegmentData` makes the descriptor of a packet, or of a run of them, of a frame.
  * `rmnetFragSegmentCoalData` cuts a frame into descriptors, `rmnetAllocSkb` makes the packet
    of a descriptor for the stack.
-/
import Sm8850.Rmnet.Coalesce

namespace Sm8850.Rmnet

open Lib.Bytes

variable (K : Csum) (mem : Pages)

/-! ## The frame -/

/-- `rmnet_frag_data_check_coal_header`. -/
def rmnetFragDataCheckCoalHeader (d : FragDescriptor) : Option ℕ :=
  (rmnetFragHeaderPtr mem d mapHeaderSize coalHeaderSize).bind fun b =>
    dataCheckCoalHeader (coalHeader b)

/-- `rmnet_frag_validate_csum`: the bytes are taken from where the first fragment begins. -/
def rmnetFragValidateCsum (d : FragDescriptor) : Bool :=
  match rmnetFragDataPtr d with
  | none => false
  | some (page, off) =>
    let datagramLen := d.len - d.ipLen
    let pseudo := pseudoCsum K d.toPktHeaders (readPage mem page off 40) datagramLen
    K.fold (K.ofBytes (readPage mem page (off + d.ipLen) datagramLen) pseudo) == 0

/-- A coalesced frame without the MAP and the coalescing header, and what these and its
    own headers say. -/
structure CoalFrame where
  hdr : CoalHeader
  headers : ParsedHeaders
  desc : FragDescriptor

/-- The first part of `rmnet_frag_segment_coal_data`: a frame that cannot be used is
    dropped. -/
def coalFrame (d : FragDescriptor) : Option CoalFrame := do
  let hdr ← rmnetFragCopyData mem d mapHeaderSize coalHeaderSize
  let d ← rmnetFragPull d (mapHeaderSize + coalHeaderSize)
  let (page, off) ← rmnetFragDataPtr d
  let headers ← parseHeaders (mem page off).toNat (fragReader mem d)
  some ⟨coalHeader hdr, headers, { d with toPktHeaders := headers.toPktHeaders, hdrsValid := true }⟩

/-! ## Descriptors of packets -/

/-- The sequence number and the flags of the packets, and whether they have a good checksum. -/
def fragSegmentTrans (coal new : FragDescriptor) (csumValid : Bool) :
    Option (FragDescriptor × Bool) :=
  if coal.transProto = IPPROTO_TCP then
    (rmnetFragHeaderPtr mem coal coal.ipLen 20).map fun th =>
      let seq := (be32 th 4 + coal.dataOffset) % 2 ^ 32
      let new := { new with tcpSeq := some seq }
      let end_ := coal.ipLen + coal.transLen + coal.dataOffset + coal.gsoSize * coal.gsoSegs
      -- only the last packet may have the dangerous flags
      if be16 th 12 &&& dangerousFlags ≠ 0 ∧ end_ < coal.len then
        ({ new with tcpFlags := some (clearDangerous (be16 th 12)) }, csumValid)
      else (new, csumValid)
  else if coal.transProto = IPPROTO_UDP then
    (rmnetFragHeaderPtr mem coal coal.ipLen 8).map fun uh =>
      (new, csumValid || (coal.ipProto == 4 && be16 uh 6 == 0))
  else some (new, csumValid)

/-- The identifier of the packets. -/
def fragSegmentIpId (coal new : FragDescriptor) : Option FragDescriptor :=
  if coal.ipProto = 4 then
    (rmnetFragHeaderPtr mem coal 0 20).map fun iph =>
      { new with ipId := some ((be16 iph 4 + coal.pktId) % 2 ^ 16) }
  else some new

/-- `__rmnet_frag_segment_data`: the new descriptor. -/
def fragSegmentData (coal : FragDescriptor) (csumValid : Bool) : Option FragDescriptor := do
  let hlen := coal.ipLen + coal.transLen
  let new ← rmnetFragDescriptorAddFragsFrom { coal with frags := [], len := 0 } coal 0 hlen
  let new ← rmnetFragDescriptorAddFragsFrom new coal (hlen + coal.dataOffset)
    (coal.gsoSize * coal.gsoSegs)
  let (new, csumValid) ← fragSegmentTrans mem coal new csumValid
  let new ← fragSegmentIpId mem coal new
  some { new with csumValid := csumValid }

/-- The frame as one descriptor. -/
def reuseDescriptor (hdr : CoalHeader) (coal : FragDescriptor) (csumValid : Bool) :
    FragDescriptor :=
  let p := hdr.nlPairs.headD ⟨0, 0, 0⟩
  { coal with
    csumValid := csumValid
    gsoSize := (p.pktLen + 2 ^ 16 - (coal.ipLen + coal.transLen) % 2 ^ 16) % 2 ^ 16
    gsoSegs := p.numPackets }

/-- `rmnet_frag_segment_coal_data`: the descriptors it adds to the list. -/
def rmnetFragSegmentCoalData (d : FragDescriptor) (nloErrMask : ℕ) (gro : Bool) :
    List FragDescriptor :=
  match coalFrame mem d with
  | none => []
  | some ⟨hdr, headers, coal⟩ =>
    let gro := gro && headers.plain
    if rmnetMapV5CsumBuggy hdr && !headers.zeroCsum then
      [reuseDescriptor hdr coal (coal.csumValid || rmnetFragValidateCsum K mem coal)]
    else if gro && hdr.numNlos == 1 && hdr.csumValid then [reuseDescriptor hdr coal true]
    else
      (segmentNlos (fun m valid => fragSegmentData mem { coal with toCoalMeta := m } valid) 16 gro
        (coal.ipLen + coal.transLen) (hdr.nlPairs.take hdr.numNlos) 0 nloErrMask
        (coal.toCoalMeta, [])).2

/-! ## Packets for the stack -/

/-- `rmnet_frag_partial_csum`. -/
def rmnetFragPartialCsum (d : FragDescriptor) (skb : RxSkBuff) : RxSkBuff :=
  let pktLen := (skb.len - d.ipLen) % 2 ^ 16
  let header :=
    if d.ipProto = 4 then
      let iph := setBe16 (setBe16 skb.header 2 skb.len) 10 0
      setBe16 iph 10 (K.ipFast (iph.take (byteAt iph 0 % 16 * 4)))
    else setBe16 skb.header 4 (skb.len - 40)
  let header := if d.transProto = IPPROTO_TCP then header else setBe16 header (d.ipLen + 4) pktLen
  { skb with
    header := setBe16 header (checkOffset d.toPktHeaders)
      (pseudoCsum K d.toPktHeaders skb.header pktLen)
    ipSummed := .checksumPartial }

/-- The header of a packet with a bad checksum. -/
def badCsumHeader (d : FragDescriptor) (skb : RxSkBuff) : List UInt8 :=
  let header :=
    if d.ipProto = 4 then
      let check := K.replace2 (be16 skb.header 10) (be16 skb.header 2) skb.len
      setBe16 (setBe16 skb.header 10 check) 2 skb.len
    else setBe16 skb.header 4 (skb.len - 40)
  if d.transProto = IPPROTO_TCP then header else setBe16 header (d.ipLen + 4) (skb.len - d.ipLen)

/-- The checksum offload. -/
def fragCsumOffload (d : FragDescriptor) (skb : RxSkBuff) : RxSkBuff :=
  if d.csumValid && d.hdrsValid then rmnetFragPartialCsum K d skb
  else if d.csumValid then { skb with ipSummed := .checksumUnnecessary }
  else if d.hdrsValid && (d.transProto == IPPROTO_TCP || d.transProto == IPPROTO_UDP) then
    corruptCsum K d.toPktHeaders { skb with header := badCsumHeader K d skb }
  else skb

/-- The header fields that segmentation gives new values: the identifier, -/
def patchIpId (id : Option ℕ) (header : List UInt8) : List UInt8 :=
  match id with
  | none => header
  | some id => setBe16 (setBe16 header 10 (K.replace2 (be16 header 10) (be16 header 4) id)) 4 id

/-- the sequence number, -/
def patchTcpSeq (ipLen : ℕ) (seq : Option ℕ) (header : List UInt8) : List UInt8 :=
  match seq with
  | none => header
  | some seq => setBe32 header (ipLen + 4) seq

/-- and the flags. -/
def patchTcpFlags (ipLen : ℕ) (flags : Option ℕ) (header : List UInt8) : List UInt8 :=
  match flags with
  | none => header
  | some flags => setBe16 header (ipLen + 12) flags

def patchHeader (d : FragDescriptor) (header : List UInt8) : List UInt8 :=
  patchTcpFlags d.ipLen d.tcpFlags (patchTcpSeq d.ipLen d.tcpSeq (patchIpId K d.ipId header))

/-- The headers of a packet and the bytes behind them. -/
def splitHeaders (d : FragDescriptor) : Option (List UInt8 × List UInt8) :=
  if !d.hdrsValid then some ([], d.bytes mem)
  else
    let hdrLen := (d.ipLen + d.transLen) % 2 ^ 16
    match rmnetFragCopyData mem d 0 hdrLen with
    | none => none
    | some header =>
      if hdrLen = d.len then some (header, [])
      else (rmnetFragPull d hdrLen).map fun d => (header, d.bytes mem)

/-- `rmnet_alloc_skb`. -/
def rmnetAllocSkb (d : FragDescriptor) : Option RxSkBuff :=
  (splitHeaders mem d).map fun (header, payload) =>
    let skb := fragCsumOffload K d
      { hdrs := d.toPktHeaders, header := patchHeader K d header, payload := payload }
    let skb := if 1 < d.gsoSegs then gsoStamp d.toPktHeaders d.toCoalMeta skb else skb
    { skb with priority := d.priority }

end Sm8850.Rmnet
