/-
  Where frag descriptors go (`rmnet_descriptor.c`): the receive path with its pool.

  * A `Pool` counts the descriptors that were taken, and lists the ones that were given back
    and the ones that went to the offload hook.  Every taking has a number of its own.
  * Memory may run out at any request, and the hook may take a list or not (`Answers`).
  * The functions are those of the source up to what they do to a packet, which is what the
    functions of the same name without a pool do.
-/
import Sm8850.Rmnet.FragCoalesce

namespace Sm8850.Rmnet.Custody

/-! ## The pool -/

/-- What the memory and the offload hook answer, at every call. -/
structure Answers where
  alloc : ℕ → Bool
  offload : ℕ → Bool

structure Pool where
  asked : ℕ := 0
  offered : ℕ := 0
  got : ℕ := 0
  recycled : List ℕ := []
  offloaded : List ℕ := []
  deriving DecidableEq

abbrev Run := StateM Pool

/-- A descriptor with its number. -/
abbrev Taken := ℕ × FragDescriptor

/-- Every descriptor that was taken was given back, or went to the hook, just once. -/
def Pool.Conserved (s : Pool) : Prop :=
  ∀ t < s.got, s.recycled.count t + s.offloaded.count t = 1

/-- `rmnet_recycle_frag_descriptor`. -/
def rmnetRecycleFragDescriptor (t : ℕ) : Run Unit := fun s =>
  ((), { s with recycled := s.recycled ++ [t] })

def offloadAll (l : List Taken) : Run Unit := fun s =>
  ((), { s with offloaded := s.offloaded ++ l.map Prod.fst })

def take : Run ℕ := fun s => (s.got, { s with got := s.got + 1 })

section

variable (w : Answers)

/-- `kzalloc` and `alloc_skb`. -/
def alloc : Run Bool := fun s => (w.alloc s.asked, { s with asked := s.asked + 1 })

/-- `rmnet_module_hook_offload_ingress`. -/
def rmnetModuleHookOffloadIngress : Run Bool := fun s =>
  (w.offload s.offered, { s with offered := s.offered + 1 })

/-- `rmnet_get_frag_descriptor`: there is none if the pool is empty and there is no memory. -/
def rmnetGetFragDescriptor : Run (Option ℕ) := do
  if ← alloc w then some <$> take else pure none

/-- The memory for this many fragments. -/
def allocFragments : ℕ → Run Bool
  | 0 => pure true
  | n + 1 => do
    if ← alloc w then allocFragments n else pure false

/-- `rmnet_frag_descriptor_add_frags_from`. -/
def rmnetFragDescriptorAddFragsFrom (dst src : FragDescriptor) (off len : ℕ) :
    Run (Option FragDescriptor) :=
  match Rmnet.rmnetFragDescriptorAddFragsFrom dst src off len with
  | none => pure none
  | some new => do
    if ← allocFragments w (new.frags.length - dst.frags.length) then pure (some new)
    else pure none

/-- `rmnet_frag_pull`. -/
def rmnetFragPull (t : ℕ) (d : FragDescriptor) (size : ℕ) : Run (Option FragDescriptor) :=
  match Rmnet.rmnetFragPull d size with
  | none => do
    rmnetRecycleFragDescriptor t
    pure none
  | some d => pure (some d)

/-- `rmnet_frag_trim`. -/
def rmnetFragTrim (t : ℕ) (d : FragDescriptor) (size : ℕ) : Run (Option FragDescriptor) :=
  match Rmnet.rmnetFragTrim d size with
  | none => do
    rmnetRecycleFragDescriptor t
    pure none
  | some d => pure (some d)

/-! ## Deaggregation -/

/-- `rmnet_frag_deaggregate_one`. -/
def rmnetFragDeaggregateOne (mem : Pages) (dataFormat : UInt32) (skb : Skb) (start : ℕ) :
    Run (Option Taken) :=
  match startFragment start 0 skb.frags with
  | none => pure none
  | some (offset, frag, rest) =>
    let first : SkbFrag :=
      ⟨frag.page, frag.off + (start - offset), frag.size - (start - offset)⟩
    match readBits mem skb first start 0 mapHeaderSize with
    | none => pure none
    | some maph =>
      -- an empty frame
      if mapPktLen maph = 0 then pure none
      else do
        match ← rmnetGetFragDescriptor w with
        | none => pure none
        | some t =>
          match nextHeaderSize mem dataFormat skb first start maph with
          -- the type of the v5 header cannot be copied
          | none => pure none
          | some hsize =>
            let (pktLen, d) := copyFragments (first :: rest)
              (mapPktLen maph + mapHeaderSize + hsize) 0
              { Rmnet.rmnetGetFragDescriptor with priority := skb.priority }
            if (← allocFragments w d.frags.length) && pktLen = 0 then pure (some (t, d))
            else do
              rmnetRecycleFragDescriptor t
              pure none

/-- The loop of `rmnet_frag_deaggregate`, with as many turns as there are bytes. -/
def deaggregateFrom (mem : Pages) (dataFormat : UInt32) (skb : Skb) :
    ℕ → ℕ → Run (List Taken)
  | 0, _ => pure []
  | turns + 1, start => do
    if start < skb.len then
      match ← rmnetFragDeaggregateOne w mem dataFormat skb start with
      | none => pure []
      | some (t, d) =>
        let list ← deaggregateFrom mem dataFormat skb turns (start + d.len)
        pure ((t, d) :: list)
    else pure []

/-- `rmnet_frag_deaggregate`. -/
def rmnetFragDeaggregate (mem : Pages) (dataFormat : UInt32) (skb : Skb) : Run (List Taken) :=
  deaggregateFrom w mem dataFormat skb skb.len 0

/-! ## Cutting -/

/-- What `__rmnet_frag_segment_data` adds to a new descriptor. -/
def fillSegment (mem : Pages) (coal : FragDescriptor) (csumValid : Bool) :
    Run (Option FragDescriptor) := do
  let hlen := coal.ipLen + coal.transLen
  match ← rmnetFragDescriptorAddFragsFrom w { coal with frags := [], len := 0 } coal 0 hlen with
  | none => pure none
  | some new =>
    match ← rmnetFragDescriptorAddFragsFrom w new coal (hlen + coal.dataOffset)
        (coal.gsoSize * coal.gsoSegs) with
    | none => pure none
    | some new => pure do
      let (new, csumValid) ← fragSegmentTrans mem coal new csumValid
      let new ← fragSegmentIpId mem coal new
      some { new with csumValid := csumValid }

/-- `__rmnet_frag_segment_data`: the new descriptor. -/
def fragSegmentData (mem : Pages) (coal : FragDescriptor) (csumValid : Bool) :
    Run (Option Taken) := do
  match ← rmnetGetFragDescriptor w with
  | none => pure none
  | some t =>
    match ← fillSegment w mem coal csumValid with
    | none =>
      rmnetRecycleFragDescriptor t
      pure none
    | some new => pure (some (t, new))

end

section Cutting

/-! The loops over the packets of a frame are those of `segmentNlos`. -/

variable (emit : CoalMeta → Bool → Run (Option Taken))

def segmentData (pktId : ℕ) (csumValid : Bool) (s : CoalMeta × List Taken) :
    Run (CoalMeta × List Taken) := do
  let packet ← emit s.1 csumValid
  pure (Rmnet.segmentData (fun _ _ => packet) pktId csumValid s)

def flushData (pktId : ℕ) (s : CoalMeta × List Taken) : Run (CoalMeta × List Taken) :=
  if s.1.gsoSegs ≠ 0 then segmentData emit pktId true s else pure s

def segmentPacket (gro : Bool) (totalPkt : ℕ) (csumErr : Bool) (s : CoalMeta × List Taken) :
    Run (CoalMeta × List Taken) :=
  if !gro then segmentData emit totalPkt (!csumErr) (setSegs 1 s)
  else if csumErr then do
    let s ← flushData emit totalPkt s
    segmentData emit totalPkt false (setSegs 1 s)
  else pure (setSegs ((s.1.gsoSegs + 1) % 2 ^ 16) s)

def segmentPackets (gro : Bool) :
    ℕ → ℕ → ℕ → CoalMeta × List Taken → Run (ℕ × ℕ × (CoalMeta × List Taken))
  | 0, totalPkt, mask, s => pure (totalPkt, mask, s)
  | n + 1, totalPkt, mask, s => do
    let s ← segmentPacket emit gro totalPkt (mask.testBit 0) s
    segmentPackets gro n ((totalPkt + 1) % 2 ^ 8) (mask >>> 1) s

def segmentNlos (gro : Bool) (hlen : ℕ) :
    List NlPair → ℕ → ℕ → CoalMeta × List Taken → Run (CoalMeta × List Taken)
  | [], _, _, s => pure s
  | p :: rest, totalPkt, mask, s => do
    let s := ({ s.1 with gsoSize := (p.pktLen + 2 ^ 16 - hlen % 2 ^ 16) % 2 ^ 16 }, s.2)
    let (totalPkt, mask, s) ← segmentPackets emit gro p.numPackets totalPkt mask s
    let s ← flushData emit totalPkt s
    segmentNlos gro hlen rest totalPkt mask s

end Cutting

section

variable (w : Answers) (K : Csum) (mem : Pages)

/-- The frame goes on as it is. -/
def reuses (frame : CoalFrame) (gro : Bool) : Bool :=
  rmnetMapV5CsumBuggy frame.hdr && !frame.headers.zeroCsum ||
    gro && frame.headers.plain && frame.hdr.numNlos == 1 && frame.hdr.csumValid

/-- `rmnet_frag_segment_coal_data`: the descriptors it adds to the list.  `coalFrame` copies
    and pulls the headers once more. -/
def rmnetFragSegmentCoalData (t : ℕ) (d : FragDescriptor) (nloErrMask : ℕ) (gro : Bool) :
    Run (List Taken) :=
  match rmnetFragCopyData mem d mapHeaderSize coalHeaderSize with
  | none => pure []
  | some _ => do
    match ← rmnetFragPull t d (mapHeaderSize + coalHeaderSize) with
    | none => pure []
    | some _ =>
      match coalFrame mem d with
      | none => pure []
      | some ⟨hdr, headers, coal⟩ =>
        let gro := gro && headers.plain
        if rmnetMapV5CsumBuggy hdr && !headers.zeroCsum then
          pure [(t, reuseDescriptor hdr coal (coal.csumValid || rmnetFragValidateCsum K mem coal))]
        else if gro && hdr.numNlos == 1 && hdr.csumValid then
          pure [(t, reuseDescriptor hdr coal true)]
        else do
          let s ← segmentNlos
            (fun m valid => fragSegmentData w mem { coal with toCoalMeta := m } valid) gro
            (coal.ipLen + coal.transLen) (hdr.nlPairs.take hdr.numNlos) 0 nloErrMask
            (coal.toCoalMeta, [])
          pure s.2

/-! ## The ingress handler -/

/-- The device of an endpoint, with its `NETIF_F_GRO_HW`. -/
structure Dev where
  gro : Bool

/-- `struct rmnet_port`: `endpoint` is `rmnet_get_endpoint`. -/
structure Port where
  dataFormat : UInt32
  endpoint : ℕ → Option Dev

def RMNET_MAX_LOGICAL_EP : ℕ := 255

/-- The priority of a packet that is not for the offload hook. -/
def skipPerf : ℕ := 0xda1a

/-- `pad_len` of a `struct rmnet_map_header`. -/
def mapPadLen (maph : List UInt8) : ℕ := (maph.getD 0 0 &&& 0x3F).toNat

/-- `next_hdr` of a `struct rmnet_map_header`. -/
def mapNextHdr (maph : List UInt8) : Bool := maph.getD 0 0 &&& 0x40 != 0

/-- `mux_id` of a `struct rmnet_map_header`. -/
def mapMuxId (maph : List UInt8) : ℕ := (maph.getD 1 0).toNat

/-- The length of a packet without its padding, in a `u16`. -/
def packetLen (maph : List UInt8) : ℕ := (mapPktLen maph + 2 ^ 16 - mapPadLen maph) % 2 ^ 16

/-- `sizeof(struct rmnet_map_v5_csum_header)`. -/
def csumHeaderSize : ℕ := 4

/-- `header_type` of a v5 header. -/
def headerType (hdr : List UInt8) : ℕ := ((hdr.getD 0 0 &&& 0xFE) >>> 1).toNat

def RMNET_MAP_HEADER_TYPE_COALESCING : ℕ := 1

def RMNET_MAP_HEADER_TYPE_CSUM_OFFLOAD : ℕ := 2

/-- The packet goes on without the first `size` bytes, and without its padding. -/
def stripPacket (t : ℕ) (d : FragDescriptor) (size len : ℕ) : Run (Option (List Taken)) := do
  match ← rmnetFragPull t d size with
  | none => pure none
  | some d =>
    match ← rmnetFragTrim t d len with
    | none => pure none
    | some d => pure (some [(t, d)])

/-- `rmnet_frag_process_next_hdr_packet`: the list of packets; `none` stands for `-EINVAL`.
    What the checksum of a packet is worth is left out, the pool has no part in it. -/
def rmnetFragProcessNextHdrPacket (dev : Dev) (t : ℕ) (d : FragDescriptor) (len : ℕ) :
    Run (Option (List Taken)) :=
  match rmnetFragHeaderPtr mem d mapHeaderSize csumHeaderSize with
  | none => pure none
  | some hdr =>
    if headerType hdr = RMNET_MAP_HEADER_TYPE_COALESCING then
      match rmnetFragDataCheckCoalHeader mem d with
      | none => pure none
      | some nloErrMask => do
        let list ← rmnetFragSegmentCoalData w K mem t d nloErrMask dev.gro
        if list.head?.map Prod.fst ≠ some t then rmnetRecycleFragDescriptor t
        pure (some list)
    else if headerType hdr = RMNET_MAP_HEADER_TYPE_CSUM_OFFLOAD then
      stripPacket t d (mapHeaderSize + csumHeaderSize) len
    else pure none

/-- `rmnet_alloc_skb`, as far as it may drop the packet.  With memory for the `sk_buff` that
    is when its headers are longer than it. -/
def rmnetAllocSkb (t : ℕ) (d : FragDescriptor) : Run Unit := do
  if ← alloc w then
    let hdrLen := (d.ipLen + d.transLen) % 2 ^ 16
    if d.hdrsValid && hdrLen ≠ d.len then discard (rmnetFragPull t d hdrLen)

/-- `rmnet_frag_deliver`. -/
def rmnetFragDeliver (x : Taken) : Run Unit := do
  rmnetAllocSkb w x.1 x.2
  rmnetRecycleFragDescriptor x.1

def deliverAll : List Taken → Run Unit
  | [] => pure ()
  | x :: list => do
    rmnetFragDeliver w x
    deliverAll list

/-- The last part of `__rmnet_frag_ingress_handler`. -/
def dispatch (priority : ℕ) (list : List Taken) : Run Unit := do
  if priority = skipPerf then deliverAll w list
  else if ← rmnetModuleHookOffloadIngress w then offloadAll list
  else deliverAll w list

/-- The part of `__rmnet_frag_ingress_handler` for a packet of a device. -/
def ingressPacket (port : Port) (dev : Dev) (maph : List UInt8) (t : ℕ) (d : FragDescriptor) :
    Run Unit := do
  if mapNextHdr maph && v5Format port.dataFormat then
    match ← rmnetFragProcessNextHdrPacket w K mem dev t d (packetLen maph) with
    | none => rmnetRecycleFragDescriptor t
    | some list => dispatch w d.priority list
  else
    match ← stripPacket t d mapHeaderSize (packetLen maph) with
    | none => pure ()
    | some list => dispatch w d.priority list

/-- `__rmnet_frag_ingress_handler`: a command is only read. -/
def ingressOne (port : Port) (x : Taken) : Run Unit :=
  match rmnetFragHeaderPtr mem x.2 0 mapHeaderSize with
  | none => rmnetRecycleFragDescriptor x.1
  | some maph =>
    if cdBit maph then rmnetRecycleFragDescriptor x.1
    else if RMNET_MAX_LOGICAL_EP ≤ mapMuxId maph then rmnetRecycleFragDescriptor x.1
    else
      match port.endpoint (mapMuxId maph) with
      | none => rmnetRecycleFragDescriptor x.1
      | some dev => ingressPacket w K mem port dev maph x.1 x.2

def ingressAll (port : Port) : List Taken → Run Unit
  | [] => pure ()
  | x :: list => do
    ingressOne w K mem port x
    ingressAll port list

/-- `rmnet_frag_ingress_handler`, for a chain of buffers. -/
def rmnetFragIngressHandler (port : Port) : List Skb → Run Unit
  | [] => pure ()
  | skb :: chain => do
    let list ← rmnetFragDeaggregate w mem port.dataFormat skb
    ingressAll w K mem port list
    rmnetFragIngressHandler port chain

end

end Sm8850.Rmnet.Custody
