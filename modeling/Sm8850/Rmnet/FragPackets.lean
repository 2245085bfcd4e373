/-
  What the packets of a fragmented frame are.

  * `coalFrame_flat`, `coalFrame_eq`: the frame is found whatever the fragments.
  * `rmnetAllocSkb_seg`: the packet of a descriptor has its fields, or those of the header.
  * `SegmentsOf` is a descriptor that stands for a piece of a frame; **`SegmentsOf.skb`**: so
    does its packet.
-/
import Sm8850.Rmnet.FragCoalesce
import Sm8850.Rmnet.Frame

namespace Sm8850.Rmnet

open Lib.Bytes

variable {K : Csum} {mem : Pages} {d : FragDescriptor} {bytes pkt : List UInt8} {hdr : CoalHeader}
  {h : ParsedHeaders}

theorem fragReader_eq (hs : d.Sized) : fragReader mem d = flatReader (d.bytes mem) := by
  refine Reader.ext (hs.length_bytes mem).symm ?_
  funext off len
  exact rmnetFragHeaderPtr_eq hs off len

/-- A descriptor as deaggregation leaves it, with no empty fragments. -/
structure Fresh (d : FragDescriptor) : Prop where
  eq : d = { frags := d.frags, len := fragsLen d.frags, priority := d.priority }
  pos : ∀ frag ∈ d.frags, 0 < frag.size

theorem Fresh.sized (hf : Fresh d) : d.Sized := congrArg FragDescriptor.len hf.eq

theorem pullFrags_pos (l : List SkbFrag) (size len : ℕ) (hpos : ∀ frag ∈ l, 0 < frag.size) :
    ∀ frag ∈ (pullFrags l size len).1, 0 < frag.size := by
  fun_induction pullFrags l size len with
  | case1 => exact hpos
  | case2 => exact hpos
  | case3 frag rest size len _ _ ih => exact ih fun f hf => hpos f (List.mem_cons_of_mem _ hf)
  | case4 frag rest size len _ hlt =>
    intro f hf
    rcases List.mem_cons.1 hf with rfl | hf
    · exact Nat.sub_pos_of_lt (Nat.lt_of_not_le hlt)
    · exact hpos f (List.mem_cons_of_mem _ hf)

/-- The first byte is where the first fragment begins. -/
theorem byteAt_fragsBytes (mem : Pages) {frag : SkbFrag} (rest : List SkbFrag)
    (hpos : 0 < frag.size) :
    byteAt (fragsBytes mem (frag :: rest)) 0 = (mem frag.page frag.off).toNat := by
  obtain ⟨n, hn⟩ := Nat.exists_eq_succ_of_ne_zero (Nat.pos_iff_ne_zero.1 hpos)
  rw [fragsBytes_cons, SkbFrag.bytes, readPage, hn, List.range_succ_eq_map]
  rfl

/-- The descriptor of a frame whose headers have been found. -/
def frameDesc (h : ParsedHeaders) (frags : List SkbFrag) (priority : ℕ) : FragDescriptor :=
  { toPktHeaders := h.toPktHeaders, frags := frags, len := fragsLen frags, priority := priority,
    hdrsValid := true }

/-- **The frame is found whatever the fragments.** -/
theorem coalFrame_flat (mem : Pages) (hf : Fresh d)
    (hlong : mapHeaderSize + coalHeaderSize < (d.bytes mem).length) :
    ∃ frags, coalFrame mem d = (frameHeaders (d.bytes mem)).map (fun h =>
        ⟨frameHdr (d.bytes mem), h, frameDesc h frags d.priority⟩) ∧
      fragsBytes mem frags = framePayload (d.bytes mem) ∧
      frags = (pullFrags d.frags (mapHeaderSize + coalHeaderSize) d.len).1 := by
  have hs := hf.sized
  have hlen := hs.length_bytes mem
  obtain ⟨frags, hpull, hbytes, hsum⟩ := rmnetFragPull_eq mem hs (hlen ▸ hlong)
  have hfrags : (pullFrags d.frags (mapHeaderSize + coalHeaderSize) d.len).1 = frags := by
    have hp := hpull
    rw [rmnetFragPull, if_neg (by omega)] at hp
    exact congrArg FragDescriptor.frags (Option.some.inj hp)
  refine ⟨frags, ?_, hbytes, hfrags.symm⟩
  have hcopy : rmnetFragCopyData mem d mapHeaderSize coalHeaderSize =
      some (((d.bytes mem).drop mapHeaderSize).take coalHeaderSize) := by
    rw [rmnetFragCopyData_eq hs, slice_eq (Nat.le_of_lt hlong)]
  -- the first fragment that is left has the version byte
  cases hfr : frags with
  | nil =>
    have hnil : (d.bytes mem).length ≤ mapHeaderSize + coalHeaderSize := by
      rw [hfr] at hbytes
      exact List.drop_eq_nil_iff.1 hbytes.symm
    omega
  | cons frag rest =>
    have hpos : 0 < frag.size :=
      pullFrags_pos d.frags (mapHeaderSize + coalHeaderSize) d.len hf.pos frag
        (by rw [hfrags, hfr]; exact List.mem_cons_self)
    have hversion : (mem frag.page frag.off).toNat = byteAt (framePayload (d.bytes mem)) 0 := by
      rw [framePayload, ← hbytes, hfr, byteAt_fragsBytes mem rest hpos]
    have hreader (d' : FragDescriptor) (hfrags : d'.frags = frags)
        (hlen : d'.len = d.len - (mapHeaderSize + coalHeaderSize)) :
        fragReader mem d' = flatReader (framePayload (d.bytes mem)) := by
      have hsized : d'.Sized := by rw [FragDescriptor.Sized, hlen, hfrags, hsum]
      rw [fragReader_eq hsized, FragDescriptor.bytes, hfrags, hbytes, framePayload]
    rw [hfr] at hpull hsum
    simp only [coalFrame, hcopy, hpull, Option.bind_eq_bind, Option.bind_some, rmnetFragDataPtr,
      List.head?_cons, Option.map_some, hversion]
    rw [hreader _ hfr.symm rfl, frameHeaders]
    cases parseHeaders (byteAt (framePayload (d.bytes mem)) 0)
      (flatReader (framePayload (d.bytes mem))) with
    | none => rfl
    | some h =>
      rw [Option.bind_some, Option.map_some, frameDesc, ← hsum, hf.eq]
      rfl

/-- The frame of a well-formed one. -/
theorem coalFrame_eq (mem : Pages) (hf : Fresh d) (hw : WellFormed (d.bytes mem) hdr h) :
    ∃ frags, coalFrame mem d = some ⟨hdr, h, frameDesc h frags d.priority⟩ ∧
      fragsBytes mem frags = framePayload (d.bytes mem) := by
  obtain ⟨frags, hframe, hbytes, -⟩ := coalFrame_flat mem hf hw.long
  rw [hw.headers, ← hw.hdr_eq] at hframe
  exact ⟨frags, hframe, hbytes⟩

/-! ## The packet of a descriptor -/

section Alloc

variable {header : List UInt8} {skb : RxSkBuff} {id seq flags : ℕ}

theorem patchIpId_ids {hd : PktHeaders} {newId : Option ℕ} (hl : Layout hd)
    (h : Ids hd header id seq flags)
    (hnew : ∀ v, newId = some v → hd.ipProto = 4 ∧ v < 2 ^ 16) :
    Ids hd (patchIpId K newId header) (newId.getD id) seq flags := by
  cases newId with
  | none => exact h
  | some v =>
    obtain ⟨h4, hlt⟩ := hnew v rfl
    have hle := hl.le_ipLen
    have hw := h.write (i := 10) ⟨fun _ => by omega, fun _ => by omega⟩
      (K.replace2 (be16 header 10) (be16 header 4) v)
    have hlen := hw.length
    refine ⟨?_, fun _ => ?_, fun ht => ?_, fun ht => ?_⟩
    · rw [patchIpId, length_setBe16, hlen]
    · rw [patchIpId, be16_setBe16 (by omega)]
      exact Nat.mod_eq_of_lt hlt
    · rw [patchIpId, be32_setBe16_of_disjoint _ (by omega), hw.seq ht]
    · rw [patchIpId, be16_setBe16_of_disjoint _ (by omega), hw.flags ht]

theorem patchTcpSeq_ids {hd : PktHeaders} {newSeq : Option ℕ} (hl : Layout hd)
    (h : Ids hd header id seq flags)
    (hnew : ∀ v, newSeq = some v → hd.transProto = IPPROTO_TCP ∧ v < 2 ^ 32) :
    Ids hd (patchTcpSeq hd.ipLen newSeq header) id (newSeq.getD seq) flags := by
  cases newSeq with
  | none => exact h
  | some v =>
    obtain ⟨ht, hlt⟩ := hnew v rfl
    have hle := hl.le_ipLen
    have hlen := h.length
    have h20 : 20 ≤ hd.transLen := hl.tcp ht
    refine ⟨?_, fun h4 => ?_, fun _ => ?_, fun _ => ?_⟩
    · rw [patchTcpSeq, length_setBe32, hlen]
    · rw [patchTcpSeq, be16_setBe32_of_disjoint _ (by omega), h.id h4]
    · rw [patchTcpSeq, be32_setBe32 (by omega)]
      exact Nat.mod_eq_of_lt hlt
    · rw [patchTcpSeq, be16_setBe32_of_disjoint _ (by omega), h.flags ht]

theorem patchTcpFlags_ids {hd : PktHeaders} {newFlags : Option ℕ} (hl : Layout hd)
    (h : Ids hd header id seq flags)
    (hnew : ∀ v, newFlags = some v → hd.transProto = IPPROTO_TCP ∧ v < 2 ^ 16) :
    Ids hd (patchTcpFlags hd.ipLen newFlags header) id seq (newFlags.getD flags) := by
  cases newFlags with
  | none => exact h
  | some v =>
    obtain ⟨ht, hlt⟩ := hnew v rfl
    have hle := hl.le_ipLen
    have hlen := h.length
    have h20 : 20 ≤ hd.transLen := hl.tcp ht
    refine ⟨?_, fun h4 => ?_, fun _ => ?_, fun _ => ?_⟩
    · rw [patchTcpFlags, length_setBe16, hlen]
    · rw [patchTcpFlags, be16_setBe16_of_disjoint _ (by omega), h.id h4]
    · rw [patchTcpFlags, be32_setBe16_of_disjoint _ (by omega), h.seq ht]
    · rw [patchTcpFlags, be16_setBe16 (by omega)]
      exact Nat.mod_eq_of_lt hlt

/-- With a good checksum. -/
theorem rmnetFragPartialCsum_seg (hl : Layout d.toPktHeaders) (hh : skb.hdrs = d.toPktHeaders)
    (h : Ids d.toPktHeaders skb.header id seq flags) (hlt : skb.len < 2 ^ 16) :
    Seg d.toPktHeaders (rmnetFragPartialCsum K d skb) skb.payload id seq flags true := by
  have hle := hl.le_ipLen
  have hlen : skb.len = d.ipLen + d.transLen + skb.payload.length := by
    rw [RxSkBuff.len, h.length]
  have hv : (skb.len - d.ipLen) % 2 ^ 16 % 2 ^ 16 =
      d.ipLen + d.transLen + skb.payload.length - d.ipLen := by omega
  -- the length of the IP packet
  have hip : ∀ header', header' = (if d.ipProto = 4 then
        let iph := setBe16 (setBe16 skb.header 2 skb.len) 10 0
        setBe16 iph 10 (K.ipFast (iph.take (byteAt iph 0 % 16 * 4)))
      else setBe16 skb.header 4 (skb.len - 40)) →
      Ids d.toPktHeaders header' id seq flags ∧
      (if d.ipProto = 4 then be16 header' 2 else be16 header' 4) =
        d.ipLen + d.transLen + skb.payload.length - (if d.ipProto = 4 then 0 else 40) := by
    rintro _ rfl
    have hlen' := h.length
    rcases hl.ip with ⟨h4, -⟩ | ⟨h6, h40⟩
    · rw [if_pos h4, if_pos h4, if_pos h4]
      have ho : Other d.toPktHeaders 10 := ⟨fun _ => by omega, fun _ => by omega⟩
      have h2 : Other d.toPktHeaders 2 := ⟨fun _ => by omega, fun _ => by omega⟩
      refine ⟨((h.write h2 _).write ho _).write ho _, ?_⟩
      rw [be16_setBe16_of_disjoint _ (by omega), be16_setBe16_of_disjoint _ (by omega),
        be16_setBe16 (by omega)]
      omega
    · have h4 : ¬ d.ipProto = 4 := by rw [h6]; decide
      rw [if_neg h4, if_neg h4, if_neg h4]
      refine ⟨h.write ⟨fun h => absurd h h4, fun _ => by omega⟩ _, ?_⟩
      rw [be16_setBe16 (by omega)]
      omega
  obtain ⟨hids, htot⟩ := hip _ rfl
  obtain ⟨hids, hlens⟩ := hids.udpLen hl htot hv
  obtain ⟨hids, hlens⟩ := hids.check hl hlens
    (pseudoCsum K d.toPktHeaders skb.header ((skb.len - d.ipLen) % 2 ^ 16))
  exact ⟨⟨hh, rfl, hids, rfl⟩, hlens⟩

theorem badCsumHeader_ids (hl : Layout d.toPktHeaders)
    (h : Ids d.toPktHeaders skb.header id seq flags) (hlt : skb.len < 2 ^ 16) :
    Ids d.toPktHeaders (badCsumHeader K d skb) id seq flags ∧
    Lens d.toPktHeaders (badCsumHeader K d skb)
      (d.ipLen + d.transLen + skb.payload.length) := by
  have hle := hl.le_ipLen
  have hlen : skb.len = d.ipLen + d.transLen + skb.payload.length := by
    rw [RxSkBuff.len, h.length]
  have hv : (skb.len - d.ipLen) % 2 ^ 16 =
      d.ipLen + d.transLen + skb.payload.length - d.ipLen := by omega
  have hip : ∀ header', header' = (if d.ipProto = 4 then
        let check := K.replace2 (be16 skb.header 10) (be16 skb.header 2) skb.len
        setBe16 (setBe16 skb.header 10 check) 2 skb.len
      else setBe16 skb.header 4 (skb.len - 40)) →
      Ids d.toPktHeaders header' id seq flags ∧
      (if d.ipProto = 4 then be16 header' 2 else be16 header' 4) =
        d.ipLen + d.transLen + skb.payload.length - (if d.ipProto = 4 then 0 else 40) := by
    rintro _ rfl
    have hlen' := h.length
    rcases hl.ip with ⟨h4, -⟩ | ⟨h6, h40⟩
    · rw [if_pos h4, if_pos h4, if_pos h4]
      have ho : Other d.toPktHeaders 10 := ⟨fun _ => by omega, fun _ => by omega⟩
      have h2 : Other d.toPktHeaders 2 := ⟨fun _ => by omega, fun _ => by omega⟩
      refine ⟨(h.write ho _).write h2 _, ?_⟩
      rw [be16_setBe16 (by rw [length_setBe16]; omega)]
      omega
    · have h4 : ¬ d.ipProto = 4 := by rw [h6]; decide
      rw [if_neg h4, if_neg h4, if_neg h4]
      refine ⟨h.write ⟨fun h => absurd h h4, fun _ => by omega⟩ _, ?_⟩
      rw [be16_setBe16 (by omega)]
      omega
  obtain ⟨hids, htot⟩ := hip _ rfl
  exact hids.udpLen hl htot hv

/-- The checksum offload keeps the fields and writes the lengths. -/
theorem fragCsumOffload_seg (skb : RxSkBuff) (hl : Layout d.toPktHeaders) (hv : d.hdrsValid = true)
    (hh : skb.hdrs = d.toPktHeaders)
    (h : Ids d.toPktHeaders skb.header id seq flags) (hlt : skb.len < 2 ^ 16) :
    Seg d.toPktHeaders (fragCsumOffload K d skb) skb.payload id seq flags d.csumValid := by
  unfold fragCsumOffload
  cases hgood : d.csumValid with
  | true =>
    rw [hv]
    exact rmnetFragPartialCsum_seg hl hh h hlt
  | false =>
    have hproto : (d.transProto == IPPROTO_TCP || d.transProto == IPPROTO_UDP) = true := by
      rcases hl.trans with ⟨ht, -⟩ | ⟨hu, -⟩
      · rw [ht]
        rfl
      · rw [hu]
        rfl
    rw [hv, hproto]
    obtain ⟨hids, hlens⟩ := badCsumHeader_ids (K := K) hl h hlt
    exact corruptCsum_seg K { skb with header := badCsumHeader K d skb } hl hh hids hlens

theorem fragCsumOffload_gso :
    (fragCsumOffload K d skb).gsoSize = skb.gsoSize ∧
    (fragCsumOffload K d skb).gsoSegs = skb.gsoSegs := by
  unfold fragCsumOffload
  split
  · exact ⟨rfl, rfl⟩
  · split
    · exact ⟨rfl, rfl⟩
    · split <;> exact ⟨rfl, rfl⟩

/-- What a descriptor of segmented packets has: its headers, and packets of one size. -/
structure SegDesc (mem : Pages) (d : FragDescriptor) (header data : List UInt8) : Prop where
  layout : Layout d.toPktHeaders
  hdrsValid : d.hdrsValid = true
  sized : d.Sized
  bytes : d.bytes mem = header ++ data
  headerLen : header.length = d.ipLen + d.transLen
  short : header.length + data.length < 2 ^ 16
  ipId : ∀ v, d.ipId = some v → d.ipProto = 4 ∧ v < 2 ^ 16
  tcpSeq : ∀ v, d.tcpSeq = some v → d.transProto = IPPROTO_TCP ∧ v < 2 ^ 32
  tcpFlags : ∀ v, d.tcpFlags = some v → d.transProto = IPPROTO_TCP ∧ v < 2 ^ 16

theorem splitHeaders_eq {data : List UInt8} (h : SegDesc mem d header data) :
    splitHeaders mem d = some (header, data) := by
  have hlen := h.sized.length_bytes mem
  rw [h.bytes, List.length_append] at hlen
  have hh := h.headerLen
  have hshort := h.short
  have hmod : (d.ipLen + d.transLen) % 2 ^ 16 = header.length := by omega
  have hcopy : rmnetFragCopyData mem d 0 header.length = some header := by
    rw [rmnetFragCopyData_eq h.sized, h.bytes, slice_eq (by rw [List.length_append]; omega),
      List.drop_zero, List.take_left]
  unfold splitHeaders
  rw [h.hdrsValid, hmod]
  simp only [Bool.not_true, Bool.false_eq_true, ↓reduceIte, hcopy]
  split
  · rename_i heq
    have hnil : data = [] := List.eq_nil_of_length_eq_zero (by omega)
    rw [hnil]
  · rename_i hne
    obtain ⟨frags, hpull, hbytes, -⟩ := rmnetFragPull_eq mem h.sized
      (show header.length < d.len by omega)
    rw [hpull, Option.map_some, FragDescriptor.bytes, hbytes, h.bytes, List.drop_left]

/-- **The packet of a descriptor**: its own fields are those of the descriptor, or else
    those of the header. -/
theorem rmnetAllocSkb_seg (K : Csum) {data : List UInt8} (h : SegDesc mem d header data) :
    ∃ skb, rmnetAllocSkb K mem d = some skb ∧
      Seg d.toPktHeaders skb data (d.ipId.getD (be16 header 4))
        (d.tcpSeq.getD (be32 header (d.ipLen + 4))) (d.tcpFlags.getD (be16 header (d.ipLen + 12)))
        d.csumValid ∧
      skb.gsoSize = (if 1 < d.gsoSegs then d.gsoSize else 0) ∧
      skb.gsoSegs = (if 1 < d.gsoSegs then d.gsoSegs else 0) := by
  have hids₀ : Ids d.toPktHeaders header (be16 header 4) (be32 header (d.ipLen + 4))
      (be16 header (d.ipLen + 12)) := ⟨h.headerLen, fun _ => rfl, fun _ => rfl, fun _ => rfl⟩
  have hids := patchTcpFlags_ids h.layout (patchTcpSeq_ids h.layout
    (patchIpId_ids (K := K) h.layout hids₀ h.ipId) h.tcpSeq) h.tcpFlags
  have hlt :
      (RxSkBuff.mk d.toPktHeaders (patchHeader K d header) data .checksumNone none 0 0 0).len <
        2 ^ 16 := by
    have hlen := hids.length
    have hshort := h.short
    rw [h.headerLen] at hshort
    show (patchHeader K d header).length + data.length < 2 ^ 16
    rw [patchHeader, hlen]
    exact hshort
  obtain ⟨⟨hh, hp, hi, hg⟩, hn⟩ := fragCsumOffload_seg (K := K)
    ⟨d.toPktHeaders, patchHeader K d header, data, .checksumNone, none, 0, 0, 0⟩ h.layout
    h.hdrsValid rfl hids hlt
  rw [rmnetAllocSkb, splitHeaders_eq h, Option.map_some]
  refine ⟨_, rfl, ?_⟩
  by_cases hgso : 1 < d.gsoSegs
  · simp only [if_pos hgso]
    exact ⟨⟨⟨hh, hp, hi, hg⟩, hn⟩, rfl, rfl⟩
  · simp only [if_neg hgso]
    refine ⟨⟨⟨hh, hp, hi, hg⟩, hn⟩, ?_, ?_⟩
    · exact fragCsumOffload_gso.1
    · exact fragCsumOffload_gso.2

end Alloc

/-! ## The pieces of a frame -/

section Pieces

variable {coal new : FragDescriptor} {m : CoalMeta} {valid : Bool}

/-- A frame whose bytes are all there, to be cut. -/
structure Holding (mem : Pages) (pkt : List UInt8) (h : ParsedHeaders) (coal : FragDescriptor) :
    Prop where
  bytes : coal.bytes mem = pkt
  sized : coal.Sized
  headers : coal.toPktHeaders = h.toPktHeaders
  hdrsValid : coal.hdrsValid = true
  unset : coal.tcpSeq = none ∧ coal.tcpFlags = none ∧ coal.ipId = none
  parsed : Parsed pkt h
  layout : Layout h.toPktHeaders
  short : pkt.length < 2 ^ 16

theorem Holding.len (hh : Holding mem pkt h coal) : coal.len = pkt.length := by
  rw [← hh.bytes, hh.sized.length_bytes mem]

theorem Holding.header_ptr (hh : Holding mem pkt h coal) (off len : ℕ) :
    rmnetFragHeaderPtr mem coal off len = slice pkt off len := by
  rw [rmnetFragHeaderPtr_eq hh.sized, hh.bytes]

/-- Another part of the frame is next. -/
theorem Holding.setMeta (hh : Holding mem pkt h coal) (m : CoalMeta) :
    Holding mem pkt h { coal with toCoalMeta := m } where
  bytes := hh.bytes
  sized := hh.sized
  headers := hh.headers
  hdrsValid := hh.hdrsValid
  unset := hh.unset
  parsed := hh.parsed
  layout := hh.layout
  short := hh.short

/-- The descriptor of a piece of a frame. -/
structure PieceDesc (mem : Pages) (pkt : List UInt8) (h : ParsedHeaders) (m : CoalMeta)
    (valid : Bool) (d : FragDescriptor) : Prop where
  piece : d.toCoalMeta = m
  headers : d.toPktHeaders = h.toPktHeaders
  hdrsValid : d.hdrsValid = true
  sized : d.Sized
  bytes : d.bytes mem = pkt.take (h.ipLen + h.transLen) ++
    (pkt.drop (h.ipLen + h.transLen + m.dataOffset)).take (m.gsoSize * m.gsoSegs)
  tcpSeq : d.tcpSeq = only (h.transProto = IPPROTO_TCP)
    ((be32 pkt (h.ipLen + 4) + m.dataOffset) % 2 ^ 32)
  tcpFlags : d.tcpFlags = pieceFlags pkt h m
  ipId : d.ipId = only (h.ipProto = 4) ((be16 pkt 4 + m.pktId) % 2 ^ 16)
  csumValid : d.csumValid = (valid || h.zeroCsum)

theorem fragSegmentTrans_eq (hh : Holding mem pkt h coal) (hseq : new.tcpSeq = none)
    (hflags : new.tcpFlags = none) :
    fragSegmentTrans mem coal new valid =
      some ({ new with
        tcpSeq := only (h.transProto = IPPROTO_TCP)
          ((be32 pkt (h.ipLen + 4) + coal.dataOffset) % 2 ^ 32)
        tcpFlags := pieceFlags pkt h coal.toCoalMeta }, valid || h.zeroCsum) := by
  have htrans : coal.transProto = h.transProto := congrArg PktHeaders.transProto hh.headers
  have hip : coal.ipLen = h.ipLen := congrArg PktHeaders.ipLen hh.headers
  have htl : coal.transLen = h.transLen := congrArg PktHeaders.transLen hh.headers
  have hproto : coal.ipProto = h.ipProto := congrArg PktHeaders.ipProto hh.headers
  unfold fragSegmentTrans
  rw [htrans, hip, htl, hproto, hh.len]
  rcases hh.parsed.trans with ⟨ht, hlen, hz⟩ | ⟨hu, hlen, -, hz⟩
  · have hth := slice_eq hlen
    rw [if_pos ht, hh.header_ptr, hth, Option.map_some, be16_slice hth (by decide),
      be32_slice hth (by decide), hz, Bool.or_false, pieceFlags, only, if_pos ht]
    by_cases hc : be16 pkt (h.ipLen + 12) &&& dangerousFlags ≠ 0 ∧
        h.ipLen + h.transLen + coal.dataOffset + coal.gsoSize * coal.gsoSegs < pkt.length
    · rw [if_pos hc, if_pos ⟨ht, hc⟩]
    · rw [if_neg hc, if_neg fun hn => hc hn.2, ← hflags]
  · have hne : ¬ h.transProto = IPPROTO_TCP := by rw [hu]; decide
    have huh := slice_eq hlen
    rw [if_neg hne, if_pos hu, hh.header_ptr, huh, Option.map_some, be16_slice huh (by decide), hz,
      pieceFlags, only, if_neg hne, if_neg fun hn => hne hn.1]
    -- neither a sequence number nor flags
    cases new
    subst hseq hflags
    rfl

theorem fragSegmentIpId_eq (hh : Holding mem pkt h coal) (hid : new.ipId = none) :
    fragSegmentIpId mem coal new =
      some { new with ipId := only (h.ipProto = 4) ((be16 pkt 4 + coal.pktId) % 2 ^ 16) } := by
  have hproto : coal.ipProto = h.ipProto := congrArg PktHeaders.ipProto hh.headers
  unfold fragSegmentIpId
  rw [hproto]
  by_cases h4 : h.ipProto = 4
  · have hlen : 0 + 20 ≤ pkt.length := by
      rcases hh.parsed.ip with ⟨-, h20⟩ | h6
      · omega
      · rw [h4] at h6
        cases h6
    have hiph := slice_eq hlen
    rw [if_pos h4, hh.header_ptr, hiph, Option.map_some, be16_slice hiph (by decide), only,
      if_pos h4, Nat.zero_add]
  · rw [if_neg h4, only, if_neg h4, ← hid]

/-- **The descriptor of a piece.** -/
theorem fragSegmentData_eq (valid : Bool) (hh : Holding mem pkt h coal)
    (hle : h.ipLen + h.transLen + coal.dataOffset + coal.gsoSize * coal.gsoSegs ≤ pkt.length) :
    ∃ d, fragSegmentData mem coal valid = some d ∧
      PieceDesc mem pkt h coal.toCoalMeta valid d := by
  have hip : coal.ipLen = h.ipLen := congrArg PktHeaders.ipLen hh.headers
  have htl : coal.transLen = h.transLen := congrArg PktHeaders.transLen hh.headers
  have hlen := hh.len
  obtain ⟨hseq, hflags, hid⟩ := hh.unset
  obtain ⟨new₁, hadd₁, hb₁, hl₁⟩ := addFragsFrom_eq mem { coal with frags := [], len := 0 }
    0 (h.ipLen + h.transLen) hh.sized (by omega)
  obtain ⟨new₂, hadd₂, hb₂, hl₂⟩ := addFragsFrom_eq mem
    { coal with frags := [] ++ new₁, len := 0 + fragsLen new₁ }
    (h.ipLen + h.transLen + coal.dataOffset) (coal.gsoSize * coal.gsoSegs) hh.sized (by omega)
  rw [hh.bytes, List.drop_zero] at hb₁
  rw [hh.bytes] at hb₂
  unfold fragSegmentData
  simp only [hip, htl, hadd₁, hadd₂, Option.bind_eq_bind, Option.bind_some]
  rw [fragSegmentTrans_eq hh, Option.bind_some, fragSegmentIpId_eq hh, Option.bind_some]
  rotate_left
  · exact hid
  · exact hseq
  · exact hflags
  refine ⟨_, rfl, rfl, hh.headers, hh.hdrsValid, ?_, ?_, rfl, rfl, rfl, rfl⟩
  · show 0 + fragsLen new₁ + fragsLen new₂ = fragsLen ([] ++ new₁ ++ new₂)
    rw [List.nil_append, fragsLen, fragsLen, fragsLen, List.map_append, List.sum_append,
      Nat.zero_add]
  · show fragsBytes mem ([] ++ new₁ ++ new₂) = _
    rw [List.nil_append, ← hb₁, ← hb₂]
    exact List.flatMap_append

/-- A descriptor that stands for a piece of a frame. -/
structure SegmentsOf (mem : Pages) (pkt : List UInt8) (h : ParsedHeaders) (m : CoalMeta)
    (valid : Bool) (d : FragDescriptor) : Prop where
  piece : d.toCoalMeta = m
  headers : d.toPktHeaders = h.toPktHeaders
  desc : SegDesc mem d (pkt.take (h.ipLen + h.transLen)) (pieceData pkt h m)
  le : h.ipLen + h.transLen + m.dataOffset + m.gsoSize * m.gsoSegs ≤ pkt.length
  id : h.ipProto = 4 → d.ipId.getD (be16 pkt 4) = (be16 pkt 4 + m.pktId) % 2 ^ 16
  seq : h.transProto = IPPROTO_TCP → d.tcpSeq.getD (be32 pkt (h.ipLen + 4)) =
    (be32 pkt (h.ipLen + 4) + m.dataOffset) % 2 ^ 32
  flags : d.tcpFlags = pieceFlags pkt h m
  good : d.csumValid = (valid || h.zeroCsum)

/-- **So does its packet.** -/
theorem SegmentsOf.skb (K : Csum) (hs : SegmentsOf mem pkt h m valid d) :
    ∃ skb, rmnetAllocSkb K mem d = some skb ∧ PieceSkb pkt h m (valid || h.zeroCsum) skb := by
  obtain ⟨skb, halloc, hseg, hsize, hsegs⟩ := rmnetAllocSkb_seg K hs.desc
  have hlay := hs.desc.layout
  rw [hs.headers] at hseg hlay
  have hle := hlay.le_ipLen
  refine ⟨skb, halloc, ⟨hseg.hdrs, hseg.payload, ⟨hseg.ids.length, fun h4 => ?_, fun ht => ?_,
    fun ht => ?_⟩, hseg.good.trans hs.good⟩, fun _ => hseg.lens, ?_, ?_⟩
  · rw [hseg.ids.id h4, be16_take (by omega), hs.id h4]
  · have h20 := hlay.tcp ht
    rw [hseg.ids.seq ht, be32_take (by omega), hs.seq ht]
  · have h20 := hlay.tcp ht
    rw [hseg.ids.flags ht, be16_take (by omega), hs.flags]
  · rw [hsize]
    show (if 1 < d.toCoalMeta.gsoSegs then d.toCoalMeta.gsoSize else 0) = _
    rw [hs.piece]
  · rw [hsegs]
    show (if 1 < d.toCoalMeta.gsoSegs then d.toCoalMeta.gsoSegs else 0) = _
    rw [hs.piece]

/-- A piece that is cut out of the frame. -/
theorem PieceDesc.segmentsOf (hh : Holding mem pkt h coal) (hp : PieceDesc mem pkt h m valid d)
    (hle : h.ipLen + h.transLen + m.dataOffset + m.gsoSize * m.gsoSegs ≤ pkt.length) :
    SegmentsOf mem pkt h m valid d where
  piece := hp.piece
  headers := hp.headers
  desc := by
    have hproto : d.ipProto = h.ipProto := congrArg PktHeaders.ipProto hp.headers
    have htrans : d.transProto = h.transProto := congrArg PktHeaders.transProto hp.headers
    have hip : d.ipLen = h.ipLen := congrArg PktHeaders.ipLen hp.headers
    have htl : d.transLen = h.transLen := congrArg PktHeaders.transLen hp.headers
    have hshort := hh.short
    have hheader : (pkt.take (h.ipLen + h.transLen)).length = h.ipLen + h.transLen := by
      rw [List.length_take]
      omega
    refine ⟨hp.headers ▸ hh.layout, hp.hdrsValid, hp.sized, hp.bytes, ?_, ?_, fun v hv => ?_,
      fun v hv => ?_, fun v hv => ?_⟩
    · rw [hip, htl, hheader]
    · rw [hheader, length_pieceData hle]
      omega
    · rw [hp.ipId, only] at hv
      split at hv
      · rename_i h4
        obtain rfl := Option.some.inj hv
        exact ⟨hproto.trans h4, Nat.mod_lt _ (by decide)⟩
      · cases hv
    · rw [hp.tcpSeq, only] at hv
      split at hv
      · rename_i ht
        obtain rfl := Option.some.inj hv
        exact ⟨htrans.trans ht, Nat.mod_lt _ (by decide)⟩
      · cases hv
    · rw [hp.tcpFlags, pieceFlags] at hv
      split at hv
      · rename_i hc
        obtain rfl := Option.some.inj hv
        exact ⟨htrans.trans hc.1, Nat.lt_of_le_of_lt Nat.and_le_right (by decide)⟩
      · cases hv
  le := hle
  id h4 := by rw [hp.ipId, only, if_pos h4, Option.getD_some]
  seq ht := by rw [hp.tcpSeq, only, if_pos ht, Option.getD_some]
  flags := hp.tcpFlags
  good := hp.csumValid

/-- The frame as it is, if its packets have one size. -/
theorem reuseDescriptor_segmentsOf {p : NlPair} {csumValid : Bool} (hh : Holding mem pkt h coal)
    (hmeta : coal.toCoalMeta = {}) (hp : hdr.nlPairs.headD ⟨0, 0, 0⟩ = p)
    (hlo : h.ipLen + h.transLen ≤ p.pktLen) (hhi : p.pktLen < 2 ^ 16)
    (hlen : pkt.length = h.ipLen + h.transLen + (p.pktLen - (h.ipLen + h.transLen)) * p.numPackets)
    (hgood : csumValid = (valid || h.zeroCsum)) :
    SegmentsOf mem pkt h ⟨0, p.pktLen - (h.ipLen + h.transLen), p.numPackets, 0⟩ valid
      (reuseDescriptor hdr coal csumValid) := by
  have hip : coal.ipLen = h.ipLen := congrArg PktHeaders.ipLen hh.headers
  have htl : coal.transLen = h.transLen := congrArg PktHeaders.transLen hh.headers
  have hoff : coal.dataOffset = 0 := congrArg CoalMeta.dataOffset hmeta
  have hid : coal.pktId = 0 := congrArg CoalMeta.pktId hmeta
  obtain ⟨hseq, hflags, hipId⟩ := hh.unset
  have hshort := hh.short
  have hheader : (pkt.take (h.ipLen + h.transLen)).length = h.ipLen + h.transLen := by
    rw [List.length_take]
    omega
  have hrest := pieceData_whole hlen
  -- however the numbers come about by which it is to be cut
  have hwith (gsoSize gsoSegs : ℕ) (hsize : gsoSize = p.pktLen - (h.ipLen + h.transLen))
      (hsegs : gsoSegs = p.numPackets) :
      SegmentsOf mem pkt h ⟨0, p.pktLen - (h.ipLen + h.transLen), p.numPackets, 0⟩ valid
        { coal with csumValid, gsoSize, gsoSegs } := by
    refine ⟨?_, hh.headers, ⟨?_, hh.hdrsValid, hh.sized, ?_, ?_, ?_, ?_, ?_, ?_⟩, ?_, fun _ => ?_,
      fun _ => ?_, ?_, hgood⟩
    · show CoalMeta.mk coal.dataOffset _ _ coal.pktId = _
      rw [hoff, hid, hsize, hsegs]
    · show Layout coal.toPktHeaders
      rw [hh.headers]
      exact hh.layout
    · show coal.bytes mem = _
      rw [hrest, hh.bytes, List.take_append_drop]
    · rw [hheader]
      show _ = coal.ipLen + coal.transLen
      rw [hip, htl]
    · rw [hrest, ← List.length_append, List.take_append_drop]
      exact hshort
    · exact fun v hv => nomatch hipId.symm.trans hv
    · exact fun v hv => nomatch hseq.symm.trans hv
    · exact fun v hv => nomatch hflags.symm.trans hv
    · show h.ipLen + h.transLen + 0 + (p.pktLen - (h.ipLen + h.transLen)) * p.numPackets ≤ _
      omega
    · show coal.ipId.getD _ = (be16 pkt 4 + 0) % 2 ^ 16
      rw [hipId, Option.getD_none, Nat.add_zero, Nat.mod_eq_of_lt (be16_lt _ _)]
    · show coal.tcpSeq.getD _ = (be32 pkt _ + 0) % 2 ^ 32
      rw [hseq, Option.getD_none, Nat.add_zero (be32 pkt (h.ipLen + 4)),
        Nat.mod_eq_of_lt (be32_lt _ _)]
    · show coal.tcpFlags = _
      rw [hflags, pieceFlags_whole hlen]
  refine hwith _ _ ?_ ?_
  · rw [hp, hip, htl]
    omega
  · rw [hp]

end Pieces

end Sm8850.Rmnet
