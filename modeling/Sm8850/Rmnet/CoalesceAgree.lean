/-
  Do both receive paths make the same packets of a coalesced frame?

  * `mapParseHeaders_eq`: both find the same headers.
  * `mapSegmentCoalSkb_piece`, `reuseGoodSkb_piece`: the linear path's packets stand for
    the pieces that the fragments' descriptors stand for.
  * **`segmentCoal_agree`**: the packets are the same just if the verdicts on a packet that
    the hardware does not vouch for are.
-/
import Sm8850.Rmnet.FragSplit
import Sm8850.Rmnet.MapCoalesce

namespace Sm8850.Rmnet

open Lib.Bytes

variable {K : Csum} {skip : SkipExthdr} {pkt bytes : List UInt8} {hdr : CoalHeader}
  {h : ParsedHeaders} {m : CoalMeta}

/-! ## The headers -/

/-- What `ipv6_skip_exthdr` does: it walks the extension headers, and leaves `nexthdr` alone
    when it fails. -/
def SkipsExthdrs (skip : SkipExthdr) : Prop :=
  ∀ (pkt : List UInt8) (start nexthdr : ℕ),
    match ipv6SkipExthdr (flatReader pkt) start nexthdr 0 false with
    | some ext => skip pkt start nexthdr = (some ext.start, ext.nexthdr, ext.fragOff)
    | none => (skip pkt start nexthdr).1 = none ∧ (skip pkt start nexthdr).2.1 = nexthdr

/-- A fragment header has eight bytes. -/
theorem ipv6SkipExthdr_fragHdr (r : Reader) (start nexthdr fragOff : ℕ) (fragHdr : Bool)
    {ext : ExtHdrs} (hext : ipv6SkipExthdr r start nexthdr fragOff fragHdr = some ext) :
    start ≤ ext.start ∧
    (fragHdr = false → ext.fragHdr = true → ext.fragOff ≠ 0 ∨ start + 8 ≤ ext.start) := by
  fun_induction ipv6SkipExthdr r start nexthdr fragOff fragHdr with
  | case1 start nexthdr fragOff fragHdr hn =>
    obtain rfl := Option.some.inj hext
    exact ⟨Nat.le_refl _, fun hf ht => by rw [hf] at ht; cases ht⟩
  | case2 => cases hext
  | case3 => cases hext
  | case4 => cases hext
  | case5 start fragOff fragHdr hp _ fp _ hoff =>
    obtain rfl := Option.some.inj hext
    refine ⟨Nat.le_refl _, fun _ _ => .inl fun h0 => hoff ?_⟩
    rw [show be16 fp 0 = 0 from h0]
  | case6 start fragOff fragHdr hp _ fp _ hoff _ _ ih =>
    obtain ⟨hle, -⟩ := ih hext
    exact ⟨by omega, fun _ _ => .inr hle⟩
  | case7 start nexthdr fragOff fragHdr _ _ hp _ _ ih =>
    obtain ⟨hle, hfrag⟩ := ih hext
    refine ⟨by omega, fun hf ht => ?_⟩
    rcases hfrag hf ht with h0 | h8
    · exact .inl h0
    · exact .inr (by omega)

/-- The first `nexthdr` of a walk that fails is that of an extension header. -/
theorem ipv6ExtHdr_of_none {r : Reader} {start nexthdr fragOff : ℕ} {fragHdr : Bool}
    (hext : ipv6SkipExthdr r start nexthdr fragOff fragHdr = none) : ipv6ExtHdr nexthdr = true := by
  by_contra hn
  rw [ipv6SkipExthdr, if_pos (by simpa using hn)] at hext
  cases hext

theorem parseTrans_of_ext {r : Reader} {h₀ : ParsedHeaders}
    (hext : ipv6ExtHdr h₀.transProto = true) :
    parseTrans r h₀ = none := by
  have hmem : h₀.transProto ∈ [0, 43, NEXTHDR_FRAGMENT, NEXTHDR_AUTH, NEXTHDR_NONE, 60] :=
    of_decide_eq_true hext
  have htcp : h₀.transProto ≠ IPPROTO_TCP := by
    rintro heq
    rw [heq] at hmem
    exact absurd hmem (by decide)
  have hudp : h₀.transProto ≠ IPPROTO_UDP := by
    rintro heq
    rw [heq] at hmem
    exact absurd hmem (by decide)
  rw [parseTrans, if_neg htcp, if_neg hudp]

/-- The extension headers end in the packet. -/
def ExtHdrsFit (pkt : List UInt8) : Prop :=
  byteAt pkt 0 / 16 = 6 → ∀ ext,
    ipv6SkipExthdr (flatReader pkt) 40 (byteAt pkt 6) 0 false = some ext → ext.start ≤ pkt.length

/-- **Both paths find the same headers.** -/
theorem mapParseHeaders_eq (hskip : SkipsExthdrs skip) (hfit : ExtHdrsFit pkt)
    (hshort : pkt.length < 2 ^ 16) :
    mapParseHeaders skip pkt = parseHeaders (byteAt pkt 0) (flatReader pkt) := by
  unfold mapParseHeaders parseHeaders
  simp only
  split
  · rfl
  · split
    · rename_i h6
      unfold mapParseIpv6 parseIpv6
      rw [show (flatReader pkt).read 0 40 = slice pkt 0 40 from rfl]
      cases hs : slice pkt 0 40 with
      | none => rfl
      | some ip6h =>
        have hbyte : byteAt ip6h 6 = byteAt pkt 6 := by
          rw [byteAt_slice hs (by decide), Nat.zero_add]
        have hsk := hskip pkt 40 (byteAt pkt 6)
        have hfit := hfit h6
        simp only [hbyte]
        cases hext : ipv6SkipExthdr (flatReader pkt) 40 (byteAt pkt 6) 0 false with
        | none =>
          rw [hext] at hsk
          obtain ⟨-, hnext⟩ := hsk
          show Option.bind (if (skip pkt 40 (byteAt pkt 6)).2.2 ≠ 0 then none else some _) _ = none
          split
          · rfl
          · refine parseTrans_of_ext ?_
            show ipv6ExtHdr (skip pkt 40 (byteAt pkt 6)).2.1 = true
            rw [hnext]
            exact ipv6ExtHdr_of_none hext
        | some ext =>
          rw [hext] at hsk
          have hle := hfit ext hext
          obtain ⟨h40, hfrag⟩ := ipv6SkipExthdr_fragHdr _ _ _ _ _ hext
          simp only [hsk, Option.getD_some]
          split
          · rfl
          · rename_i hoff
            have hplain : decide (ext.start % 2 ^ 16 ≤ 40) =
                (!ext.fragHdr && decide (ext.start % 2 ^ 16 ≤ 40)) := by
              cases hf : ext.fragHdr with
              | false => rfl
              | true =>
                have h48 := (hfrag rfl hf).resolve_left hoff
                rw [Bool.not_true, Bool.false_and, decide_eq_false_iff_not]
                omega
            rw [← hplain]
    · rfl

/-! ## The packets of the linear path -/

section Linear

variable {priority : ℕ} {header : List UInt8} {id seq flags : ℕ}

/-- The headers of the frame. -/
theorem Ids.take (hl : Layout h.toPktHeaders) (hle : h.ipLen + h.transLen ≤ pkt.length) :
    Ids h.toPktHeaders (pkt.take (h.ipLen + h.transLen)) (be16 pkt 4) (be32 pkt (h.ipLen + 4))
      (be16 pkt (h.ipLen + 12)) := by
  have h20 := hl.le_ipLen
  refine ⟨?_, fun _ => be16_take (by omega), fun ht => ?_, fun ht => ?_⟩
  · rw [List.length_take, Nat.min_eq_left hle]
  · have := hl.tcp ht
    exact be32_take (by omega)
  · have := hl.tcp ht
    exact be16_take (by omega)

/-- The transport header of a piece. -/
theorem mapTransHeader_ids (hl : Layout h.toPktHeaders)
    (hle : h.ipLen + h.transLen ≤ pkt.length) (m : CoalMeta) :
    Ids h.toPktHeaders
        (mapTransHeader h.toPktHeaders m pkt.length (pkt.take (h.ipLen + h.transLen)))
        (be16 pkt 4) ((be32 pkt (h.ipLen + 4) + m.dataOffset) % 2 ^ 32)
        ((pieceFlags pkt h m).getD (be16 pkt (h.ipLen + 12))) ∧
      (h.transProto = IPPROTO_UDP →
        be16 (mapTransHeader h.toPktHeaders m pkt.length (pkt.take (h.ipLen + h.transLen)))
          (h.ipLen + 4) = (h.transLen + m.gsoSize * m.gsoSegs) % 2 ^ 16) := by
  have hids := Ids.take hl hle
  have hlen := hids.length
  have h20 := hl.le_ipLen
  by_cases ht : h.transProto = IPPROTO_TCP
  · refine ⟨?_, fun hu => by rw [ht] at hu; cases hu⟩
    have htl := hl.tcp ht
    have hseq : Ids h.toPktHeaders (setBe32 (pkt.take (h.ipLen + h.transLen)) (h.ipLen + 4)
        (be32 (pkt.take (h.ipLen + h.transLen)) (h.ipLen + 4) + m.dataOffset))
        (be16 pkt 4) ((be32 pkt (h.ipLen + 4) + m.dataOffset) % 2 ^ 32)
        (be16 pkt (h.ipLen + 12)) := by
      refine ⟨by rw [length_setBe32, hlen], fun h4 => ?_, fun _ => ?_, fun _ => ?_⟩
      · rw [be16_setBe32_of_disjoint _ (by omega), hids.id h4]
      · rw [be32_setBe32 (by omega), hids.seq ht]
      · rw [be16_setBe32_of_disjoint _ (by omega), hids.flags ht]
    unfold mapTransHeader pieceFlags
    simp only [ht, ↓reduceIte, hids.flags ht, true_and]
    split
    · refine ⟨by rw [length_setBe16, hseq.length], fun h4 => ?_, fun _ => ?_, fun _ => ?_⟩
      · rw [be16_setBe16_of_disjoint _ (by omega), hseq.id h4]
      · rw [be32_setBe16_of_disjoint _ (by omega), hseq.seq ht]
      · rw [be16_setBe16 (by rw [length_setBe32]; omega), Option.getD_some]
        exact Nat.mod_eq_of_lt (Nat.lt_of_le_of_lt Nat.and_le_right (by decide))
    · exact hseq
  · unfold mapTransHeader
    rw [if_neg ht]
    refine ⟨?_, fun hu => ?_⟩
    · have hw := hids.write ⟨fun _ => by omega, fun h => absurd h ht⟩
        (h.transLen + m.gsoSize * m.gsoSegs) (i := h.ipLen + 4)
      exact ⟨hw.length, hw.id, fun h => absurd h ht, fun h => absurd h ht⟩
    · have h8 := hl.udp hu
      exact be16_setBe16 (by omega)

/-- The IP header of a piece. -/
theorem mapIpHeader_ids {hd : PktHeaders} (hl : Layout hd) (h₀ : Ids hd header id seq flags)
    {len : ℕ} (hlt : len < 2 ^ 16) (m : CoalMeta)
    (hudp : hd.transProto = IPPROTO_UDP → be16 header (hd.ipLen + 4) = len - hd.ipLen) :
    Ids hd (mapIpHeader K hd m len header) ((id + m.pktId) % 2 ^ 16) seq flags ∧
      Lens hd (mapIpHeader K hd m len header) len := by
  have hlen := h₀.length
  have h20 := hl.le_ipLen
  unfold mapIpHeader
  rcases hl.ip with ⟨h4, -⟩ | ⟨h6, h40⟩
  · rw [if_pos h4]
    have hid : Ids hd (setBe16 header 4 (be16 header 4 + m.pktId)) ((id + m.pktId) % 2 ^ 16) seq
        flags := by
      refine ⟨by rw [length_setBe16, hlen], fun _ => ?_, fun ht => ?_, fun ht => ?_⟩
      · rw [be16_setBe16 (by omega), h₀.id h4]
      · rw [be32_setBe16_of_disjoint _ (by omega), h₀.seq ht]
      · rw [be16_setBe16_of_disjoint _ (by omega), h₀.flags ht]
    have h2 : Other hd 2 := ⟨fun _ => .inl rfl, fun _ => by omega⟩
    have h10 : Other hd 10 := ⟨fun _ => by omega, fun _ => by omega⟩
    refine ⟨((hid.write h2 _).write h10 _).write h10 _, ?_⟩
    refine Lens.write (Lens.write ⟨?_, fun hu => ?_⟩ (by omega) (fun _ => by omega) _) (by omega)
      (fun _ => by omega) _
    · rw [if_pos h4, if_pos h4, be16_setBe16 (by rw [length_setBe16]; omega)]
      exact Nat.mod_eq_of_lt hlt
    · rw [be16_setBe16_of_disjoint _ (by omega), be16_setBe16_of_disjoint _ (by omega), hudp hu]
  · have h4 : ¬ hd.ipProto = 4 := by rw [h6]; decide
    rw [if_neg h4]
    refine ⟨?_, ?_, fun hu => ?_⟩
    · have hw := h₀.write ⟨fun h => absurd h h4, fun _ => by omega⟩ (len - 40) (i := 4)
      exact ⟨hw.length, fun h => absurd h h4, hw.seq, hw.flags⟩
    · rw [if_neg h4, if_neg h4, be16_setBe16 (by omega)]
      exact Nat.mod_eq_of_lt (by omega)
    · rw [be16_setBe16_of_disjoint _ (by omega), hudp hu]

/-- With a good checksum. -/
theorem rmnetMapPartialCsum_seg {hd : PktHeaders} {skb : RxSkBuff} (hl : Layout hd)
    (hh : skb.hdrs = hd) (h₀ : Ids hd skb.header id seq flags)
    (hn : Lens hd skb.header (hd.ipLen + hd.transLen + skb.payload.length)) :
    Seg hd (rmnetMapPartialCsum K hd skb) skb.payload id seq flags true := by
  obtain ⟨hids, hlens⟩ := h₀.check hl hn (pseudoCsum K hd skb.header
    ((skb.len - hd.ipLen) % 2 ^ 16))
  exact ⟨⟨hh, rfl, hids, rfl⟩, hlens⟩

/-- The offload of the checksum. -/
theorem mapCsum_seg (K : Csum) {hd : PktHeaders} (skb : RxSkBuff) (hl : Layout hd)
    (hh : skb.hdrs = hd) (h₀ : Ids hd skb.header id seq flags)
    (hn : Lens hd skb.header (hd.ipLen + hd.transLen + skb.payload.length)) (good : Bool) :
    Seg hd (if good = true then rmnetMapPartialCsum K hd skb else corruptCsum K hd skb)
      skb.payload id seq flags good := by
  cases good with
  | true => exact rmnetMapPartialCsum_seg hl hh h₀ hn
  | false => exact corruptCsum_seg K skb hl hh h₀ hn

/-- A packet that is stamped if it stands for several. -/
theorem PieceSkb.ofSeg {skb : RxSkBuff} {good : Bool} (hsize : skb.gsoSize = 0)
    (hsegs : skb.gsoSegs = 0)
    (hs : Own h.toPktHeaders skb (pieceData pkt h m) ((be16 pkt 4 + m.pktId) % 2 ^ 16)
      ((be32 pkt (h.ipLen + 4) + m.dataOffset) % 2 ^ 32)
      ((pieceFlags pkt h m).getD (be16 pkt (h.ipLen + 12))) good)
    (hn : m.gsoSegs ≤ 1 →
      Lens h.toPktHeaders skb.header (h.ipLen + h.transLen + (pieceData pkt h m).length))
    (priority : ℕ) :
    PieceSkb pkt h m good
      { (if 1 < m.gsoSegs then gsoStamp h.toPktHeaders m skb else skb) with
        priority := priority } := by
  split
  · rename_i hgt
    exact ⟨⟨hs.hdrs, hs.payload, hs.ids, hs.good⟩, hn, (if_pos hgt).symm, (if_pos hgt).symm⟩
  · rename_i hgt
    exact ⟨⟨hs.hdrs, hs.payload, hs.ids, hs.good⟩, hn, hsize.trans (if_neg hgt).symm,
      hsegs.trans (if_neg hgt).symm⟩

/-- **The packet of a piece.** -/
theorem mapSegmentCoalSkb_piece (K : Csum) (priority : ℕ) (hl : Layout h.toPktHeaders)
    (hle : h.ipLen + h.transLen + m.dataOffset + m.gsoSize * m.gsoSegs ≤ pkt.length)
    (hlt : pkt.length < 2 ^ 16) (valid : Bool) :
    ∃ skb, mapSegmentCoalSkb K h pkt priority m valid = some skb ∧
      PieceSkb pkt h m (valid || h.zeroCsum) skb := by
  have hdata := length_pieceData hle
  have hhlen : h.ipLen + h.transLen ≤ pkt.length := by omega
  obtain ⟨hids, hudp⟩ := mapTransHeader_ids hl hhlen m
  have hshort : h.ipLen + h.transLen + (pieceData pkt h m).length < 2 ^ 16 := by omega
  obtain ⟨hids, hlens⟩ := mapIpHeader_ids (K := K) hl hids hshort m fun hu => by
    rw [hudp hu, hdata, Nat.mod_eq_of_lt (by omega)]
    omega
  have hseg := mapCsum_seg K
    ⟨h.toPktHeaders, _, pieceData pkt h m, .checksumNone, none, 0, 0, 0⟩ hl rfl hids hlens
    (valid || h.zeroCsum)
  refine ⟨_, rfl, PieceSkb.ofSeg ?_ ?_ hseg.toOwn (fun _ => hseg.lens) priority⟩
  · cases valid || h.zeroCsum <;> rfl
  · cases valid || h.zeroCsum <;> rfl

/-- The frame as it is. -/
theorem reuseSkb_own (priority : ℕ) (ipSummed : IpSummed) (hl : Layout h.toPktHeaders)
    {size n : ℕ} (hlen : pkt.length = h.ipLen + h.transLen + size * n) :
    Own h.toPktHeaders (reuseSkb h pkt priority ipSummed) (pieceData pkt h ⟨0, size, n, 0⟩)
      ((be16 pkt 4 + 0) % 2 ^ 16) ((be32 pkt (h.ipLen + 4) + 0) % 2 ^ 32)
      ((pieceFlags pkt h ⟨0, size, n, 0⟩).getD (be16 pkt (h.ipLen + 12)))
      (ipSummed != .checksumNone) := by
  rw [pieceData_whole hlen, pieceFlags_whole hlen, Nat.add_zero, Nat.add_zero (be32 _ _),
    Nat.mod_eq_of_lt (be16_lt _ _), Nat.mod_eq_of_lt (be32_lt _ _)]
  exact ⟨rfl, rfl, Ids.take hl (by omega), rfl⟩

/-- With the lengths of one packet. -/
theorem reuseSkb_piece (priority : ℕ) (ipSummed : IpSummed) (hl : Layout h.toPktHeaders)
    {size n : ℕ} (hlen : pkt.length = h.ipLen + h.transLen + size * n) (hn : n ≤ 1)
    (hlens : Lens h.toPktHeaders (pkt.take (h.ipLen + h.transLen)) pkt.length) :
    PieceSkb pkt h ⟨0, size, n, 0⟩ (ipSummed != .checksumNone)
      (reuseSkb h pkt priority ipSummed) := by
  have hgt : ¬ 1 < n := Nat.not_lt_of_le hn
  refine ⟨reuseSkb_own priority ipSummed hl hlen, fun _ => ?_, (if_neg hgt).symm,
    (if_neg hgt).symm⟩
  have htot : h.ipLen + h.transLen + (pieceData pkt h ⟨0, size, n, 0⟩).length = pkt.length := by
    rw [pieceData_whole hlen, List.length_drop]
    omega
  rw [htot]
  exact hlens

/-- **The frame with a good checksum.** -/
theorem reuseGoodSkb_piece (K : Csum) (priority : ℕ) {p : NlPair}
    (hp : hdr.nlPairs.headD ⟨0, 0, 0⟩ = p) (hl : Layout h.toPktHeaders)
    (hlo : h.ipLen + h.transLen ≤ p.pktLen) (hhi : p.pktLen < 2 ^ 16)
    (hlen : pkt.length = h.ipLen + h.transLen + (p.pktLen - (h.ipLen + h.transLen)) * p.numPackets)
    (hlens : p.numPackets ≤ 1 →
      Lens h.toPktHeaders (pkt.take (h.ipLen + h.transLen)) pkt.length) :
    PieceSkb pkt h ⟨0, p.pktLen - (h.ipLen + h.transLen), p.numPackets, 0⟩ true
      (reuseGoodSkb K hdr h pkt priority) := by
  have hsize : (p.pktLen + 2 ^ 16 - (h.ipLen + h.transLen) % 2 ^ 16) % 2 ^ 16 =
      p.pktLen - (h.ipLen + h.transLen) := by omega
  unfold reuseGoodSkb
  simp only [hp, hsize]
  split
  · rename_i hgt
    have hown := reuseSkb_own priority .checksumUnnecessary hl hlen
    exact ⟨⟨rfl, hown.payload, hown.ids.write hl.other_check _, rfl⟩,
      fun hle => absurd hgt (Nat.not_lt_of_le hle), (if_pos hgt).symm, (if_pos hgt).symm⟩
  · rename_i hgt
    have hle : p.numPackets ≤ 1 := Nat.le_of_not_lt hgt
    exact reuseSkb_piece priority .checksumUnnecessary hl hlen hle (hlens hle)

end Linear

/-! ## Both paths -/

variable {mem : Pages} {d : FragDescriptor}

/-- The packets of a descriptor. -/
def FragDescriptor.packets (K : Csum) (mem : Pages) (d : FragDescriptor) : List Packet :=
  match rmnetAllocSkb K mem d with
  | none => []
  | some skb => skb.packets

/-- The packets of a frame in page fragments. -/
def fragFramePackets (K : Csum) (mem : Pages) (d : FragDescriptor) (mask : ℕ) (gro : Bool) :
    List Packet :=
  (rmnetFragSegmentCoalData K mem d mask gro).flatMap (FragDescriptor.packets K mem)

/-- The packets of a frame in a linear buffer. -/
def mapFramePackets (K : Csum) (skip : SkipExthdr) (bytes : List UInt8) (priority mask : ℕ)
    (gro : Bool) : List Packet :=
  (rmnetMapSegmentCoalSkb K skip bytes priority mask gro).flatMap RxSkBuff.packets

/-- A frame with consistent lengths: it has a payload, extension headers end in the packet, if
    the headers are found the frame is well-formed, and the header of a frame of one packet has
    that packet's lengths. -/
structure Consistent (bytes : List UInt8) : Prop where
  long : mapHeaderSize + coalHeaderSize < bytes.length
  short : bytes.length < 2 ^ 16 + mapHeaderSize + coalHeaderSize
  extHdrs : ExtHdrsFit (framePayload bytes)
  wellFormed : ∀ h, frameHeaders bytes = some h → WellFormed bytes (frameHdr bytes) h
  lens : ∀ h, frameHeaders bytes = some h → ∀ p, (frameHdr bytes).nlos = [p] →
    p.numPackets ≤ 1 → Lens h.toPktHeaders ((framePayload bytes).take (h.ipLen + h.transLen))
      (framePayload bytes).length

/-- If the hardware does not vouch for the packet of a frame, its checksum is right over its
    bytes just if it is right over what lies in memory from the first fragment on. -/
def SameVerdict (K : Csum) (mem : Pages) (d : FragDescriptor) : Prop :=
  ∀ h, frameHeaders (d.bytes mem) = some h →
    (rmnetMapV5CsumBuggy (frameHdr (d.bytes mem)) && !h.zeroCsum) = true →
    frameVerdict K mem d =
      rmnetMapValidateCsum K h.toPktHeaders (framePayload (d.bytes mem))

/-- The pseudo header is in the first 40 bytes, if they are there. -/
theorem pseudoCsum_readPage (K : Csum) {hd : PktHeaders} (hl : Layout hd) (page off : ℕ) {n : ℕ}
    (hn : hd.ipLen ≤ n) (len : ℕ) :
    pseudoCsum K hd (readPage mem page off 40) len =
      pseudoCsum K hd (readPage mem page off n) len := by
  have hfield : ∀ i k, i + k ≤ 40 → i + k ≤ n →
      ((readPage mem page off 40).drop i).take k = ((readPage mem page off n).drop i).take k := by
    intro i k h40 hn
    rw [drop_readPage, drop_readPage, take_readPage _ _ _ (by omega),
      take_readPage _ _ _ (by omega)]
  unfold pseudoCsum
  rcases hl.ip with ⟨h4, h20⟩ | ⟨h6, h40⟩
  · rw [if_pos h4, if_pos h4, hfield 12 8 (by decide) (by omega)]
  · have h4 : ¬ hd.ipProto = 4 := by rw [h6]; decide
    rw [if_neg h4, if_neg h4, hfield 8 32 (by decide) (by omega)]

/-- In one fragment the packet is what lies in memory. -/
theorem rmnetFragValidateCsum_single (K : Csum) {frag : SkbFrag} (hs : d.Sized)
    (hone : d.frags = [frag]) (hl : Layout d.toPktHeaders) (hle : d.ipLen ≤ d.len) :
    rmnetFragValidateCsum K mem d = rmnetMapValidateCsum K d.toPktHeaders (d.bytes mem) := by
  have hsize : d.len = frag.size := by
    rw [hs, hone, fragsLen_cons]
    rfl
  have hbytes : d.bytes mem = readPage mem frag.page frag.off frag.size := by
    rw [FragDescriptor.bytes, hone, fragsBytes_cons]
    exact List.append_nil _
  unfold rmnetFragValidateCsum rmnetMapValidateCsum rmnetFragDataPtr
  rw [hone, hbytes, length_readPage]
  show (K.fold (K.ofBytes _ (pseudoCsum K _ (readPage mem frag.page frag.off 40) _)) == 0) =
    (K.fold (K.ofBytes (((readPage mem frag.page frag.off frag.size).drop d.ipLen).take
      (frag.size - d.ipLen)) _) == 0)
  rw [pseudoCsum_readPage K hl frag.page frag.off (hsize ▸ hle), drop_readPage,
    take_readPage _ _ _ (Nat.le_refl _), hsize]

/-- **A frame in one fragment gets the right verdict.** -/
theorem sameVerdict_of_single (K : Csum) {frag : SkbFrag} (hf : Fresh d)
    (hc : Consistent (d.bytes mem)) (hone : d.frags = [frag]) : SameVerdict K mem d := by
  intro h hh _
  have hw := hc.wellFormed h hh
  obtain ⟨frags, hframe, hbytes, hfrags⟩ := coalFrame_flat mem hf hc.long
  have hlong := hc.long
  rw [hf.sized.length_bytes mem, hf.sized, hone, fragsLen_cons] at hlong
  have hlt : ¬ frag.size ≤ mapHeaderSize + coalHeaderSize := Nat.not_le_of_lt hlong
  rw [hone, pullFrags, if_neg (by decide), if_neg hlt] at hfrags
  rw [frameVerdict, hframe, hh, Option.map_some, ← hbytes]
  have hlen := hw.payload
  rw [← hbytes, length_fragsBytes] at hlen
  have hle : h.ipLen ≤ fragsLen frags := by omega
  exact rmnetFragValidateCsum_single (d := frameDesc h frags d.priority) K rfl hfrags hw.layout hle

/-- The packets of two packets for the same piece. -/
theorem PieceSkb.packets_inj {skb skb' : RxSkBuff} {good good' : Bool}
    (hl : Layout h.toPktHeaders) (hs : PieceSkb pkt h m good skb)
    (hs' : PieceSkb pkt h m good' skb')
    (hle : h.ipLen + h.transLen + m.dataOffset + m.gsoSize * m.gsoSegs ≤ pkt.length)
    (hone : m.gsoSegs ≤ 1) : skb.packets = skb'.packets ↔ good = good' := by
  rw [hs.packets_eq hl hle, hs'.packets_eq hl hle, if_neg (Nat.not_lt_of_le hone),
    if_neg (Nat.not_lt_of_le hone)]
  constructor
  · intro heq
    exact congrArg Packet.csumGood (List.cons.inj heq).1
  · rintro rfl
    rfl

theorem SegmentsOf.packets {valid : Bool} (K : Csum) (hs : SegmentsOf mem pkt h m valid d) :
    ∃ skb, PieceSkb pkt h m (valid || h.zeroCsum) skb ∧
      FragDescriptor.packets K mem d = skb.packets := by
  obtain ⟨skb, halloc, hp⟩ := hs.skb K
  refine ⟨skb, hp, ?_⟩
  rw [FragDescriptor.packets, halloc]

/-- A frame that is cut. -/
theorem cut_packets {c : Cuts} {coal : FragDescriptor} (priority : ℕ)
    (hh : Holding mem pkt h coal) (hmeta : coal.toCoalMeta = {}) (hc : c.Wf)
    (hlen : pkt.length = h.ipLen + h.transLen + c.total) :
    (segmentNlos (mapSegmentCoalSkb K h pkt priority) 8 c.gro c.hlen c.nlos 0 c.mask
        ({}, [])).2.flatMap RxSkBuff.packets =
      (segmentNlos (fun m valid => fragSegmentData mem { coal with toCoalMeta := m } valid) 16 c.gro
        c.hlen c.nlos 0 c.mask (coal.toCoalMeta, [])).2.flatMap (FragDescriptor.packets K mem) := by
  -- every piece of the frame becomes a packet in both paths, with the same segments
  have hpiece : ∀ p ∈ c.pieces 8, ∃ skb d,
      mapSegmentCoalSkb K h pkt priority p.1 p.2 = some skb ∧
      fragSegmentData mem { coal with toCoalMeta := p.1 } p.2 = some d ∧
      skb.packets = FragDescriptor.packets K mem d := by
    intro p hp
    have hle := Cuts.piece_le hc (Nat.le_refl 8) hp
    have hle' : h.ipLen + h.transLen + p.1.dataOffset + p.1.gsoSize * p.1.gsoSegs ≤ pkt.length := by
      omega
    obtain ⟨skb, hskb, hs⟩ := mapSegmentCoalSkb_piece K priority hh.layout hle' hh.short p.2
    obtain ⟨d, hd, hpd⟩ := fragSegmentData_eq p.2 (hh.setMeta p.1) hle'
    obtain ⟨skb', hs', hpackets⟩ := (hpd.segmentsOf hh hle').packets K
    refine ⟨skb, d, hskb, hd, ?_⟩
    rw [hpackets, hs.packets_eq hh.layout hle', hs'.packets_eq hh.layout hle']
  have hmap : Cuts.Makes (mapSegmentCoalSkb K h pkt priority)
      (fun p => (mapSegmentCoalSkb K h pkt priority p.1 p.2).getD
        (reuseSkb h pkt priority .checksumNone)) (c.pieces 8) := by
    intro p hp
    obtain ⟨skb, d, hskb, -, -⟩ := hpiece p hp
    simp only [hskb, Option.getD_some]
  have h16 : c.pieces 16 = c.pieces 8 := Cuts.pieces_width hc (by decide)
  have hfrag : Cuts.Makes (fun m valid => fragSegmentData mem { coal with toCoalMeta := m } valid)
      (fun p => (fragSegmentData mem { coal with toCoalMeta := p.1 } p.2).getD {})
      (c.pieces 16) := by
    rw [h16]
    intro p hp
    obtain ⟨skb, d, -, hd, -⟩ := hpiece p hp
    simp only [hd, Option.getD_some]
  rw [hmeta, Cuts.segmentNlos_eq hmap, Cuts.segmentNlos_eq hfrag, h16,
    List.flatMap_map, List.flatMap_map]
  refine List.flatMap_congr fun p hp => ?_
  obtain ⟨skb, d, hskb, hd, hpackets⟩ := hpiece p hp
  rw [hskb, hd, Option.getD_some, Option.getD_some, hpackets]

/-- The linear path on a frame. -/
theorem rmnetMapSegmentCoalSkb_eq (hparse : mapParseHeaders skip (framePayload bytes) = some h)
    (priority mask : ℕ) (gro : Bool) :
    rmnetMapSegmentCoalSkb K skip bytes priority mask gro =
      let c := frameCuts (frameHdr bytes) h mask gro
      if rmnetMapV5CsumBuggy (frameHdr bytes) && !h.zeroCsum then
        [reuseSkb h (framePayload bytes) priority
          (if rmnetMapValidateCsum K h.toPktHeaders (framePayload bytes) then .checksumUnnecessary
            else .checksumNone)]
      else if c.gro && (frameHdr bytes).numNlos == 1 && (frameHdr bytes).csumValid then
        [reuseGoodSkb K (frameHdr bytes) h (framePayload bytes) priority]
      else
        (segmentNlos (mapSegmentCoalSkb K h (framePayload bytes) priority) 8 c.gro c.hlen c.nlos 0
          c.mask ({}, [])).2 := by
  unfold rmnetMapSegmentCoalSkb
  simp only
  rw [show bytes.drop (mapHeaderSize + coalHeaderSize) = framePayload bytes from rfl, hparse]
  rfl

/-- A buggy frame has one packet. -/
theorem nlos_of_buggy (hb : rmnetMapV5CsumBuggy hdr = true) :
    hdr.numNlos = 1 ∧ (hdr.nlPairs.headD ⟨0, 0, 0⟩).numPackets = 1 := by
  unfold rmnetMapV5CsumBuggy at hb
  split at hb
  · cases hb
  · rename_i hn
    obtain ⟨hnlo, hpkts⟩ := not_or.1 hn
    have hpkts := not_not.1 hpkts
    refine ⟨not_not.1 hnlo, ?_⟩
    cases hl : hdr.nlPairs with
    | nil => rw [hl] at hpkts; cases hpkts
    | cons p l => rw [hl] at hpkts; exact Option.some.inj hpkts

theorem ipSummed_ite (v : Bool) :
    ((if v = true then IpSummed.checksumUnnecessary else .checksumNone) != .checksumNone) = v := by
  cases v <;> rfl

/-- A frame that is taken as it is. -/
theorem reuse_packets {p : NlPair} {coal : FragDescriptor} {good csumValid : Bool} {skb : RxSkBuff}
    (valid : Bool) (hh : Holding mem pkt h coal) (hmeta : coal.toCoalMeta = {})
    (hp : hdr.nlPairs.headD ⟨0, 0, 0⟩ = p) (hlo : h.ipLen + h.transLen ≤ p.pktLen)
    (hhi : p.pktLen < 2 ^ 16)
    (hlen : pkt.length = h.ipLen + h.transLen + (p.pktLen - (h.ipLen + h.transLen)) * p.numPackets)
    (hgood : csumValid = (valid || h.zeroCsum))
    (hs : PieceSkb pkt h ⟨0, p.pktLen - (h.ipLen + h.transLen), p.numPackets, 0⟩ good skb) :
    (good = csumValid → [skb].flatMap RxSkBuff.packets =
      [reuseDescriptor hdr coal csumValid].flatMap (FragDescriptor.packets K mem)) ∧
    (p.numPackets ≤ 1 → [skb].flatMap RxSkBuff.packets =
      [reuseDescriptor hdr coal csumValid].flatMap (FragDescriptor.packets K mem) →
      good = csumValid) := by
  have hle : h.ipLen + h.transLen + 0 + (p.pktLen - (h.ipLen + h.transLen)) * p.numPackets ≤
      pkt.length := by omega
  obtain ⟨skb', hs', hpackets⟩ :=
    (reuseDescriptor_segmentsOf hh hmeta hp hlo hhi hlen hgood).packets K
  rw [← hgood] at hs'
  rw [List.flatMap_singleton, List.flatMap_singleton, hpackets]
  refine ⟨fun heq => ?_, fun hone => (hs.packets_inj hh.layout hs' hle hone).1⟩
  rw [hs.packets_eq hh.layout hle, hs'.packets_eq hh.layout hle, heq]

/-- **The two paths agree, just if the verdicts do**: for every frame with consistent lengths,
    however it is cut into fragments, every error mask and either GRO setting. -/
theorem segmentCoal_agree (K : Csum) (skip : SkipExthdr) (mem : Pages) (d : FragDescriptor)
    (nloErrMask : ℕ) (gro : Bool) (hskip : SkipsExthdrs skip) (hf : Fresh d)
    (hc : Consistent (d.bytes mem)) :
    mapFramePackets K skip (d.bytes mem) d.priority nloErrMask gro =
        fragFramePackets K mem d nloErrMask gro ↔
      SameVerdict K mem d := by
  have hlt : (framePayload (d.bytes mem)).length < 2 ^ 16 := by
    have := hc.short
    rw [framePayload, List.length_drop]
    omega
  have hparse : mapParseHeaders skip (framePayload (d.bytes mem)) = frameHeaders (d.bytes mem) :=
    mapParseHeaders_eq hskip hc.extHdrs hlt
  obtain ⟨frags, hframe, hbytes, -⟩ := coalFrame_flat mem hf hc.long
  unfold mapFramePackets fragFramePackets SameVerdict
  cases hh : frameHeaders (d.bytes mem) with
  | none =>
    -- both drop the frame
    rw [hh] at hparse hframe
    have hmap : rmnetMapSegmentCoalSkb K skip (d.bytes mem) d.priority nloErrMask gro = [] := by
      unfold rmnetMapSegmentCoalSkb
      simp only
      rw [show (d.bytes mem).drop (mapHeaderSize + coalHeaderSize) = framePayload (d.bytes mem)
        from rfl, hparse]
    have hfrag : rmnetFragSegmentCoalData K mem d nloErrMask gro = [] := by
      rw [rmnetFragSegmentCoalData, hframe]
      rfl
    rw [hmap, hfrag]
    constructor
    · intro _ h' h0
      cases h0
    · exact fun _ => rfl
  | some h =>
    rw [hh] at hparse hframe
    have hw := hc.wellFormed h hh
    have hcuts := hw.cuts nloErrMask gro
    have hold : Holding mem (framePayload (d.bytes mem)) h (frameDesc h frags d.priority) :=
      ⟨hbytes, rfl, rfl, rfl, ⟨rfl, rfl, rfl⟩, hw.parsed, hw.layout, hw.length_lt⟩
    -- the lengths of a frame with one packet length
    have hone (hnlo : (frameHdr (d.bytes mem)).numNlos = 1) :=
      let p := (frameHdr (d.bytes mem)).nlPairs.headD ⟨0, 0, 0⟩
      have hnlos : (frameHdr (d.bytes mem)).nlos = [p] := hw.single hnlo
      have hfits := hcuts.fits p (by rw [frameCuts, hnlos]; exact List.mem_cons_self)
      And.intro hfits (And.intro (hw.length_single hnlos) (hc.lens h hh p hnlos))
    rw [rmnetMapSegmentCoalSkb_eq hparse]
    unfold rmnetFragSegmentCoalData frameVerdict
    rw [hframe]
    by_cases hbuggy : (rmnetMapV5CsumBuggy (frameHdr (d.bytes mem)) && !h.zeroCsum) = true
    · simp only [hbuggy, ↓reduceIte, Option.map_some]
      obtain ⟨hb, hz⟩ := Bool.and_eq_true_iff.1 hbuggy
      have hz : h.zeroCsum = false := by simpa using hz
      obtain ⟨hnlo, hpkts⟩ := nlos_of_buggy hb
      obtain ⟨⟨hlo, hhi, -⟩, hlen, hlens⟩ := hone hnlo
      have hn := Nat.le_of_eq hpkts
      obtain ⟨hto, hof⟩ := reuse_packets (K := K)
        (rmnetFragValidateCsum K mem (frameDesc h frags d.priority)) hold rfl rfl hlo hhi hlen
        (by rw [hz, Bool.or_false])
        (reuseSkb_piece d.priority (if rmnetMapValidateCsum K h.toPktHeaders
          (framePayload (d.bytes mem)) then .checksumUnnecessary else .checksumNone) hw.layout hlen
          hn (hlens hn))
      rw [ipSummed_ite] at hto hof
      constructor
      · rintro heq h' hsome -
        obtain rfl := Option.some.inj hsome
        exact (hof hn heq).symm
      · intro hsame
        exact hto (hsame h rfl hbuggy).symm
    · simp only [hbuggy, Bool.false_eq_true, ↓reduceIte, Option.map_some]
      have hnot : ∀ h', some h = some h' →
          (rmnetMapV5CsumBuggy (frameHdr (d.bytes mem)) && !h'.zeroCsum) = true →
          rmnetFragValidateCsum K mem (frameDesc h frags d.priority) =
            rmnetMapValidateCsum K h'.toPktHeaders (framePayload (d.bytes mem)) := by
        rintro h' hsome hb
        obtain rfl := Option.some.inj hsome
        exact absurd hb hbuggy
      refine ⟨fun _ => hnot, fun _ => ?_⟩
      by_cases hfast : ((frameCuts (frameHdr (d.bytes mem)) h nloErrMask gro).gro &&
          (frameHdr (d.bytes mem)).numNlos == 1 && (frameHdr (d.bytes mem)).csumValid) = true
      · have hfast' : (gro && h.plain && (frameHdr (d.bytes mem)).numNlos == 1 &&
            (frameHdr (d.bytes mem)).csumValid) = true := hfast
        simp only [hfast, hfast', ↓reduceIte]
        have hnlo : (frameHdr (d.bytes mem)).numNlos = 1 := by
          simp only [Bool.and_eq_true, beq_iff_eq] at hfast
          exact hfast.1.2
        obtain ⟨⟨hlo, hhi, -⟩, hlen, hlens⟩ := hone hnlo
        exact (reuse_packets true hold rfl rfl hlo hhi hlen (Bool.true_or _).symm
          (reuseGoodSkb_piece K d.priority rfl hw.layout hlo hhi hlen hlens)).1 rfl
      · have hfast' : ¬ (gro && h.plain && (frameHdr (d.bytes mem)).numNlos == 1 &&
            (frameHdr (d.bytes mem)).csumValid) = true := hfast
        simp only [hfast, hfast', Bool.false_eq_true, ↓reduceIte]
        exact cut_packets d.priority hold rfl hcuts hw.payload

/-! ## A frame in two fragments -/

/-- `ipv6_skip_exthdr`, as a walk. -/
def walkExthdrs : SkipExthdr := fun pkt start nexthdr =>
  match ipv6SkipExthdr (flatReader pkt) start nexthdr 0 false with
  | some ext => (some ext.start, ext.nexthdr, ext.fragOff)
  | none => (none, nexthdr, 0)

theorem skipsExthdrs_walk : SkipsExthdrs walkExthdrs := by
  intro pkt start nexthdr
  unfold walkExthdrs
  cases ipv6SkipExthdr (flatReader pkt) start nexthdr 0 false with
  | none => exact ⟨rfl, rfl⟩
  | some ext => rfl

/-- The MAP and the coalescing header of a frame of one TCP packet with PSH, of 41 bytes, and
    its IPv4 header. -/
def pushedHead : List UInt8 :=
  [0x40, 1, 0, 41] ++ [2, 0x10, 4, 0, 0, 41, 1, 1] ++ List.replicate 20 0 ++
  [0x45, 0, 0, 41, 0, 7, 0, 0, 64, 6, 102, 198, 10, 0, 0, 1, 10, 0, 0, 2]

/-- Its TCP header with the right checksum, and its payload. -/
def pushedTail : List UInt8 :=
  [0, 80, 0, 80, 0, 0, 0, 100, 0, 0, 0, 0, 0x50, 0x18, 1, 0, 152, 197, 0, 0, 1]

/-- Each in a page of its own. -/
def pushedPages : Pages := fun page i => (if page = 0 then pushedHead else pushedTail).getD i 0

def pushedDesc : FragDescriptor := { frags := [⟨0, 0, 52⟩, ⟨1, 0, 21⟩], len := 73 }

def pushedHeaders : ParsedHeaders :=
  { ipProto := 4, ipLen := 20, transProto := 6, transLen := 20, plain := true }

/-- What there is to read in the frame. -/
theorem pushed_reads :
    pushedDesc.bytes pushedPages = pushedHead ++ pushedTail ∧
    frameHeaders (pushedHead ++ pushedTail) = some pushedHeaders ∧
    rmnetFragDataCheckCoalHeader pushedPages pushedDesc = some 1 ∧
    rmnetMapDataCheckCoalHeader (pushedHead ++ pushedTail) = some 1 ∧
    mapFramePackets inetCsum walkExthdrs (pushedHead ++ pushedTail) 0 1 true ≠
      fragFramePackets inetCsum pushedPages pushedDesc 1 true := by
  decide +kernel

theorem pushed_bytes : pushedDesc.bytes pushedPages = pushedHead ++ pushedTail := pushed_reads.1

theorem pushed_fresh : Fresh pushedDesc := by
  refine ⟨rfl, fun frag hfrag => ?_⟩
  rcases List.mem_cons.1 hfrag with rfl | hfrag
  · decide
  · rw [List.mem_singleton.1 hfrag]
    decide

theorem pushed_frameHeaders : frameHeaders (pushedHead ++ pushedTail) = some pushedHeaders :=
  pushed_reads.2.1

theorem pushed_consistent : Consistent (pushedDesc.bytes pushedPages) := by
  rw [pushed_bytes]
  refine ⟨by decide, by decide, fun h6 => absurd h6 (by decide), fun h hh => ?_,
    fun h hh p hp _ => ?_⟩
  · obtain rfl := Option.some.inj (pushed_frameHeaders.symm.trans hh)
    exact ⟨by decide, by decide, rfl, pushed_frameHeaders, by decide, by decide, by decide +kernel,
      by decide +kernel⟩
  · obtain rfl := Option.some.inj (pushed_frameHeaders.symm.trans hh)
    exact ⟨by decide +kernel, fun hu => absurd hu (by decide)⟩

theorem segmentCoal_agree_pushed :
    mapFramePackets inetCsum walkExthdrs (pushedDesc.bytes pushedPages) pushedDesc.priority 1 true =
        fragFramePackets inetCsum pushedPages pushedDesc 1 true ↔
      SameVerdict inetCsum pushedPages pushedDesc :=
  segmentCoal_agree _ _ _ _ _ _ skipsExthdrs_walk pushed_fresh pushed_consistent

/-- **The fragments' path reads behind the first fragment**: the packet has a good checksum in one
    path and a bad one in the other. -/
theorem segmentCoal_pushed :
    SkipsExthdrs walkExthdrs ∧ Fresh pushedDesc ∧
    rmnetFragDataCheckCoalHeader pushedPages pushedDesc = some 1 ∧
    rmnetMapDataCheckCoalHeader (pushedDesc.bytes pushedPages) = some 1 ∧
    Consistent (pushedDesc.bytes pushedPages) ∧
    mapFramePackets inetCsum walkExthdrs (pushedDesc.bytes pushedPages) 0 1 true ≠
      fragFramePackets inetCsum pushedPages pushedDesc 1 true := by
  obtain ⟨-, -, hfrag, hmap, hdiffer⟩ := pushed_reads
  refine ⟨skipsExthdrs_walk, pushed_fresh, hfrag, ?_, pushed_consistent, ?_⟩
  · rw [pushed_bytes]
    exact hmap
  · rw [pushed_bytes]
    exact hdiffer

end Sm8850.Rmnet
