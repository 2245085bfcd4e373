/-
  What the packets for the stack stand for.

  * `Ids` and `Lens` list the header fields that segmentation and the checksum offload write,
    `Ids.write` says when a write leaves them alone.
  * `Seg` lists what is a packet's own; **`Seg.expand`** says what its segments are.
-/
import Sm8850.Rmnet.Coalesce

namespace Sm8850.Rmnet

open Lib.Bytes

variable {hd : PktHeaders} {header : List UInt8} {id seq flags len i v : ℕ}

/-- The lengths of the headers. -/
structure Layout (h : PktHeaders) : Prop where
  ip : (h.ipProto = 4 ∧ 20 ≤ h.ipLen) ∨ (h.ipProto = 6 ∧ 40 ≤ h.ipLen)
  trans : (h.transProto = IPPROTO_TCP ∧ 20 ≤ h.transLen) ∨
    (h.transProto = IPPROTO_UDP ∧ h.transLen = 8)

theorem Layout.udp (hl : Layout hd) (hu : hd.transProto = IPPROTO_UDP) : hd.transLen = 8 := by
  rcases hl.trans with ⟨ht, -⟩ | ⟨-, h8⟩
  · rw [hu] at ht
    cases ht
  · exact h8

theorem Layout.tcp (hl : Layout hd) (ht : hd.transProto = IPPROTO_TCP) : 20 ≤ hd.transLen := by
  rcases hl.trans with ⟨-, h20⟩ | ⟨hu, -⟩
  · exact h20
  · rw [ht] at hu
    cases hu

/-! ## Header fields -/

/-- The fields that tell the packets of a frame from one another. -/
structure Ids (hd : PktHeaders) (header : List UInt8) (id₀ seq₀ flags₀ : ℕ) : Prop where
  length : header.length = hd.ipLen + hd.transLen
  id : hd.ipProto = 4 → be16 header 4 = id₀
  seq : hd.transProto = IPPROTO_TCP → be32 header (hd.ipLen + 4) = seq₀
  flags : hd.transProto = IPPROTO_TCP → be16 header (hd.ipLen + 12) = flags₀

/-- The length fields, for a packet of this length. -/
structure Lens (hd : PktHeaders) (header : List UInt8) (len : ℕ) : Prop where
  ip : (if hd.ipProto = 4 then be16 header 2 else be16 header 4) =
    len - (if hd.ipProto = 4 then 0 else 40)
  udp : hd.transProto = IPPROTO_UDP → be16 header (hd.ipLen + 4) = len - hd.ipLen

/-- A field that is none of these. -/
structure Other (hd : PktHeaders) (i : ℕ) : Prop where
  ip : hd.ipProto = 4 → i = 2 ∨ 6 ≤ i
  trans : hd.transProto = IPPROTO_TCP →
    i + 1 < hd.ipLen + 4 ∨ i = hd.ipLen + 8 ∨ i = hd.ipLen + 10 ∨ hd.ipLen + 14 ≤ i

/-- Such a write leaves the fields alone. -/
theorem Ids.write (h : Ids hd header id seq flags) (ho : Other hd i) (v : ℕ) :
    Ids hd (setBe16 header i v) id seq flags where
  length := by rw [length_setBe16, h.length]
  id h4 := by
    have := ho.ip h4
    rw [be16_setBe16_of_disjoint _ (by omega), h.id h4]
  seq ht := by
    have := ho.trans ht
    rw [be32_setBe16_of_disjoint _ (by omega), h.seq ht]
  flags ht := by
    have := ho.trans ht
    rw [be16_setBe16_of_disjoint _ (by omega), h.flags ht]

/-- A write behind the length of the IP packet that leaves that of UDP alone too. -/
theorem Lens.write (h : Lens hd header len) (hip : 6 ≤ i)
    (hudp : hd.transProto = IPPROTO_UDP → i + 1 < hd.ipLen + 4 ∨ hd.ipLen + 6 ≤ i) (v : ℕ) :
    Lens hd (setBe16 header i v) len where
  ip := by
    rw [be16_setBe16_of_disjoint _ (by omega), be16_setBe16_of_disjoint _ (by omega), h.ip]
  udp hu := by
    have := hudp hu
    rw [be16_setBe16_of_disjoint _ (by omega), h.udp hu]

theorem Layout.le_ipLen (hl : Layout hd) : 20 ≤ hd.ipLen := by
  rcases hl.ip with ⟨-, h⟩ | ⟨-, h⟩ <;> omega

/-- The length of the UDP packet is written. -/
theorem Ids.udpLen (hl : Layout hd) (h : Ids hd header id seq flags)
    (hip : (if hd.ipProto = 4 then be16 header 2 else be16 header 4) =
      len - (if hd.ipProto = 4 then 0 else 40)) (hv : v % 2 ^ 16 = len - hd.ipLen) :
    Ids hd (if hd.transProto = IPPROTO_TCP then header else setBe16 header (hd.ipLen + 4) v)
      id seq flags ∧
    Lens hd (if hd.transProto = IPPROTO_TCP then header else setBe16 header (hd.ipLen + 4) v)
      len := by
  have hle := hl.le_ipLen
  by_cases ht : hd.transProto = IPPROTO_TCP
  · rw [if_pos ht]
    refine ⟨h, hip, fun hu => ?_⟩
    rw [ht] at hu
    cases hu
  · rw [if_neg ht]
    have hlen := h.length
    refine ⟨h.write ⟨fun _ => by omega, fun h => absurd h ht⟩ v, ?_, fun hu => ?_⟩
    · rw [be16_setBe16_of_disjoint _ (by omega), be16_setBe16_of_disjoint _ (by omega), hip]
    · have h8 := hl.udp hu
      rw [be16_setBe16 (by omega)]
      exact hv

theorem le_checkOffset (hd : PktHeaders) : hd.ipLen + 6 ≤ checkOffset hd := by
  unfold checkOffset
  split <;> omega

/-- The checksum is another field. -/
theorem Layout.other_check (hl : Layout hd) : Other hd (checkOffset hd) := by
  have hle := hl.le_ipLen
  have hoff := le_checkOffset hd
  refine ⟨fun _ => by omega, fun ht => ?_⟩
  rw [checkOffset, if_pos ht]
  omega

/-- The checksum of the transport header is written. -/
theorem Ids.check (hl : Layout hd) (h : Ids hd header id seq flags) (hn : Lens hd header len)
    (v : ℕ) : Ids hd (setBe16 header (checkOffset hd) v) id seq flags ∧
      Lens hd (setBe16 header (checkOffset hd) v) len := by
  have hle := hl.le_ipLen
  have hoff := le_checkOffset hd
  exact ⟨h.write hl.other_check v, hn.write (by omega) (fun _ => by omega) v⟩

/-! ## Segments -/

/-- What is a packet's own. -/
structure Own (hd : PktHeaders) (skb : RxSkBuff) (data : List UInt8) (id₀ seq₀ flags₀ : ℕ)
    (good₀ : Bool) : Prop where
  hdrs : skb.hdrs = hd
  payload : skb.payload = data
  ids : Ids hd skb.header id₀ seq₀ flags₀
  good : (skb.ipSummed != .checksumNone) = good₀

/-- Also, its length fields are right. -/
structure Seg (hd : PktHeaders) (skb : RxSkBuff) (data : List UInt8) (id₀ seq₀ flags₀ : ℕ)
    (good₀ : Bool) : Prop extends Own hd skb data id₀ seq₀ flags₀ good₀ where
  lens : Lens hd skb.header (hd.ipLen + hd.transLen + data.length)

/-- The flags of the `i`-th segment. -/
def segFlags (flags segs i : ℕ) : ℕ :=
  let flags := if i + 1 < segs then clearDangerous flags else flags
  if 0 < i then clearCwr flags else flags

/-- The `i`-th of the segments of such a packet. -/
def segPacket (hd : PktHeaders) (payload : List UInt8) (id seq flags : ℕ) (good : Bool)
    (size segs i : ℕ) : Packet where
  payload := (payload.drop (i * size)).take size
  ipId := only (hd.ipProto = 4) ((id + i) % 2 ^ 16)
  ipTotalLen := hd.ipLen + hd.transLen + size - (if hd.ipProto = 4 then 0 else 40)
  tcpSeq := only (hd.transProto = IPPROTO_TCP) ((seq + i * size) % 2 ^ 32)
  tcpFlags := only (hd.transProto = IPPROTO_TCP) (segFlags flags segs i)
  udpLen := only (hd.transProto = IPPROTO_UDP) (8 + size)
  csumGood := good

theorem only_congr {p : Prop} [Decidable p] {v w : ℕ} (h : p → v = w) : only p v = only p w := by
  unfold only
  split
  · rename_i hp
    rw [h hp]
  · rfl

/-- **The segments of a packet**: only its own fields matter, and the length fields if it is not
    cut. -/
theorem Own.expand {skb : RxSkBuff} {payload : List UInt8} {id seq flags size segs : ℕ}
    {good : Bool} (hl : Layout hd) (hs : Own hd skb payload id seq flags good)
    (hlens : segs = 1 → Lens hd skb.header (hd.ipLen + hd.transLen + payload.length))
    (hlen : payload.length = size * segs) :
    skb.expand size segs =
      (List.range segs).map (segPacket hd payload id seq flags good size segs) := by
  unfold RxSkBuff.expand
  split
  · rename_i h1
    have hl₁ := hlens h1
    subst h1
    rw [Nat.mul_one] at hlen
    have htot := hl₁.ip
    rw [hlen] at htot
    show [_] = [_]
    congr 1
    rw [RxSkBuff.packet, segPacket, Packet.mk.injEq, Nat.zero_mul, List.drop_zero, Nat.add_zero,
      Nat.add_zero, hs.payload, hs.hdrs, htot]
    refine ⟨(List.take_of_length_le (Nat.le_of_eq hlen)).symm, only_congr fun h4 => ?_, rfl,
      only_congr fun ht => ?_, only_congr fun ht => ?_, only_congr fun hu => ?_, hs.good⟩
    · rw [← hs.ids.id h4]
      exact (Nat.mod_eq_of_lt (be16_lt _ _)).symm
    · have hlt : seq < 2 ^ 32 := hs.ids.seq ht ▸ be32_lt _ _
      rw [hs.ids.seq ht, Nat.add_zero, Nat.mod_eq_of_lt hlt]
    · rw [hs.ids.flags ht]
      rfl
    · rw [hl₁.udp hu, hlen, hl.udp hu]
      omega
  · refine List.map_congr_left fun i hi => ?_
    have hi := List.mem_range.1 hi
    have hchunk : ((payload.drop (i * size)).take size).length = size := by
      rw [List.length_take, List.length_drop, hlen]
      have : (i + 1) * size ≤ segs * size := Nat.mul_le_mul_right _ hi
      rw [Nat.succ_mul, Nat.mul_comm segs] at this
      omega
    rw [RxSkBuff.segment, segPacket, Packet.mk.injEq, hs.payload, hs.hdrs, hchunk, hs.ids.length]
    refine ⟨rfl, only_congr fun h4 => ?_, ?_, only_congr fun ht => ?_, only_congr fun ht => ?_, rfl,
      hs.good⟩
    · rw [hs.ids.id h4]
    · split <;> rfl
    · rw [hs.ids.seq ht]
    · rw [hs.ids.flags ht]
      rfl

/-- With a faked bad checksum. -/
theorem corruptCsum_seg (K : Csum) (skb : RxSkBuff) (hl : Layout hd) (hh : skb.hdrs = hd)
    (h : Ids hd skb.header id seq flags)
    (hn : Lens hd skb.header (hd.ipLen + hd.transLen + skb.payload.length)) :
    Seg hd (corruptCsum K hd skb) skb.payload id seq flags false := by
  obtain ⟨hids, hlens⟩ := h.check hl hn (pseudoCsum K hd skb.header (skb.len - hd.ipLen))
  obtain ⟨hids, hlens⟩ := hids.check hl hlens (K.add16 (K.fold (K.ofBytes
    ((setBe16 skb.header (checkOffset hd) (pseudoCsum K hd skb.header (skb.len - hd.ipLen)) ++
      skb.payload).drop hd.ipLen) 0)) 1)
  exact ⟨⟨hh, rfl, hids, rfl⟩, hlens⟩

end Sm8850.Rmnet
