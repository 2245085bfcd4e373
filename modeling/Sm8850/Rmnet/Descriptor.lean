/-
  Packets in page fragments, and their deaggregation (`rmnet_descriptor.c`).

  * The bytes of a fragment are those of its page (`Pages`), which nothing below
    changes.  A descriptor refers to them by fragments of its own.
  * The headers of a packet may be cut too: `rmnetFragHeaderPtr` reads across fragments.
  * `rmnetFragDeaggregateOne` takes the frame at an offset of a received buffer, all of
    whose bytes are in fragments, and `rmnetFragDeaggregate` all of them.
  * Memory is there, so a descriptor and a fragment can always be had.
-/
import Mathlib.Algebra.GroupWithZero.Nat
import Mathlib.Algebra.Order.Group.Nat
import Mathlib.Data.List.Basic
import Mathlib.Tactic.Common

namespace Sm8850.Rmnet

/-! ## Fragments -/

/-- What the pages hold. -/
abbrev Pages := ℕ → ℕ → UInt8

/-- `skb_frag_t`. -/
structure SkbFrag where
  page : ℕ
  off : ℕ
  size : ℕ

/-- The bytes at an address of a page. -/
def readPage (mem : Pages) (page off len : ℕ) : List UInt8 :=
  (List.range len).map fun i => mem page (off + i)

def SkbFrag.bytes (mem : Pages) (f : SkbFrag) : List UInt8 := readPage mem f.page f.off f.size

def fragsBytes (mem : Pages) (l : List SkbFrag) : List UInt8 := l.flatMap (SkbFrag.bytes mem)

def fragsLen (l : List SkbFrag) : ℕ := (l.map SkbFrag.size).sum

/-- A received buffer: its fragments are in `skb_shinfo(skb)->frags`. -/
structure Skb where
  frags : List SkbFrag
  priority : ℕ

def Skb.len (skb : Skb) : ℕ := fragsLen skb.frags

def Skb.bytes (mem : Pages) (skb : Skb) : List UInt8 := fragsBytes mem skb.frags

/-- `skb_copy_bits`. -/
def skbCopyBits (mem : Pages) (skb : Skb) (offset len : ℕ) : Option (List UInt8) :=
  if offset + len ≤ skb.len then some (((skb.bytes mem).drop offset).take len) else none

/-! ## Descriptors -/

/-- How far the cutting of a coalesced frame has come. -/
structure CoalMeta where
  dataOffset : ℕ := 0
  gsoSize : ℕ := 0
  gsoSegs : ℕ := 0
  pktId : ℕ := 0

/-- The headers of a packet. -/
structure PktHeaders where
  ipProto : ℕ := 0
  ipLen : ℕ := 0
  transProto : ℕ := 0
  transLen : ℕ := 0
  deriving DecidableEq

/-- `struct rmnet_frag_descriptor`: a value with a `_set` bit of its own is an option. -/
structure FragDescriptor extends CoalMeta, PktHeaders where
  frags : List SkbFrag := []
  len : ℕ := 0
  priority : ℕ := 0
  tcpSeq : Option ℕ := none
  ipId : Option ℕ := none
  tcpFlags : Option ℕ := none
  csumValid : Bool := false
  hdrsValid : Bool := false

def FragDescriptor.bytes (mem : Pages) (d : FragDescriptor) : List UInt8 := fragsBytes mem d.frags

/-- `rmnet_get_frag_descriptor`. -/
def rmnetGetFragDescriptor : FragDescriptor := {}

/-- `rmnet_frag_descriptor_add_frag`. -/
def rmnetFragDescriptorAddFrag (d : FragDescriptor) (page off len : ℕ) : FragDescriptor :=
  { d with frags := d.frags ++ [⟨page, off, len⟩], len := d.len + len }

/-- The loop of `rmnet_frag_descriptor_add_frags_from`. -/
def addFrags (dst : FragDescriptor) : List SkbFrag → ℕ → ℕ → FragDescriptor
  | [], _, _ => dst
  | frag :: rest, off, len =>
    if len = 0 then dst
    else if off < frag.size then
      let copyLen := min len (frag.size - off)
      addFrags (rmnetFragDescriptorAddFrag dst frag.page (frag.off + off) copyLen) rest 0
        (len - copyLen)
    else addFrags dst rest (off - frag.size) len

/-- `rmnet_frag_descriptor_add_frags_from`; `none` stands for `-EINVAL`. -/
def rmnetFragDescriptorAddFragsFrom (dst src : FragDescriptor) (off len : ℕ) :
    Option FragDescriptor :=
  if src.len < off ∨ src.len < len ∨ src.len < off + len then none
  else some (addFrags dst src.frags off len)

/-- The loop of `rmnet_frag_copy_data`. -/
def copyData (mem : Pages) : List SkbFrag → ℕ → ℕ → List UInt8
  | [], _, _ => []
  | frag :: rest, off, len =>
    if len = 0 then []
    else if off < frag.size then
      let copyLen := min len (frag.size - off)
      readPage mem frag.page (frag.off + off) copyLen ++ copyData mem rest 0 (len - copyLen)
    else copyData mem rest (off - frag.size) len

/-- `rmnet_frag_copy_data`; `none` stands for `-EINVAL`. -/
def rmnetFragCopyData (mem : Pages) (d : FragDescriptor) (off len : ℕ) : Option (List UInt8) :=
  if d.len < off ∨ d.len < len ∨ d.len < off + len then none
  else some (copyData mem d.frags off len)

/-- The loop of `rmnet_frag_header_ptr`: the header, if it is entirely on one fragment. -/
def headerOnFrag (mem : Pages) : List SkbFrag → ℕ → ℕ → Option (List UInt8)
  | [], _, _ => none
  | frag :: rest, off, len =>
    if off < frag.size then
      if off + len ≤ frag.size then some (readPage mem frag.page (frag.off + off) len) else none
    else headerOnFrag mem rest (off - frag.size) len

/-- `rmnet_frag_header_ptr`. -/
def rmnetFragHeaderPtr (mem : Pages) (d : FragDescriptor) (off len : ℕ) : Option (List UInt8) :=
  if d.len < off ∨ d.len < len ∨ d.len < off + len then none
  else (headerOnFrag mem d.frags off len).orElse fun _ => rmnetFragCopyData mem d off len

/-- `rmnet_frag_data_ptr`: a page, and an offset of it. -/
def rmnetFragDataPtr (d : FragDescriptor) : Option (ℕ × ℕ) :=
  d.frags.head?.map fun frag => (frag.page, frag.off)

/-- The loop of `rmnet_frag_pull`. -/
def pullFrags : List SkbFrag → ℕ → ℕ → List SkbFrag × ℕ
  | [], _, len => ([], len)
  | frag :: rest, size, len =>
    if size = 0 then (frag :: rest, len)
    else if frag.size ≤ size then pullFrags rest (size - frag.size) (len - frag.size)
    else (⟨frag.page, frag.off + size, frag.size - size⟩ :: rest, len - size)

/-- `rmnet_frag_pull`: a packet with nothing left is dropped. -/
def rmnetFragPull (d : FragDescriptor) (size : ℕ) : Option FragDescriptor :=
  if d.len ≤ size then none
  else
    let (frags, len) := pullFrags d.frags size d.len
    some { d with frags := frags, len := len }

/-- The loop of `rmnet_frag_trim`, from the last fragment on. -/
def trimFrags : List SkbFrag → ℕ → ℕ → List SkbFrag × ℕ
  | [], _, len => ([], len)
  | frag :: rest, eat, len =>
    if eat = 0 then (frag :: rest, len)
    else if frag.size ≤ eat then trimFrags rest (eat - frag.size) (len - frag.size)
    else (⟨frag.page, frag.off, frag.size - eat⟩ :: rest, len - eat)

/-- `rmnet_frag_trim`: a packet with nothing left is dropped. -/
def rmnetFragTrim (d : FragDescriptor) (size : ℕ) : Option FragDescriptor :=
  if size = 0 then none
  else if d.len ≤ size then some d
  else
    let (frags, len) := trimFrags d.frags.reverse (d.len - size) d.len
    some { d with frags := frags.reverse, len := len }

/-! ## The MAP header -/

def RMNET_FLAGS_INGRESS_MAP_CKSUMV4 : UInt32 := 0x4

def RMNET_FLAGS_INGRESS_COALESCE : UInt32 := 0x10

def RMNET_PRIV_FLAGS_INGRESS_MAP_CKSUMV5 : UInt32 := 0x20

/-- `sizeof(struct rmnet_map_header)`. -/
def mapHeaderSize : ℕ := 4

/-- `cd_bit` of a `struct rmnet_map_header`. -/
def cdBit (maph : List UInt8) : Bool := maph.getD 0 0 &&& 0x80 != 0

/-- `pkt_len` of a `struct rmnet_map_header`, in the byte order of the host. -/
def mapPktLen (maph : List UInt8) : ℕ := (maph.getD 2 0).toNat * 256 + (maph.getD 3 0).toNat

/-- `sizeof(struct rmnet_map_dl_csum_trailer)`. -/
def csumTrailerSize : ℕ := 8

/-- The size of the v5 header that begins with this byte. -/
def v5HeaderSize (type : UInt8) : ℕ :=
  match ((type &&& 0xFE) >>> 1).toNat with
  | 1 => 28 -- `RMNET_MAP_HEADER_TYPE_COALESCING`
  | 2 => 4 -- `RMNET_MAP_HEADER_TYPE_CSUM_OFFLOAD`
  | _ => 0

/-- The data format asks for v5 headers. -/
def v5Format (dataFormat : UInt32) : Bool :=
  dataFormat &&& (RMNET_PRIV_FLAGS_INGRESS_MAP_CKSUMV5 ||| RMNET_FLAGS_INGRESS_COALESCE) != 0

def cksumV4Format (dataFormat : UInt32) : Bool :=
  dataFormat &&& RMNET_FLAGS_INGRESS_MAP_CKSUMV4 != 0

/-! ## Deaggregation -/

/-- The fragment in which `start` lies, the ones after it, and the offset of the fragment. -/
def startFragment (start : ℕ) : ℕ → List SkbFrag → Option (ℕ × SkbFrag × List SkbFrag)
  | _, [] => none
  | offset, frag :: rest =>
    if start < frag.size + offset then some (offset, frag, rest)
    else startFragment start (offset + frag.size) rest

/-- The loop that adds the fragments with the packet to the descriptor, the first of them
    from the start offset on: what is missing of the packet in the end, and the descriptor.
    Here `copyLen` never exceeds the size of the fragment. -/
def copyFragments : List SkbFrag → ℕ → ℕ → FragDescriptor → ℕ × FragDescriptor
  | [], pktLen, _, d => (pktLen, d)
  | frag :: rest, pktLen, copyLen, d =>
    if pktLen = 0 then (pktLen, d)
    else
      let copy := min frag.size pktLen
      let d := rmnetFragDescriptorAddFrag d frag.page frag.off copy
      -- a fragment that is exhausted is left behind
      if frag.size - (copyLen + copy) = 0 then copyFragments rest (pktLen - copy) 0 d
      else copyFragments (frag :: rest) (pktLen - copy) (copyLen + copy) d
termination_by l pktLen => l.length + pktLen
decreasing_by
  · simp only [List.length_cons]
    omega
  · simp only [List.length_cons]
    omega

/-- Bytes of the buffer after the start offset: straight from the page if the rest of the
    first fragment has them all, else with `skb_copy_bits`. -/
def readBits (mem : Pages) (skb : Skb) (first : SkbFrag) (start k len : ℕ) : Option (List UInt8) :=
  if k + len ≤ first.size then some (readPage mem first.page (first.off + k) len)
  else skbCopyBits mem skb (start + k) len

/-- What the data format adds to the length of a packet. -/
def nextHeaderSize (mem : Pages) (dataFormat : UInt32) (skb : Skb) (first : SkbFrag) (start : ℕ)
    (maph : List UInt8) : Option ℕ :=
  if cksumV4Format dataFormat then some csumTrailerSize
  else if v5Format dataFormat && !cdBit maph then
    (readBits mem skb first start mapHeaderSize 1).map fun type => v5HeaderSize (type.getD 0 0)
  else some 0

/-- `rmnet_frag_deaggregate_one`; `none` stands for -1. -/
def rmnetFragDeaggregateOne (mem : Pages) (dataFormat : UInt32) (skb : Skb) (start : ℕ) :
    Option FragDescriptor := do
  let (offset, frag, rest) ← startFragment start 0 skb.frags
  let first : SkbFrag :=
    ⟨frag.page, frag.off + (start - offset), frag.size - (start - offset)⟩
  let maph ← readBits mem skb first start 0 mapHeaderSize
  -- an empty frame
  if mapPktLen maph = 0 then none
  else
    let hsize ← nextHeaderSize mem dataFormat skb first start maph
    let (pktLen, d) := copyFragments (first :: rest) (mapPktLen maph + mapHeaderSize + hsize) 0
      { rmnetGetFragDescriptor with priority := skb.priority }
    -- the packet may be longer than the data
    if pktLen = 0 then some d else none

end Sm8850.Rmnet
