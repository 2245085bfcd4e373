/-
  Addresses of a per-process page table (`kgsl_iommu.c`).

  * `Pagetable` is the part of `struct kgsl_pagetable` that hands out addresses:
    the tree of registered ranges, the windows and `va_hint`.
  * A range is an `AddrEntry`: it is not empty and its end does not wrap.
  * 64-bit sums are checked (`add64`, `align64`): a function is `none` where one
    would wrap.  The test in `iommu_addr_in_svm_ranges`, which is there to catch a
    wrap, computes modulo `2 ^ 64`.
  * The rebalancing of the kernel's red-black tree is a parameter (`Balancer`).
-/
import Mathlib.Algebra.GroupWithZero.Nat
import Mathlib.Data.List.Basic
import Mathlib.Data.Nat.Notation
import Sm8850.Lib.SearchTree

namespace Sm8850.Kgsl

open Lib.SearchTree

/-! ## Numbers -/

def u64Size : ℕ := 2 ^ 64

/-- A sum of 64 bits, if it does not wrap. -/
def add64 (x y : ℕ) : Option ℕ := if x + y < u64Size then some (x + y) else none

/-- `ALIGN(x, a)`: the next multiple of `a`. -/
def align64 (x a : ℕ) : Option ℕ := (add64 x (a - 1)).map fun s => s / a * a

def SZ_1M : ℕ := 0x100000
def KGSL_IOMMU_SECURE_BASE64 : ℕ := 0x100000000
def KGSL_IOMMU_SECURE_SIZE32 : ℕ := 256 * SZ_1M
def KGSL_IOMMU_SECURE_BASE32 : ℕ := KGSL_IOMMU_SECURE_BASE64 - KGSL_IOMMU_SECURE_SIZE32
def KGSL_MEMSTORE_TOKEN_ADDRESS : ℕ := KGSL_IOMMU_SECURE_BASE32 - 0x1000
def KGSL_IOMMU_GLOBAL_MEM_SIZE : ℕ := 20 * SZ_1M
def KGSL_IOMMU_GLOBAL_MEM_BASE32 : ℕ := 0xf8000000
def KGSL_IOMMU_GLOBAL_MEM_BASE64 : ℕ := KGSL_MEMSTORE_TOKEN_ADDRESS - KGSL_IOMMU_GLOBAL_MEM_SIZE
def KGSL_IOMMU_SVM_BASE64 : ℕ := 0x1000000000
def KGSL_IOMMU_SVM_END64 : ℕ := 0x4000000000
def KGSL_IOMMU_VA_BASE64 : ℕ := 0x4000000000
def KGSL_IOMMU_VA_END64 : ℕ := 0x8000000000

/-! ## The page table -/

/-- `struct kgsl_iommu_addr_entry`. -/
structure AddrEntry where
  base : ℕ
  size : ℕ
  pos : 0 < size
  fits : base + size < u64Size
  deriving DecidableEq

/-- Where the range ends. -/
def AddrEntry.stop (e : AddrEntry) : ℕ := e.base + e.size

/-- The fields of `struct kgsl_pagetable` that addresses come from. -/
structure Pagetable where
  rbtree : BinaryTree AddrEntry
  vaStart : ℕ
  vaEnd : ℕ
  svmStart : ℕ
  svmEnd : ℕ
  compatVaStart : ℕ
  compatVaEnd : ℕ
  vaHint : ℕ

/-- The registered ranges in order. -/
def Pagetable.entries (pt : Pagetable) : List AddrEntry := elems pt.rbtree

/-- What `kgsl_iopgtbl_pagetable` asks the device and the task: the features
    `KGSL_MMU_64BIT` and `KGSL_MMU_IOPGTABLE`, the end of the GPU's own memory, and
    whether the task is a 32-bit one. -/
structure Mmu where
  mmu64bit : Bool
  iopgtable : Bool
  svmBase32 : ℕ
  compatTask : Bool

/-- `KGSL_IOMMU_SVM_END32`. -/
def Mmu.svmEnd32 (mmu : Mmu) : ℕ :=
  if mmu.mmu64bit then
    if mmu.iopgtable then KGSL_MEMSTORE_TOKEN_ADDRESS else KGSL_IOMMU_GLOBAL_MEM_BASE64
  else 0xC0000000 - 16 * SZ_1M

/-- `KGSL_IOMMU_GLOBAL_MEM_BASE`. -/
def Mmu.globalMemBase (mmu : Mmu) : ℕ :=
  if mmu.mmu64bit then KGSL_IOMMU_GLOBAL_MEM_BASE64 else KGSL_IOMMU_GLOBAL_MEM_BASE32

/-- `kgsl_iopgtbl_pagetable`. -/
def kgslIopgtblPagetable (mmu : Mmu) : Pagetable :=
  if mmu.mmu64bit then
    { rbtree := .nil
      vaStart := KGSL_IOMMU_VA_BASE64
      vaEnd := KGSL_IOMMU_VA_END64
      svmStart := if mmu.compatTask then mmu.svmBase32 else KGSL_IOMMU_SVM_BASE64
      svmEnd := if mmu.compatTask then mmu.svmEnd32 else KGSL_IOMMU_SVM_END64
      compatVaStart := mmu.svmBase32
      compatVaEnd := mmu.svmEnd32
      vaHint := KGSL_IOMMU_VA_BASE64 }
  else
    { rbtree := .nil
      vaStart := mmu.svmBase32
      vaEnd := mmu.globalMemBase
      svmStart := mmu.svmBase32
      svmEnd := mmu.svmEnd32
      compatVaStart := mmu.svmBase32
      compatVaEnd := mmu.globalMemBase
      vaHint := mmu.svmBase32 }

/-! ## The tree -/

/-- The errors. -/
inductive Errno
  | EINVAL
  | ENOMEM
  | EEXIST

/-- At an entry: is the address below its base, above it, or its base. -/
def addrGuide (gpuaddr : ℕ) (e : AddrEntry) : Ordering :=
  if gpuaddr < e.base then .lt else if e.base < gpuaddr then .gt else .eq

/-- `_find_gpuaddr`. -/
def findGpuaddr (pt : Pagetable) (gpuaddr : ℕ) : Option AddrEntry :=
  descend (addrGuide gpuaddr) pt.rbtree

/-- `rb_prev`: the entry before this one. -/
def rbPrev (pt : Pagetable) (e : AddrEntry) : Option AddrEntry :=
  (pt.entries.takeWhile fun x => x ≠ e).getLast?

variable (rb : Balancer AddrEntry) (pt : Pagetable)

/-- `_remove_gpuaddr`. -/
def removeGpuaddr (gpuaddr : ℕ) : Pagetable × Except Errno Unit :=
  match findGpuaddr pt gpuaddr with
  | none => (pt, .error .ENOMEM)
  | some entry =>
    let vaHint :=
      -- the hint goes back to the end of the previous entry
      if pt.vaHint = entry.stop then
        match rbPrev pt entry with
        | none => pt.vaStart
        | some prev => max prev.stop pt.vaStart
      else pt.vaHint
    ({ pt with vaHint := vaHint, rbtree := rb.erase entry pt.rbtree }, .ok ())

/-- `_insert_gpuaddr`, where `alloc` says whether there is memory for the entry. -/
def insertGpuaddr (new : AddrEntry) (alloc : Bool) : Pagetable × Except Errno Unit :=
  if alloc then
    match link (addrGuide new.base) new pt.rbtree with
    | none => (pt, .error .EEXIST)
    | some t => ({ pt with rbtree := rb.fixup new t }, .ok ())
  else (pt, .error .ENOMEM)

/-! ## Searching -/

/-- `_get_unmapped_area_hint`. -/
def getUnmappedAreaHint (top size align : ℕ) : Option (Pagetable × Except Errno ℕ) :=
  if pt.vaHint = 0 ∨ top < 2 ^ 32 then some (pt, .error .EINVAL)
  else do
    let hint ← align64 pt.vaHint align
    let hintEnd ← add64 hint size
    if top < hintEnd then some (pt, .error .ENOMEM)
    else some ({ pt with vaHint := hintEnd }, .ok hint)

/-- There is no entry left below `top`. -/
def lastGap (top size start : ℕ) : Option (Except Errno ℕ) := do
  let stop ← add64 start size
  return if stop ≤ top then .ok start else .error .ENOMEM

/-- The search of `_get_unmapped_area` for a gap, over the entries from `node` on. -/
def searchGap (bottom top size align : ℕ) (start : ℕ) :
    List AddrEntry → Option (Except Errno ℕ)
  | [] => lastGap top size start
  | entry :: node =>
    if entry.base < bottom then
      -- an entry outside of the range, which may straddle its lower bound
      if bottom < entry.stop then do
        let start ← align64 entry.stop align
        searchGap bottom top size align start node
      else searchGap bottom top size align start node
    else if top ≤ entry.base then lastGap top size start
    else if start < entry.base ∧ size ≤ entry.base - start then some (.ok start)
    else if top ≤ entry.stop then some (.error .ENOMEM)
    else do
      let start ← align64 entry.stop align
      searchGap bottom top size align start node

theorem searchGap_cons (bottom top size align start : ℕ) (entry : AddrEntry)
    (node : List AddrEntry) : searchGap bottom top size align start (entry :: node) =
      if entry.base < bottom then
        if bottom < entry.stop then do
          let start ← align64 entry.stop align
          searchGap bottom top size align start node
        else searchGap bottom top size align start node
      else if top ≤ entry.base then lastGap top size start
      else if start < entry.base ∧ size ≤ entry.base - start then some (.ok start)
      else if top ≤ entry.stop then some (.error .ENOMEM)
      else (do
        let start ← align64 entry.stop align
        searchGap bottom top size align start node) := rfl

/-- `_get_unmapped_area`. -/
def getUnmappedArea (bottom top size align : ℕ) : Option (Pagetable × Except Errno ℕ) := do
  let (pt, start) ← getUnmappedAreaHint pt top size align
  match start with
  | .ok start => return (pt, .ok start)
  | .error _ =>
    let bottom ← align64 bottom align
    let found ← searchGap bottom top size align bottom pt.entries
    return (pt, found)

/-- `x & ~(a - 1)`: the multiple of `a` at or below `x`. -/
def alignDown (x a : ℕ) : ℕ := x / a * a

/-- There is no entry left above `bottom`: `stop` is the top of the last gap. -/
def bottomGap (bottom size align stop : ℕ) : Except Errno ℕ :=
  if size < stop ∧ bottom ≤ alignDown (stop - size) align then .ok (alignDown (stop - size) align)
  else .error .ENOMEM

/-- The walk of `_get_unmapped_area_topdown` down the entries from `node` on; `stop`
    is the top of the gap above the entry. -/
def searchDown (bottom size align : ℕ) (stop : ℕ) : List AddrEntry → Option (Except Errno ℕ)
  | [] => some (bottomGap bottom size align stop)
  | entry :: node =>
    if entry.stop < bottom then some (bottomGap bottom size align stop)
    else do
      let offset ← align64 entry.stop align
      let chunk := alignDown (stop - size) align
      if size < stop ∧ offset < stop ∧ offset ≤ chunk then return .ok chunk
      else if entry.base < bottom then return .error .ENOMEM
      else searchDown bottom size align entry.base node

/-- A difference of 64 bits. -/
def sub64 (x y : ℕ) : ℕ := if y ≤ x then x - y else x + u64Size - y

/-- `_get_unmapped_area_topdown`. -/
def getUnmappedAreaTopdown (bottom top size align : ℕ) : Option (Except Errno ℕ) := do
  let bottom ← align64 bottom align
  if sub64 top bottom < size then return .error .ENOMEM
  else searchDown bottom size align top (pt.entries.reverse.dropWhile fun e => top ≤ e.base)

/-! ## Operations -/

/-- The entry of a range that was found. -/
def mkEntry (base size : ℕ) : Option AddrEntry :=
  if h : 0 < size ∧ base + size < u64Size then some ⟨base, size, h.1, h.2⟩ else none

/-- `get_gpuaddr`. -/
def getGpuaddr (start stop size align : ℕ) (alloc : Bool) :
    Option (Pagetable × Except Errno ℕ) := do
  let (pt, addr) ← getUnmappedArea pt start stop size align
  match addr with
  | .error e => return (pt, .error e)
  | .ok addr =>
    let new ← mkEntry addr size
    let (pt, ret) := insertGpuaddr rb pt new alloc
    return (pt, ret.map fun _ => addr)

/-- The window a request is served from: `KGSL_MEMFLAGS_FORCE_32BIT` asks for the
    compat one. -/
def Pagetable.window (pt : Pagetable) (force32bit : Bool) : ℕ × ℕ :=
  if force32bit then (pt.compatVaStart, pt.compatVaEnd) else (pt.vaStart, pt.vaEnd)

/-- One attempt of `kgsl_iommu_get_gpuaddr`.  The function makes a second one when the
    first fails with `ENOMEM`; other calls may take the lock in between. -/
def kgslIommuGetGpuaddr (force32bit : Bool) (size align : ℕ) (alloc : Bool) :
    Option (Pagetable × Except Errno ℕ) :=
  getGpuaddr rb pt (pt.window force32bit).1 (pt.window force32bit).2 size align alloc

/-- `iommu_addr_in_svm_ranges`. -/
def iommuAddrInSvmRanges (gpuaddr size : ℕ) : Bool :=
  let stop := (gpuaddr + size) % u64Size
  if stop ≤ gpuaddr then false
  else
    (decide (pt.compatVaStart ≤ gpuaddr) && decide (gpuaddr < pt.compatVaEnd) &&
      decide (pt.compatVaStart < stop) && decide (stop ≤ pt.compatVaEnd)) ||
    (decide (pt.svmStart ≤ gpuaddr) && decide (gpuaddr < pt.svmEnd) &&
      decide (pt.svmStart < stop) && decide (stop ≤ pt.svmEnd))

/-- At an entry: is the range to its left, to its right, or does it overlap. -/
def svmGuide (gpuaddr size : ℕ) (e : AddrEntry) : Ordering :=
  if gpuaddr + size ≤ e.base then .lt else if e.stop ≤ gpuaddr then .gt else .eq

/-- `kgsl_iommu_set_svm_region`. -/
def kgslIommuSetSvmRegion (gpuaddr size : ℕ) (alloc : Bool) :
    Option (Pagetable × Except Errno Unit) :=
  if iommuAddrInSvmRanges pt gpuaddr size then do
    let new ← mkEntry gpuaddr size
    match descend (svmGuide gpuaddr size) pt.rbtree with
    | some _ => return (pt, .error .ENOMEM)
    | none => return insertGpuaddr rb pt new alloc
  else some (pt, .error .ENOMEM)

/-- `kgsl_iommu_put_gpuaddr`. -/
def kgslIommuPutGpuaddr (gpuaddr : ℕ) : Pagetable × Except Errno Unit :=
  removeGpuaddr rb pt gpuaddr

/-- A call, with what it asks for; `alloc` is the outcome of `kmem_cache_alloc`. -/
inductive VaCall
  | get (force32bit : Bool) (size align : ℕ) (alloc : Bool)
  | setSvm (gpuaddr size : ℕ) (alloc : Bool)
  | put (gpuaddr : ℕ)

/-- The state after a call, and its result: the address it registered, if any. -/
def vaStep : VaCall → Option (Pagetable × Except Errno (Option ℕ))
  | .get force32bit size align alloc =>
    (kgslIommuGetGpuaddr rb pt force32bit size align alloc).map fun r => (r.1, r.2.map some)
  | .setSvm gpuaddr size alloc =>
    (kgslIommuSetSvmRegion rb pt gpuaddr size alloc).map fun r =>
      (r.1, r.2.map fun _ => some gpuaddr)
  | .put gpuaddr =>
    let r := kgslIommuPutGpuaddr rb pt gpuaddr
    some (r.1, r.2.map fun _ => none)

end Sm8850.Kgsl
