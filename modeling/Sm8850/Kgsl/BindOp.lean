/-
  Bind operations on VBOs and the life of what they name (`kgsl_vbo.c`).

  * `kgslSharedmemCreateBindOp` checks the ranges of a request, and takes a
    reference and a `vbo_count` for each child it names; `kgslSharedmemFreeBindOp`
    gives them back.
  * `World` is a family of VBOs, the children, and the operations created and not
    yet freed.  A worker takes the ranges of an operation one by one, each under the
    lock of the VBO, so those of several operations may come in any order.
  * An operation holds a reference on its VBO, so a VBO is released when no
    operation is left.  `user` is a ghost: the references others hold on a child.
-/
import Mathlib.Algebra.BigOperators.Group.Finset.Basic
import Mathlib.Data.Fintype.Basic
import Sm8850.Kgsl.Vbo

namespace Sm8850.Kgsl

/-! ## Requests -/

/-- `KGSL_GPUMEM_RANGE_OP_BIND`, `KGSL_GPUMEM_RANGE_OP_UNBIND`, or none of them. -/
inductive RangeOpcode
  | bind
  | unbind
  | invalid
  deriving DecidableEq

/-- `struct kgsl_gpumem_bind_range`. -/
structure GpumemBindRange where
  childOffset : UInt64
  targetOffset : UInt64
  length : UInt64
  childId : ℕ
  op : RangeOpcode

/-- An element of `ops` of a `struct kgsl_sharedmem_bind_op`. -/
structure BindOpRange where
  entry : Option ℕ
  start : ℕ
  last : ℕ
  childOffset : ℕ
  op : RangeOpcode
  deriving DecidableEq

/-- `struct kgsl_sharedmem_bind_op`. -/
structure BindOp (ι : Type) where
  target : ι
  ops : List BindOpRange
  deriving DecidableEq

/-- What the checks read of a buffer. -/
structure Memdesc where
  size : ℕ
  vbo : Bool
  secure : Bool

/-- `PAGE_ALIGNED`. -/
def pageAligned (x : UInt64) : Bool := x.toNat % pageSize == 0

/-- `kgsl_memdesc_check_range`. -/
def kgslMemdescCheckRange (size : ℕ) (offset length : UInt64) : Bool :=
  decide (offset.toNat < size) && decide (offset < offset + length) &&
    decide ((offset + length).toNat ≤ size)

/-- What the references of an element are given back with. -/
def putBindOpRange (m : Mem) (op : BindOpRange) : Mem :=
  match op.entry with
  | none => m
  | some e => kgslMemEntryPut (vboCountDec m e) e

/-- `kgsl_sharedmem_free_bind_op`. -/
def kgslSharedmemFreeBindOp (m : Mem) (ops : List BindOpRange) : Mem := ops.foldl putBindOpRange m

variable (children : ℕ → Memdesc) (target : Memdesc)

/-- The checks of a range once its child was found. -/
def checkChild (range : GpumemBindRange) (child : Memdesc) : Bool :=
  !child.vbo && (target.secure == child.secure) &&
    match range.op with
    | .bind => pageAligned range.childOffset &&
        kgslMemdescCheckRange child.size range.childOffset range.length
    | .unbind => range.childOffset.toNat == 0
    | .invalid => false

/-- The checks of a range that come before its child is looked up. -/
def checkTarget (range : GpumemBindRange) : Bool :=
  pageAligned range.targetOffset && decide (range.length.toNat ≠ 0) && pageAligned range.length &&
    kgslMemdescCheckRange target.size range.targetOffset range.length

/-- The element of a range, when it names `entry`. -/
def GpumemBindRange.element (range : GpumemBindRange) (entry : Option ℕ) : BindOpRange where
  entry := entry
  start := range.targetOffset.toNat
  last := range.targetOffset.toNat + range.length.toNat - 1
  childOffset := range.childOffset.toNat
  op := range.op

/-- One turn of the loop of `kgsl_sharedmem_create_bind_op`: the counters, the element as far
    as it was filled in, and whether the range is in order. -/
def createBindOpRange (m : Mem) (range : GpumemBindRange) : Mem × Option BindOpRange × Bool :=
  if checkTarget target range then
    if range.childId = 0 ∧ range.op = .unbind then
      -- a special request: unbind whatever is there
      (m, some { range.element none with childOffset := 0 }, true)
    else
      match kgslMemEntryGet m range.childId with
      | none => (m, none, false)
      | some m =>
        (vboCountInc m range.childId, some (range.element (some range.childId)),
          checkChild target range (children range.childId))
  else (m, none, false)

/-- The loop of `kgsl_sharedmem_create_bind_op`, which frees what it built on an error. -/
def createBindOpLoop (m : Mem) (ops : List BindOpRange) :
    List GpumemBindRange → Mem × Option (List BindOpRange)
  | [] => (m, some ops)
  | range :: ranges =>
    match createBindOpRange children target m range with
    | (m, element, true) => createBindOpLoop m (ops ++ element.toList) ranges
    | (m, element, false) => (kgslSharedmemFreeBindOp m (ops ++ element.toList), none)

/-- `kgsl_sharedmem_create_bind_op`, where `ok` says whether its memory is there and the
    process can be pinned. -/
def kgslSharedmemCreateBindOp (ok : Bool) (m : Mem) (ranges : List GpumemBindRange) :
    Mem × Option (List BindOpRange) :=
  if ranges ≠ [] ∧ target.vbo ∧ ok then createBindOpLoop children target m [] ranges else (m, none)

/-- `kgsl_sharedmem_bind_worker`, for one element. -/
def bindWorkerStep (mmu : Mmu.Outcome) (alloc : Bool) (t : Target) (op : BindOpRange) :
    Option Target :=
  match op.op, op.entry with
  | .bind, some e =>
    (kgslMemdescAddRange mmu alloc t op.start op.last e op.childOffset).map Prod.fst
  | .bind, none => none
  | _, e => some (kgslMemdescRemoveRange mmu t op.start op.last e)

/-! ## The world -/

variable {ι : Type} [DecidableEq ι]

/-- The VBOs, their children, and the bind operations under way. -/
structure World (ι : Type) where
  vbo : ι → Vbo
  mem : Mem
  pending : List (BindOp ι)
  released : ι → Bool
  user : ℕ → ℕ

/-- What can happen next. -/
inductive WorldAct (ι : Type)
  | create (i : ι) (secure ok : Bool) (ranges : List GpumemBindRange)
  | work (b : BindOp ι) (op : BindOpRange) (mmu : Mmu.Outcome) (alloc : Bool)
  | free (b : BindOp ι)
  | release (i : ι) (mmu : Mmu.Outcome)
  | get (e : ℕ)
  | put (e : ℕ)

/-- A VBO and the counters after an operation on it. -/
def World.set (w : World ι) (i : ι) (t : Target) : World ι :=
  { w with vbo := Function.update w.vbo i t.vbo, mem := t.mem }

/-- One step; `none` where it cannot be taken, or ends in `BUG_ON`. -/
def worldStep (w : World ι) : WorldAct ι → Option (World ι)
  | .create i secure ok ranges =>
    if w.released i then none
    else
      let target : Memdesc := ⟨(w.vbo i).size, true, secure⟩
      match kgslSharedmemCreateBindOp children target ok w.mem ranges with
      | (m, none) => some { w with mem := m }
      | (m, some ops) => some { w with mem := m, pending := ⟨i, ops⟩ :: w.pending }
  | .work b op mmu alloc =>
    if b ∈ w.pending ∧ op ∈ b.ops then
      (bindWorkerStep mmu alloc ⟨w.vbo b.target, w.mem⟩ op).map fun t => w.set b.target t
    else none
  | .free b =>
    if b ∈ w.pending then
      some { w with pending := w.pending.erase b, mem := kgslSharedmemFreeBindOp w.mem b.ops }
    else none
  | .release i mmu =>
    if w.released i ∨ ∃ b ∈ w.pending, b.target = i then none
    else
      let w := w.set i (kgslSharedmemVboPutGpuaddr mmu ⟨w.vbo i, w.mem⟩)
      some { w with released := Function.update w.released i true }
  | .get e =>
    (kgslMemEntryGet w.mem e).map fun m =>
      { w with mem := m, user := Function.update w.user e (w.user e + 1) }
  | .put e =>
    if w.user e = 0 then none
    else
      some { w with mem := kgslMemEntryPut w.mem e,
                    user := Function.update w.user e (w.user e - 1) }

/-- VBOs without ranges, and children in use by others only. -/
def World.init (vbo : ι → Bool × ℕ × ℕ) (user : ℕ → ℕ) : World ι where
  vbo i := Vbo.init (vbo i).1 (vbo i).2.1 (vbo i).2.2
  mem := ⟨user, fun _ => 0⟩
  pending := []
  released _ := false
  user := user

end Sm8850.Kgsl
