/-
  Virtual buffer objects (`kgsl_vbo.c`): ranges of a VBO bound to other buffers.

  * `Vbo` is the target: the interval tree of its bound ranges as the list of them
    in order, and the part of the page table that maps it, page by page.
  * `Mem` is what the children carry: their references and `vbo_count`.
  * The outcome of an MMU call is given by the range it is for (`Mmu`), so that any
    of the calls an operation makes may fail; a failed call changes nothing.
  * `bindStart` and `childOffset` of a range are ghosts: the bind that created it.
    The counters `leaked` of `Vbo` is one too: the ranges freed with their reference.
-/
import Mathlib.Data.List.Sort
import Mathlib.Data.List.Count
import Mathlib.Logic.Function.Basic
import Mathlib.Tactic.Common

namespace Sm8850.Kgsl

def pageSize : ℕ := 0x1000

/-! ## State -/

/-- `struct kgsl_memdesc_bind_range`; `entry` is the id of the child. -/
structure BindRange where
  start : ℕ
  last : ℕ
  entry : ℕ
  bindStart : ℕ
  childOffset : ℕ
  deriving DecidableEq

/-- What a page of the VBO is mapped to: nothing, the zero page, or a page of a child. -/
inductive Pte
  | unmapped
  | zero
  | child (entry page : ℕ)
  deriving DecidableEq

/-- The counters of the children. -/
structure Mem where
  refcount : ℕ → ℕ
  vboCount : ℕ → ℕ

/-- A VBO.  Its `gpuaddr` is 0, and there is no page table, once it was released. -/
structure Vbo where
  noMapZero : Bool
  size : ℕ
  gpuaddr : ℕ
  ranges : List BindRange
  ptes : ℕ → Pte
  leaked : List BindRange

/-- A VBO and the children. -/
structure Target where
  vbo : Vbo
  mem : Mem

/-- The page lies in the range of bytes. -/
def inBytes (offset length p : ℕ) : Prop := offset ≤ p * pageSize ∧ p * pageSize < offset + length

instance (offset length p : ℕ) : Decidable (inBytes offset length p) :=
  inferInstanceAs (Decidable (_ ∧ _))

/-- The page lies in the range. -/
def BindRange.has (r : BindRange) (p : ℕ) : Prop := r.start ≤ p * pageSize ∧ p * pageSize ≤ r.last

/-- The page of the child that the bind of the range gave to page `p`. -/
def BindRange.childPage (r : BindRange) (p : ℕ) : ℕ :=
  (p * pageSize - r.bindStart + r.childOffset) / pageSize

/-- A VBO as `gpumem_alloc_vbo_entry` leaves it. -/
def Vbo.init (noMapZero : Bool) (size gpuaddr : ℕ) : Vbo where
  noMapZero := noMapZero
  size := size
  gpuaddr := gpuaddr
  ranges := []
  ptes p := if noMapZero then .unmapped else if p * pageSize < size then .zero else .unmapped
  leaked := []

/-! ## The interval tree -/

/-- `interval_tree_insert`. -/
def intervalTreeInsert (r : BindRange) (l : List BindRange) : List BindRange :=
  l.orderedInsert (fun a b => a.start < b.start) r

/-- `interval_tree_remove`. -/
def intervalTreeRemove (r : BindRange) (l : List BindRange) : List BindRange := l.erase r

/-- The nodes that `interval_tree_iter_first` and `interval_tree_iter_next` visit.  The loops
    below ask for the next node before they change the tree, and put nothing back that
    overlaps, so they visit what overlapped at the start. -/
def intervalTreeIter (l : List BindRange) (start last : ℕ) : List BindRange :=
  l.filter fun r => r.start ≤ last ∧ start ≤ r.last

/-! ## The MMU -/

/-- The outcomes of the MMU calls of an operation, by offset and length. -/
structure Mmu.Outcome where
  unmap : ℕ → ℕ → Bool
  mapChild : Bool

/-- The pages in a range of bytes are mapped anew. -/
def Vbo.setPtes (v : Vbo) (offset length : ℕ) (pte : ℕ → Pte) : Vbo :=
  { v with ptes := fun p => if inBytes offset length p then pte p else v.ptes p }

/-- `kgsl_mmu_unmap_range`. -/
def kgslMmuUnmapRange (mmu : Mmu.Outcome) (v : Vbo) (offset length : ℕ) : Option Vbo :=
  if v.gpuaddr = 0 then some v
  else if v.size ≤ offset ∨ v.size < offset + length then none
  else if mmu.unmap offset length then
    some (v.setPtes offset length fun _ => .unmapped)
  else none

/-- `kgsl_mmu_map_zero_page_to_range`. -/
def kgslMmuMapZeroPageToRange (v : Vbo) (offset length : ℕ) : Vbo :=
  if v.gpuaddr = 0 ∨ v.size ≤ offset ∨ v.size < offset + length then v
  else v.setPtes offset length fun _ => .zero

/-- `kgsl_mmu_map_child`. -/
def kgslMmuMapChild (mmu : Mmu.Outcome) (v : Vbo) (offset entry childOffset length : ℕ) :
    Option Vbo :=
  if v.gpuaddr = 0 then none
  else if mmu.mapChild then
    some (v.setPtes offset length fun p =>
      .child entry ((p * pageSize - offset + childOffset) / pageSize))
  else none

/-! ## Ranges -/

/-- `kgsl_mem_entry_get`, which fails once there is no reference left. -/
def kgslMemEntryGet (m : Mem) (entry : ℕ) : Option Mem :=
  if m.refcount entry = 0 then none
  else some { m with refcount := Function.update m.refcount entry (m.refcount entry + 1) }

/-- `kgsl_mem_entry_put`. -/
def kgslMemEntryPut (m : Mem) (entry : ℕ) : Mem :=
  { m with refcount := Function.update m.refcount entry (m.refcount entry - 1) }

def vboCountInc (m : Mem) (entry : ℕ) : Mem :=
  { m with vboCount := Function.update m.vboCount entry (m.vboCount entry + 1) }

def vboCountDec (m : Mem) (entry : ℕ) : Mem :=
  { m with vboCount := Function.update m.vboCount entry (m.vboCount entry - 1) }

/-- `bind_range_create`, where `alloc` is the outcome of `kzalloc`. -/
def bindRangeCreate (m : Mem) (alloc : Bool) (r : BindRange) : Option Mem :=
  if alloc then (kgslMemEntryGet m r.entry).map fun m => vboCountInc m r.entry else none

/-- `bind_range_destroy`. -/
def bindRangeDestroy (m : Mem) (r : BindRange) : Mem :=
  kgslMemEntryPut (vboCountDec m r.entry) r.entry

/-- `bind_range_len`. -/
def bindRangeLen (r : BindRange) : ℕ := r.last - r.start + 1

def Target.insert (t : Target) (r : BindRange) : Target :=
  { t with vbo.ranges := intervalTreeInsert r t.vbo.ranges }

def Target.remove (t : Target) (r : BindRange) : Target :=
  { t with vbo.ranges := intervalTreeRemove r t.vbo.ranges }

def Target.destroy (t : Target) (r : BindRange) : Target :=
  { t with mem := bindRangeDestroy t.mem r }

/-- With `KGSL_MEMFLAGS_VBO_NO_MAP_ZERO` a part of a range is unmapped when it is visited. -/
def Target.unmapPart (mmu : Mmu.Outcome) (t : Target) (offset length : ℕ) : Option Target :=
  if t.vbo.noMapZero then
    (kgslMmuUnmapRange mmu t.vbo offset length).map fun v => { t with vbo := v }
  else some t

/-- A VBO that maps the zero page is unmapped in one call before its ranges are visited. -/
def Target.unmapFirst (mmu : Mmu.Outcome) (t : Target) (offset length : ℕ) : Option Target :=
  if t.vbo.noMapZero then some t
  else (kgslMmuUnmapRange mmu t.vbo offset length).map fun v => { t with vbo := v }

/-! ## Operations -/

/-- The body of the loop of `kgsl_memdesc_remove_range`. -/
def removeRangeVisit (mmu : Mmu.Outcome) (entry : Option ℕ) (t : Target) (range : BindRange) :
    Target :=
  if entry.all fun e => range.entry = e then
    match kgslMmuUnmapRange mmu t.vbo range.start (bindRangeLen range) with
    | none => t
    | some v =>
      let t := { t with vbo := v }.remove range
      let t := if t.vbo.noMapZero then t else
        { t with vbo := kgslMmuMapZeroPageToRange t.vbo range.start (bindRangeLen range) }
      t.destroy range
  else t

/-- `kgsl_memdesc_remove_range`; `entry` is `none` where everything is to be unbound. -/
def kgslMemdescRemoveRange (mmu : Mmu.Outcome) (t : Target) (start last : ℕ)
    (entry : Option ℕ) : Target :=
  (intervalTreeIter t.vbo.ranges start last).foldl (removeRangeVisit mmu entry) t

/-- Where the range is split into two there is a new entry for the far side. -/
def splitFarSide (last : ℕ) (cur : BindRange) (t : Target) : Option Target :=
  if last < cur.last then
    let temp := { cur with start := last + 1 }
    (bindRangeCreate t.mem true temp).map fun m => { t with mem := m }.insert temp
  else some t

/-- The body of the loop of `kgsl_memdesc_add_range`, for a range that overlaps the new one:
    the state it leaves, and whether the loop goes on.  It is `none` if `BUG_ON` strikes. -/
def addRangeVisit (mmu : Mmu.Outcome) (start last : ℕ) (cur : BindRange) (t : Target) :
    Option (Target × Bool) :=
  let t := t.remove cur
  if start ≤ cur.start then
    if cur.last ≤ last then
      -- unmap the entire range
      match t.unmapPart mmu cur.start (cur.last - cur.start + 1) with
      | none => some (t.insert cur, false)
      | some t => some (t.destroy cur, true)
    else
      -- adjust the start of the mapping
      match t.unmapPart mmu cur.start (last - cur.start + 1) with
      | none => some (t.insert cur, false)
      | some t => some (t.insert { cur with start := last + 1 }, true)
  else do
    let t ← splitFarSide last cur t
    match t.unmapPart mmu start (min cur.last last - start + 1) with
    | none => some (t.insert cur, false)
    | some t => some (t.insert { cur with last := start - 1 }, true)

/-- The loop of `kgsl_memdesc_add_range`, and whether it comes to its end. -/
def addRangeWalk (mmu : Mmu.Outcome) (start last : ℕ) :
    List BindRange → Target → Option (Target × Bool)
  | [], t => some (t, true)
  | cur :: next, t => do
    let (t, done) ← addRangeVisit mmu start last cur t
    if done then addRangeWalk mmu start last next t else some (t, false)

/-- `kgsl_memdesc_add_range` after the new range was created, and whether it succeeds. -/
def addRangeLocked (mmu : Mmu.Outcome) (t : Target) (range : BindRange) :
    Option (Target × Bool) :=
  let length := range.last - range.start + 1
  match t.unmapFirst mmu range.start length with
  | none => some (t.destroy range, false)
  | some t => do
    let (t, done) ← addRangeWalk mmu range.start range.last
      (intervalTreeIter t.vbo.ranges range.start range.last) t
    if done then
      match kgslMmuMapChild mmu t.vbo range.start range.entry range.childOffset length with
      | none => return (t.destroy range, false)
      | some v => return ({ t with vbo := v }.insert range, true)
    else return (t.destroy range, false)

/-- `kgsl_memdesc_add_range`. -/
def kgslMemdescAddRange (mmu : Mmu.Outcome) (alloc : Bool) (t : Target)
    (start last entry offset : ℕ) : Option (Target × Bool) :=
  let range := ⟨start, last, entry, start, offset⟩
  match bindRangeCreate t.mem alloc range with
  | none => some (t, false)
  | some m => addRangeLocked mmu { t with mem := m } range

/-- The reference of the range is kept for good. -/
def Target.leak (t : Target) (r : BindRange) : Target :=
  { t with vbo.leaked := r :: t.vbo.leaked }

/-- The body of the loop of `kgsl_sharedmem_vbo_put_gpuaddr`; `whole` says whether the unmap
    of the whole VBO succeeded, and the second component whether an unmap failed. -/
def putGpuaddrVisit (mmu : Mmu.Outcome) (whole : Bool) (s : Target × Bool) (range : BindRange) :
    Target × Bool :=
  let t := s.1.remove range
  if t.vbo.noMapZero then
    match kgslMmuUnmapRange mmu t.vbo range.start (range.last - range.start + 1) with
    | none => (t.leak range, true)
    | some v => ({ t with vbo := v }.destroy range, s.2)
  else if whole then (t.destroy range, s.2)
  else (t.leak range, true)

/-- `kgsl_sharedmem_vbo_put_gpuaddr`. -/
def kgslSharedmemVboPutGpuaddr (mmu : Mmu.Outcome) (t : Target) : Target :=
  let whole := t.unmapFirst mmu 0 t.vbo.size
  let s := (whole.getD t, whole.isNone)
  let (t, unmapFail) := s.1.vbo.ranges.foldl (putGpuaddrVisit mmu whole.isSome) s
  if unmapFail then t else { t with vbo.gpuaddr := 0 }

end Sm8850.Kgsl
