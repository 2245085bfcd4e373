/-
  Software timelines (`kgsl_timeline.c`): fences that wait for a value.

  * `Timeline` is one timeline with its fences and whoever holds a reference on it.
    Operations on other timelines take other locks and touch nothing of it.
  * Each section under a lock is one step: `kgsl_timeline_fence_alloc`,
    `kgsl_timeline_signal`, and the three of `kgsl_ioctl_timeline_destroy`.
  * A holder is a thread in an ioctl, or a timeline drawobj from its creation to its
    retirement, which signals the timeline and puts the reference.
  * `users` of a fence is a ghost: the references that are not those of a destroy.
    A fence whose last reference was put waits for its release to take `fence_lock`.
-/
import Mathlib.Data.List.Basic
import Mathlib.Logic.Function.Basic

namespace Sm8850.Kgsl.Timelines

/-! ## State -/

/-- `struct kgsl_timeline_fence`, with its `struct dma_fence`. -/
structure Fence where
  seqno : ℕ
  refcount : ℕ
  users : ℕ
  signaled : Bool
  error : Bool
  released : Bool

/-- `struct kgsl_timeline_event`, and the drawobj it belongs to.  It waits for `timestamp` of
    `context`. -/
structure Event where
  seqno : ℕ
  drawobj : ℕ
  context : ℕ
  timestamp : ℕ
  deriving DecidableEq

/-- What somebody is up to with the timeline. -/
inductive Holder
  /-- It has no reference. -/
  | idle
  /-- It looked the timeline up and has a reference. -/
  | holding
  /-- `kgsl_ioctl_timeline_destroy` took the id away. -/
  | removed
  /-- It moved the fences to its list `temp`. -/
  | spliced (temp : List ℕ)
  /-- It signaled them, and is to put the reference. -/
  | signaled
  deriving DecidableEq

/-- `struct kgsl_timeline`.  The id is in the idr while it is `published`. -/
structure Timeline where
  published : Bool
  devPriv : ℕ
  value : ℕ
  ref : ℕ
  fences : List ℕ
  events : List Event
  fence : ℕ → Option Fence
  holder : ℕ → Holder

/-- A timeline as `kgsl_ioctl_timeline_create` leaves it. -/
def Timeline.create (devPriv initial : ℕ) : Timeline where
  published := true
  devPriv := devPriv
  value := initial
  ref := 1
  fences := []
  events := []
  fence _ := none
  holder _ := .idle

def Timeline.setHolder (t : Timeline) (h : ℕ) (x : Holder) : Timeline :=
  { t with holder := Function.update t.holder h x }

def Timeline.setFence (t : Timeline) (f : ℕ) (x : Fence) : Timeline :=
  { t with fence := Function.update t.fence f (some x) }

/-- The fences in the list change. -/
def Timeline.mapFences (t : Timeline) (l : List ℕ) (g : Fence → Fence) : Timeline :=
  { t with fence := fun f => if f ∈ l then (t.fence f).map g else t.fence f }

/-- `kref_get_unless_zero` on the fence succeeds. -/
def Timeline.alive (t : Timeline) (f : ℕ) : Bool := (t.fence f).any fun x => x.refcount ≠ 0

/-- `timeline_fence_signaled`. -/
def timelineFenceSignaled (value : ℕ) (x : Fence) : Bool := x.seqno ≤ value

/-! ## Fences -/

/-- `kgsl_timeline_add_fence`, where `seqno` is that of the new fence. -/
def kgslTimelineAddFence (fence : ℕ → Option Fence) (f seqno : ℕ) : List ℕ → List ℕ
  | [] => [f]
  | e :: l =>
    if (fence e).any fun x => seqno < x.seqno then f :: e :: l
    else e :: kgslTimelineAddFence fence f seqno l

/-- `kgsl_timeline_fence_alloc` by somebody who holds a reference. -/
def kgslTimelineFenceAlloc (t : Timeline) (f seqno : ℕ) : Timeline :=
  let t := { t with ref := t.ref + 1 }
  let x : Fence := ⟨seqno, 1, 1, false, false, false⟩
  if timelineFenceSignaled t.value x then t.setFence f { x with signaled := true }
  else { t.setFence f x with fences := kgslTimelineAddFence t.fence f seqno t.fences }

/-- `timeline_fence_release`. -/
def timelineFenceRelease (t : Timeline) (f : ℕ) (x : Fence) : Timeline :=
  { t.setFence f { x with released := true } with
    fences := t.fences.erase f
    ref := t.ref - 1 }

/-- `dma_fence_is_signaled`, by a waiter or when a callback is added. -/
def dmaFenceIsSignaled (t : Timeline) (f : ℕ) (x : Fence) : Timeline :=
  if timelineFenceSignaled t.value x then t.setFence f { x with signaled := true } else t

/-! ## Signals -/

/-- The events in reverse, for `kgsl_timeline_add_signal`. -/
def addEvent (signal : Event) : List Event → List Event
  | [] => [signal]
  | e :: l => if e.seqno ≤ signal.seqno then signal :: e :: l else e :: addEvent signal l

/-- `kgsl_timeline_add_signal`. -/
def kgslTimelineAddSignal (t : Timeline) (signal : Event) : Timeline :=
  if signal.seqno ≤ t.value then t
  else { t with events := (addEvent signal t.events.reverse).reverse }

/-- The fence has passed, and is not about to be released. -/
def Timeline.passed (t : Timeline) (value f : ℕ) : Bool :=
  (t.fence f).any fun x => timelineFenceSignaled value x && decide (x.refcount ≠ 0)

/-- `kgsl_timeline_signal`. -/
def kgslTimelineSignal (t : Timeline) (seqno : ℕ) : Timeline :=
  if seqno < t.value then t
  else
    { t.mapFences (t.fences.filter (t.passed seqno)) fun x => { x with signaled := true } with
      value := seqno
      events := t.events.dropWhile fun e => e.seqno ≤ seqno
      fences := t.fences.filter fun f => !t.passed seqno f }

/-! ## Destruction -/

/-- `kgsl_ioctl_timeline_destroy` under `fence_lock`: it takes a reference on each fence. -/
def destroySplice (t : Timeline) (h : ℕ) : Timeline :=
  let temp := t.fences.filter t.alive
  let t := t.mapFences temp fun x => { x with refcount := x.refcount + 1 }
  { t with fences := [] }.setHolder h (.spliced temp)

/-- `kgsl_ioctl_timeline_destroy` under the lock of the timeline. -/
def destroySignal (t : Timeline) (h : ℕ) (temp : List ℕ) : Timeline :=
  (t.mapFences temp fun x =>
    { x with error := true, signaled := true, refcount := x.refcount - 1 }).setHolder h .signaled

/-! ## Steps -/

/-- What can happen next. -/
inductive Act
  | byId (h : ℕ)
  | put (h : ℕ)
  | fenceAlloc (h f seqno : ℕ)
  | addSignal (h : ℕ) (signal : Event)
  | signal (h seqno : ℕ)
  | destroyRemove (h devPriv : ℕ)
  | destroySplice (h : ℕ)
  | destroySignal (h : ℕ)
  | destroyPut (h : ℕ)
  | fenceGet (f : ℕ)
  | fencePut (f : ℕ)
  | fenceRelease (f : ℕ)
  | isSignaled (f : ℕ)

/-- One step; `none` where it cannot be taken. -/
def step (t : Timeline) : Act → Option Timeline
  | .byId h =>
    -- `kgsl_timeline_by_id`
    if t.published ∧ t.ref ≠ 0 ∧ t.holder h = .idle then
      some ({ t with ref := t.ref + 1 }.setHolder h .holding)
    else none
  | .put h =>
    if t.holder h = .holding then some ({ t with ref := t.ref - 1 }.setHolder h .idle) else none
  | .fenceAlloc h f seqno =>
    if t.holder h = .holding ∧ t.fence f = none then some (kgslTimelineFenceAlloc t f seqno)
    else none
  | .addSignal h signal =>
    if t.holder h = .holding then some (kgslTimelineAddSignal t signal) else none
  | .signal h seqno =>
    if t.holder h = .holding then some (kgslTimelineSignal t seqno) else none
  | .destroyRemove h devPriv =>
    if t.published ∧ t.devPriv = devPriv ∧ t.holder h = .idle then
      some ({ t with published := false }.setHolder h .removed)
    else none
  | .destroySplice h => if t.holder h = .removed then some (destroySplice t h) else none
  | .destroySignal h =>
    match t.holder h with
    | .spliced temp => some (destroySignal t h temp)
    | _ => none
  | .destroyPut h =>
    if t.holder h = .signaled then some ({ t with ref := t.ref - 1 }.setHolder h .idle) else none
  | .fenceGet f => do
    let x ← t.fence f
    if x.users ≠ 0 ∧ x.refcount ≠ 0 then
      return t.setFence f { x with users := x.users + 1, refcount := x.refcount + 1 }
    else none
  | .fencePut f => do
    let x ← t.fence f
    if x.users ≠ 0 ∧ x.refcount ≠ 0 then
      return t.setFence f { x with users := x.users - 1, refcount := x.refcount - 1 }
    else none
  | .fenceRelease f => do
    let x ← t.fence f
    if x.refcount = 0 ∧ x.released = false then return timelineFenceRelease t f x else none
  | .isSignaled f => do
    let x ← t.fence f
    if x.refcount ≠ 0 then return dmaFenceIsSignaled t f x else none

end Sm8850.Kgsl.Timelines
