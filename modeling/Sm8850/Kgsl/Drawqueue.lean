/-
  The draw queue of a software-scheduled context: `adreno_dispatch.c`.

  * `DrawObj`, `DrawCtxt`: the objects of a submission, and a context with its ring of
    `ADRENO_CONTEXT_DRAWQUEUE_SIZE` slots and its retired timestamp.
  * `queueCmds`: what `adreno_dispatcher_queue_cmds` does with its objects under the lock.
  * `Submits`: the objects that the ioctls bring.
  * `processDrawqueueGetNextDrawobj`, `takeDrawobj`, `requeueCmdobj`: the sections of the
    dispatcher.
  * `CallStep`: a thread in `adreno_dispatcher_queue_cmds`, section by section.

  A timestamp is a 32-bit word.  It is kept here without its wraparound, and
  `timestampCmp`, the only look that the code takes at one, sees the word.  The fault
  policy, the preamble flags, the started timestamp, the profiling and the traces are left
  out.
-/
import Mathlib.Algebra.GroupWithZero.Nat
import Mathlib.Data.Int.Notation
import Mathlib.Data.List.Basic
import Mathlib.Logic.Function.Basic
import Mathlib.Tactic.Common

namespace Sm8850.Kgsl.Dispatch

/-! ## Timestamps -/

/-- `KGSL_TIMESTAMP_WINDOW`. -/
abbrev timestampWindow : ℕ := 2 ^ 31

/-- `timestamp_cmp`, on the words of the two timestamps. -/
def timestampCmp (a b : ℕ) : ℤ :=
  let a := a % 2 ^ 32
  let b := b % 2 ^ 32
  if a = b then 0
  else if b < a ∧ a - b < timestampWindow then 1
  else
    let a := (a + timestampWindow) % 2 ^ 32
    let b := (b + timestampWindow) % 2 ^ 32
    if b < a ∧ a - b ≤ timestampWindow then 1 else -1

/-! ## Objects and contexts -/

/-- The errors that are told apart. -/
inductive Errno where
  | again | busy | deadlk | inval | noent | range | other
  deriving DecidableEq

/-- `CMDOBJ_TYPE`, `MARKEROBJ_TYPE`, `SYNCOBJ_TYPE`, `BINDOBJ_TYPE`, `TIMELINEOBJ_TYPE`. -/
inductive ObjType where
  | cmd | marker | sync | bind | timeline
  deriving DecidableEq

/-- What a sync object waits for: a timestamp of its own context, or anything else. -/
inductive SyncEvent where
  | timestamp (ts : ℕ)
  | other
  deriving DecidableEq

/-- `struct kgsl_drawobj` at the address `id`, with what its type adds: `marker_timestamp`,
    `CMDOBJ_SKIP` and `requeue_cnt` of a command or marker, the pending events of a sync
    object, `KGSL_BINDOBJ_STATE_START` and `KGSL_BINDOBJ_STATE_DONE` of a bind. -/
structure DrawObj where
  id : ℕ
  type : ObjType
  endOfFrame : Bool
  timestamp : ℕ
  markerTimestamp : ℕ
  skip : Bool
  requeueCnt : ℕ
  pending : List SyncEvent
  start : Bool
  done : Bool

/-- An object as its `kgsl_drawobj_…_create` leaves it. -/
def DrawObj.create (id : ℕ) (type : ObjType) (endOfFrame : Bool) (pending : List SyncEvent) :
    DrawObj :=
  ⟨id, type, endOfFrame, 0, 0, false, 0, pending, false, false⟩

/-- `ADRENO_CONTEXT_DRAWQUEUE_SIZE`. -/
abbrev contextDrawqueueSize : ℕ := 128

/-- `DRAWQUEUE_NEXT`. -/
def drawqueueNext (i : ℕ) : ℕ := (i + 1) % contextDrawqueueSize

/-- `struct adreno_context`, with `detached`, `invalid` and `skipEof` of its private flags,
    two of its creation flags, and its retired timestamp in the memstore.

    `fifo` and `undone` are histories: the addresses queued and not yet taken out, in order,
    and the timestamps of the binds queued and not yet done. -/
structure DrawCtxt where
  detached : Bool
  invalid : Bool
  userGeneratedTs : Bool
  ifhNop : Bool
  skipEof : Bool
  timestamp : ℕ
  queuedTimestamp : ℕ
  eoptimestamp : ℕ
  drawqueue : ℕ → Option DrawObj
  head : ℕ
  tail : ℕ
  queued : ℕ
  fifo : List ℕ
  undone : List ℕ

/-- A context as `adreno_drawctxt_create` leaves it. -/
def DrawCtxt.create (userGeneratedTs ifhNop : Bool) : DrawCtxt where
  detached := false
  invalid := false
  userGeneratedTs := userGeneratedTs
  ifhNop := ifhNop
  skipEof := false
  timestamp := 0
  queuedTimestamp := 0
  eoptimestamp := 0
  drawqueue _ := none
  head := 0
  tail := 0
  queued := 0
  fifo := []
  undone := []

/-- `kgsl_context_is_bad`. -/
def DrawCtxt.isBad (c : DrawCtxt) : Bool := c.detached || c.invalid

/-- `kgsl_check_context_state`. -/
def DrawCtxt.checkState (c : DrawCtxt) : Option Errno :=
  if c.invalid then some .deadlk else if c.detached then some .noent else none

/-- `kgsl_check_timestamp`. -/
def DrawCtxt.checkTimestamp (c : DrawCtxt) (ts : ℕ) : Prop := 0 ≤ timestampCmp c.eoptimestamp ts

instance (c : DrawCtxt) (ts : ℕ) : Decidable (c.checkTimestamp ts) :=
  inferInstanceAs (Decidable (_ ≤ _))

/-- The slots from the head to the tail. -/
def DrawCtxt.slots (c : DrawCtxt) : ℕ :=
  (c.tail + contextDrawqueueSize - c.head) % contextDrawqueueSize

/-- The slot `j` places behind the head. -/
def DrawCtxt.slotAt (c : DrawCtxt) (j : ℕ) : ℕ := (c.head + j) % contextDrawqueueSize

def DrawCtxt.setSlot (c : DrawCtxt) (i : ℕ) (x : DrawObj) : DrawCtxt :=
  { c with drawqueue := Function.update c.drawqueue i (some x) }

/-- `_retire_timestamp`: the retired timestamp is written from the CPU. -/
def retireTimestamp (c : DrawCtxt) (x : DrawObj) : DrawCtxt :=
  { c with eoptimestamp := x.timestamp }

/-! ## Taking objects out -/

/-- `_pop_drawobj`. -/
def popDrawobj (c : DrawCtxt) : DrawCtxt :=
  { c with head := drawqueueNext c.head, queued := c.queued - 1, fifo := c.fifo.tail }

/-- What became of the object at the head. -/
inductive Retire where
  /-- It was retired and popped. -/
  | retired
  /-- It has to go to the GPU. -/
  | send
  /-- It blocks the queue: `-EAGAIN`. -/
  | again

/-- `_marker_expired`, of a marker. -/
def markerExpired (c : DrawCtxt) (x : DrawObj) : Prop := c.checkTimestamp x.markerTimestamp

instance (c : DrawCtxt) (x : DrawObj) : Decidable (markerExpired c x) :=
  inferInstanceAs (Decidable (c.checkTimestamp _))

/-- `dispatch_retire_markerobj`. -/
def dispatchRetireMarkerobj (c : DrawCtxt) (x : DrawObj) : DrawCtxt × Retire :=
  if markerExpired c x then (retireTimestamp (popDrawobj c) x, .retired)
  else (c, if x.skip then .send else .again)

/-- `dispatch_retire_syncobj`. -/
def dispatchRetireSyncobj (c : DrawCtxt) (x : DrawObj) : DrawCtxt × Retire :=
  if x.pending = [] then (popDrawobj c, .retired) else (c, .again)

/-- `drawqueue_retire_timelineobj`. -/
def drawqueueRetireTimelineobj (c : DrawCtxt) : DrawCtxt × Retire := (popDrawobj c, .retired)

/-- `drawqueue_retire_bindobj`, of the bind in slot `i`. -/
def drawqueueRetireBindobj (c : DrawCtxt) (i : ℕ) (x : DrawObj) : DrawCtxt × Retire :=
  if x.done then (retireTimestamp (popDrawobj c) x, .retired)
  else (c.setSlot i { x with start := true }, .again)

/-- The `switch` of `_process_drawqueue_get_next_drawobj`. -/
def retireObj (c : DrawCtxt) (i : ℕ) (x : DrawObj) : DrawCtxt × Retire :=
  match x.type with
  | .cmd => (c, .send)
  | .marker => dispatchRetireMarkerobj c x
  | .sync => dispatchRetireSyncobj c x
  | .bind => drawqueueRetireBindobj c i x
  | .timeline => drawqueueRetireTimelineobj c

/-- What `_process_drawqueue_get_next_drawobj` returns: `NULL`, an error, or an object. -/
inductive Next where
  | null
  | err (e : Errno)
  | obj (x : DrawObj)

/-- The loop of `_process_drawqueue_get_next_drawobj`, with `n` slots from `i` to the tail. -/
def processFrom (c : DrawCtxt) (i : ℕ) : ℕ → DrawCtxt × Next
  | 0 => (c, .null)
  | n + 1 =>
    match c.drawqueue i with
    | none => (c, .null)
    | some x =>
      match retireObj c i x with
      | (c, .retired) => processFrom c (drawqueueNext i) n
      | (c, .send) => (c, .obj x)
      | (c, .again) => (c, .err .again)

/-- `_process_drawqueue_get_next_drawobj`. -/
def processDrawqueueGetNextDrawobj (c : DrawCtxt) : DrawCtxt × Next :=
  processFrom c c.head c.slots

/-- The section of `dispatcher_context_sendcmds` that takes an object to send. -/
def takeDrawobj (c : DrawCtxt) : DrawCtxt × Next :=
  match processDrawqueueGetNextDrawobj c with
  | (c, .obj x) => (popDrawobj c, .obj x)
  | r => r

/-- `adreno_dispatcher_requeue_cmdobj`. -/
def requeueCmdobj (c : DrawCtxt) (x : DrawObj) : DrawCtxt × Option Errno :=
  if c.isBad then (c, some .noent)
  else
    let prev := if c.head = 0 then contextDrawqueueSize - 1 else c.head - 1
    ({ c.setSlot prev { x with requeueCnt := x.requeueCnt + 1 } with
        queued := c.queued + 1, head := prev, fifo := x.id :: c.fifo }, none)

/-! ## Queueing objects -/

/-- `_queue_drawobj`. -/
def queueDrawobj (c : DrawCtxt) (x : DrawObj) : DrawCtxt :=
  { c.setSlot c.tail x with
    tail := drawqueueNext c.tail, queued := c.queued + 1, fifo := c.fifo ++ [x.id] }

/-- `get_timestamp`: the context after it, with the timestamp as its last one. -/
def getTimestamp (c : DrawCtxt) (userTs : ℕ) : Except Errno DrawCtxt :=
  if c.userGeneratedTs then
    if 0 ≤ timestampCmp c.timestamp userTs then .error .range
    else
      let ahead := (userTs % 2 ^ 32 + 2 ^ 32 - c.timestamp % 2 ^ 32) % 2 ^ 32
      .ok { c with timestamp := c.timestamp + ahead }
  else .ok { c with timestamp := c.timestamp + 1 }

/-- `_cmdobj_set_flags`, without the preamble: a context that skips until the end of a frame
    stops to do so with the object that ends it. -/
def cmdobjSetFlags (c : DrawCtxt) (x : DrawObj) : DrawCtxt × DrawObj :=
  ({ c with skipEof := c.skipEof && !x.endOfFrame },
    { x with skip := x.skip || c.ifhNop || c.skipEof })

/-- What became of an object of a call, and of the call. -/
inductive Queued where
  | queued
  /-- The marker was retired at once: `goto done`. -/
  | retired
  | error (e : Errno)

/-- `drawctxt_queue_bindobj`. -/
def drawctxtQueueBindobj (c : DrawCtxt) (x : DrawObj) (userTs : ℕ) : DrawCtxt × Queued :=
  match getTimestamp c userTs with
  | .error e => (c, .error e)
  | .ok c =>
    let c := { c with queuedTimestamp := c.timestamp, undone := c.timestamp :: c.undone }
    (queueDrawobj c { x with timestamp := c.timestamp }, .queued)

/-- `drawctxt_queue_timelineobj`, and `drawctxt_queue_syncobj`. -/
def drawctxtQueueUntimed (c : DrawCtxt) (x : DrawObj) : DrawCtxt × Queued :=
  (queueDrawobj c { x with timestamp := 0 }, .queued)

/-- `drawctxt_queue_markerobj`. -/
def drawctxtQueueMarkerobj (c : DrawCtxt) (x : DrawObj) (userTs : ℕ) : DrawCtxt × Queued :=
  match getTimestamp c userTs with
  | .error e => (c, .error e)
  | .ok c =>
    let x := { x with timestamp := c.timestamp }
    if c.queued = 0 ∧ c.checkTimestamp c.queuedTimestamp then (retireTimestamp c x, .retired)
    else
      let x := { x with markerTimestamp := c.queuedTimestamp }
      let cx := cmdobjSetFlags { c with queuedTimestamp := c.timestamp } x
      (queueDrawobj cx.1 cx.2, .queued)

/-- A marker is forced to dispatch. -/
def DrawObj.setSkip (x : DrawObj) : DrawObj :=
  if x.type = .marker then { x with skip := true } else x

/-- The loop of `drawctxt_queue_cmdobj` over the `n` slots from `j` to the tail. -/
def setSkips (c : DrawCtxt) (j : ℕ) : ℕ → DrawCtxt
  | 0 => c
  | n + 1 =>
    match c.drawqueue j with
    | none => setSkips c (drawqueueNext j) n
    | some x => setSkips (c.setSlot j x.setSkip) (drawqueueNext j) n

/-- `drawctxt_queue_cmdobj`. -/
def drawctxtQueueCmdobj (c : DrawCtxt) (x : DrawObj) (userTs : ℕ) : DrawCtxt × Queued :=
  match getTimestamp c userTs with
  | .error e => (c, .error e)
  | .ok c =>
    let x := { x with timestamp := c.timestamp }
    let c := { setSkips c c.head c.slots with queuedTimestamp := x.timestamp }
    let cx := cmdobjSetFlags c x
    (queueDrawobj cx.1 cx.2, .queued)

/-- The `switch` of `adreno_dispatcher_queue_cmds`. -/
def queueObj (c : DrawCtxt) (x : DrawObj) (userTs : ℕ) : DrawCtxt × Queued :=
  match x.type with
  | .marker => drawctxtQueueMarkerobj c x userTs
  | .cmd => drawctxtQueueCmdobj c x userTs
  | .bind => drawctxtQueueBindobj c x userTs
  | .sync | .timeline => drawctxtQueueUntimed c x

/-- The loop of `adreno_dispatcher_queue_cmds`. -/
def queueObjs (c : DrawCtxt) (userTs : ℕ) : List DrawObj → DrawCtxt × Queued
  | [] => (c, .queued)
  | x :: l =>
    match queueObj c x userTs with
    | (c, .queued) => queueObjs c userTs l
    | r => r

/-- The user's timestamp is compared at once, unless there is only a sync object. -/
def comparesUserTs (c : DrawCtxt) : List DrawObj → Bool
  | [x] => x.type ≠ .sync && c.userGeneratedTs
  | _ => c.userGeneratedTs

/-- What `adreno_dispatcher_queue_cmds` does under the lock once there is room. -/
def queueCmds (c : DrawCtxt) (objs : List DrawObj) (userTs : ℕ) : DrawCtxt × Queued :=
  if comparesUserTs c objs ∧ 0 ≤ timestampCmp c.timestamp userTs then (c, .error .range)
  else queueObjs c userTs objs

/-- The sync object that an ioctl puts first, if the user asks for one. -/
def UserSync (objs : List DrawObj) : Prop :=
  objs = [] ∨ ∃ id pending, objs = [DrawObj.create id .sync false pending]

/-- The objects of `kgsl_ioctl_gpu_command` and `kgsl_ioctl_gpu_aux_command`.  A bind comes
    behind a sync object for the last timestamp of the context, which the ioctl reads without
    the lock; a timeline object comes before a marker. -/
inductive Submits (c : DrawCtxt) : List DrawObj → Prop
  | sync (id : ℕ) (pending : List SyncEvent) : Submits c [DrawObj.create id .sync false pending]
  | marker (id : ℕ) (eof : Bool) : Submits c [DrawObj.create id .marker eof []]
  | command (user : List DrawObj) (id : ℕ) (eof : Bool) (hu : UserSync user) :
      Submits c (user ++ [DrawObj.create id .cmd eof []])
  | bind (user : List DrawObj) (id id' : ℕ) (hu : UserSync user) :
      Submits c (user ++ [DrawObj.create id .sync false [.timestamp c.timestamp]] ++
        [DrawObj.create id' .bind false []])
  | timeline (user : List DrawObj) (id id' : ℕ) (hu : UserSync user) :
      Submits c (user ++ [DrawObj.create id .timeline false []] ++
        [DrawObj.create id' .marker false []])

/-- `_check_context_queue`. -/
def checkContextQueue (c : DrawCtxt) (size count : ℕ) : Bool :=
  c.invalid || decide (c.queued + count < size)

/-! ## The attributes -/

/-- `_store_uint`, of a value that was parsed. -/
def storeUint (max val : ℕ) : Option ℕ :=
  if val = 0 ∨ max ≠ 0 ∧ max < val then none else some val

/-- `dispatcher_attr_context_drawqueue_size`. -/
def storeContextDrawqueueSize (val : ℕ) : Option ℕ := storeUint (contextDrawqueueSize - 1) val

/-- `dispatcher_attr_context_burst_count`. -/
def storeContextBurstCount (val : ℕ) : Option ℕ := storeUint 0 val

/-! ## A thread in `adreno_dispatcher_queue_cmds` -/

/-- Where a submitting thread is, with the objects of its ioctl and the user's timestamp. -/
inductive Thread where
  | idle
  /-- The objects exist, and `adreno_dispatcher_queue_cmds` is called. -/
  | called (objs : List DrawObj) (userTs : ℕ)
  /-- The first checks are done, and the lock is to be taken. -/
  | admitted (objs : List DrawObj) (userTs : ℕ)
  /-- In `wait_event_interruptible_timeout`. -/
  | sleeping (objs : List DrawObj) (userTs : ℕ)
  /-- `_check_context_queue` was true, and the lock is to be taken back. -/
  | woken (objs : List DrawObj) (userTs : ℕ)
  /-- The objects are queued, and the job is to be added. -/
  | handing

/-- The objects that a thread brings. -/
def Thread.objs : Thread → List DrawObj
  | .called objs _ | .admitted objs _ | .sleeping objs _ | .woken objs _ => objs
  | .idle | .handing => []

def Thread.withObjs : Thread → List DrawObj → Thread
  | .called _ ts, objs => .called objs ts
  | .admitted _ ts, objs => .admitted objs ts
  | .sleeping _ ts, objs => .sleeping objs ts
  | .woken _ ts, objs => .woken objs ts
  | t, _ => t

/-- The thread after the objects were dealt with. -/
def Queued.after : Queued → Thread
  | .queued => .handing
  | _ => .idle

/-- One section of a call of `adreno_dispatcher_queue_cmds`, where `size` is
    `_context_drawqueue_size`. -/
inductive CallStep (size : ℕ) (c : DrawCtxt) : Thread → DrawCtxt → Thread → Prop
  | allow (objs : List DrawObj) (userTs : ℕ) (hne : objs ≠ []) (hcount : objs.length ≤ size - 1)
      (hstate : c.checkState = none) :
      CallStep size c (.called objs userTs) c (.admitted objs userTs)
  | refuse (objs : List DrawObj) (userTs : ℕ) :
      CallStep size c (.called objs userTs) c .idle
  | enterBad (objs : List DrawObj) (userTs : ℕ) (hstate : c.checkState ≠ none) :
      CallStep size c (.admitted objs userTs) c .idle
  | sleep (objs : List DrawObj) (userTs : ℕ) (hstate : c.checkState = none)
      (hfull : size - 1 < c.queued + objs.length) :
      CallStep size c (.admitted objs userTs) c (.sleeping objs userTs)
  | insert (objs : List DrawObj) (userTs : ℕ) (c' : DrawCtxt) (r : Queued)
      (hstate : c.checkState = none) (hroom : c.queued + objs.length ≤ size - 1)
      (hq : queueCmds c objs userTs = (c', r)) :
      CallStep size c (.admitted objs userTs) c' r.after
  | wake (objs : List DrawObj) (userTs : ℕ) (hcheck : checkContextQueue c size objs.length) :
      CallStep size c (.sleeping objs userTs) c (.woken objs userTs)
  | giveUp (objs : List DrawObj) (userTs : ℕ) :
      CallStep size c (.sleeping objs userTs) c .idle
  | resumeBad (objs : List DrawObj) (userTs : ℕ) (hstate : c.checkState ≠ none) :
      CallStep size c (.woken objs userTs) c .idle
  | resume (objs : List DrawObj) (userTs : ℕ) (c' : DrawCtxt) (r : Queued)
      (hstate : c.checkState = none) (hq : queueCmds c objs userTs = (c', r)) :
      CallStep size c (.woken objs userTs) c' r.after

end Sm8850.Kgsl.Dispatch
