/-
  The dispatcher: `adreno_dispatcher_work` and what it does with the jobs of the contexts.

  * `Dispatcher`: the contexts, the lists `jobs` and `requeue` of every priority, and the
    flags that a fault and a halt of the GPU set.
  * `Run`: where a run of the dispatcher is.  It holds the dispatcher mutex, so there is at
    most one.
  * `DispatchStep`: one access at a time of the run, of the submitting threads and of
    everybody else.
  * `NoneForgotten`: without a run in progress, every context that is not bad and has
    objects in its queue has a job, or a thread that is to add one.

  A job holds a reference on its context, so two contexts with jobs have different ids.  The
  limit on the commands in flight is left open: it may be reached at any time.
-/
import Sm8850.Kgsl.Drawqueue

namespace Sm8850.Kgsl.Dispatch

/-! ## State -/

/-- The size of `dispatcher->jobs`. -/
abbrev numPriorities : ℕ := 16

/-- The job that `dispatcher_handle_jobs_list` looks at, the contexts it has seen, and the
    jobs of the priority that it has still to look at. -/
structure Job where
  prio : ℕ
  map : List ℕ
  todo : List ℕ
  ctx : ℕ

/-- What `dispatcher_context_sendcmds` returns. -/
inductive SendRet where
  | count (n : ℕ)
  | err (e : Errno)

/-- How far the job is. -/
inductive Stage where
  /-- `adreno_gpu_stopped` is to look at the fault. -/
  | checked
  /-- `adreno_gpu_stopped` is to look at the halt count. -/
  | noFault
  /-- `dispatcher_context_sendcmds` is called. -/
  | entered
  /-- At the condition of its loop. -/
  | looping (count : ℕ)
  /-- At the look at the fault in the loop. -/
  | sending (count : ℕ)
  /-- The lock of the context is to be taken. -/
  | taking (count : ℕ)
  /-- An object was popped, and `sendcmd` is called. -/
  | popped (count : ℕ) (x : DrawObj)
  /-- `sendcmd` failed, and the context is not detached. -/
  | failed (x : DrawObj) (e : Errno) (he : e ≠ .noent)
  /-- `dispatcher_context_sendcmds` has returned. -/
  | returned (ret : SendRet)

/-- Where a run of the dispatcher is. -/
inductive Run where
  | idle
  /-- `adreno_dispatcher_work`, before `dispatcher_do_fault`. -/
  | work
  /-- `dispatcher_do_fault` took the fault. -/
  | faulted
  /-- It set the halt count aside and resets the GPU. -/
  | resetting (halt : ℕ)
  /-- It replays the commands in flight. -/
  | replaying (halt : ℕ)
  /-- `_adreno_dispatcher_issuecmds`, before its look at the fault. -/
  | issue
  /-- `dispatcher_handle_jobs` is to handle the priority, or all were handled. -/
  | prio (i : ℕ)
  /-- It has taken the list `requeue`. -/
  | tookRequeue (i : ℕ) (requeue : List ℕ)
  /-- `dispatcher_handle_jobs_list` is to look at the next job. -/
  | list (i : ℕ) (map todo : List ℕ)
  /-- It is busy with a job. -/
  | serving (job : Job) (stage : Stage)
  /-- The mutex is to be released. -/
  | finished

/-- The contexts by their ids, with their priorities, and the dispatcher.  A thread is in a
    call for a context. -/
structure Dispatcher where
  size : ℕ
  burst : ℕ
  prio : ℕ → ℕ
  ctx : ℕ → DrawCtxt
  jobs : ℕ → List ℕ
  requeue : ℕ → List ℕ
  fault : Bool
  halt : ℕ
  thread : ℕ → ℕ × Thread
  run : Run

def Dispatcher.setCtx (w : Dispatcher) (c : ℕ) (x : DrawCtxt) : Dispatcher :=
  { w with ctx := Function.update w.ctx c x }

def Dispatcher.setThread (w : Dispatcher) (k c : ℕ) (t : Thread) : Dispatcher :=
  { w with thread := Function.update w.thread k (c, t) }

/-- `llist_add` to `jobs`. -/
def Dispatcher.addJob (w : Dispatcher) (i c : ℕ) : Dispatcher :=
  { w with jobs := Function.update w.jobs i (c :: w.jobs i) }

/-- `llist_add` to `requeue`. -/
def Dispatcher.addRequeue (w : Dispatcher) (i c : ℕ) : Dispatcher :=
  { w with requeue := Function.update w.requeue i (c :: w.requeue i) }

/-- `drawctxt_detach_drawobjs`: the objects are taken off the ring. -/
def DrawCtxt.drain (c : DrawCtxt) : DrawCtxt := { c with head := c.tail, fifo := [] }

/-- `adreno_drawctxt_invalidate`, under the lock. -/
def DrawCtxt.invalidate (c : DrawCtxt) : DrawCtxt :=
  { c.drain with invalid := true, eoptimestamp := c.timestamp }

/-- The run gets on with the job. -/
def Dispatcher.serve (w : Dispatcher) (job : Job) (stage : Stage) : Dispatcher :=
  { w with run := .serving job stage }

/-- `dispatcher_handle_jobs_list` goes on with the other jobs. -/
def Dispatcher.goOn (w : Dispatcher) (job : Job) : Dispatcher :=
  { w with run := .list job.prio job.map job.todo }

/-- The job is dropped when nothing was queued or the context is gone. -/
def SendRet.drops : SendRet → Bool
  | .count n => n = 0
  | .err e => e = .noent

/-! ## Steps -/

/-- One access of a run of the dispatcher. -/
inductive RunStep (w : Dispatcher) : Run → Dispatcher → Prop
  -- `adreno_dispatcher_work`, or `adreno_dispatcher_issuecmds` of a thread
  | work : RunStep w .idle { w with run := .work }
  | issueInline : RunStep w .idle { w with run := .issue }
  -- `dispatcher_do_fault`
  | noFault (h : w.fault = false) : RunStep w .work { w with run := .issue }
  | powerOff (h : w.fault = true) : RunStep w .work { w with fault := false, run := .issue }
  | stalled (h : w.fault = true) : RunStep w .work { w with fault := false, run := .finished }
  | faulted (h : w.fault = true) : RunStep w .work { w with fault := false, run := .faulted }
  | clearHalt : RunStep w .faulted { w with halt := 0, run := .resetting w.halt }
  | reset (halt : ℕ) :
      RunStep w (.resetting halt) { w with fault := false, run := .replaying halt }
  | replayed (halt : ℕ) :
      RunStep w (.replaying halt) { w with halt := w.halt + halt, run := .finished }
  -- `_adreno_dispatcher_issuecmds` and `dispatcher_handle_jobs`
  | leave (h : w.fault = true) : RunStep w .issue { w with run := .finished }
  | start (h : w.fault = false) : RunStep w .issue { w with run := .prio 0 }
  | takeRequeue (i : ℕ) (hi : i < numPriorities) :
      RunStep w (.prio i)
        { w with
          requeue := Function.update w.requeue i [], run := .tookRequeue i (w.requeue i) }
  | takeJobs (i : ℕ) (requeue : List ℕ) :
      RunStep w (.tookRequeue i requeue)
        { w with
          jobs := Function.update w.jobs i []
          run := .list i [] (requeue.reverse ++ (w.jobs i).reverse) }
  | allHandled : RunStep w (.prio numPriorities) { w with run := .finished }
  -- `dispatcher_handle_jobs_list`
  | listEnd (i : ℕ) (map : List ℕ) : RunStep w (.list i map []) { w with run := .prio (i + 1) }
  | dropBad (i c : ℕ) (map todo : List ℕ) (h : (w.ctx c).isBad = true) :
      RunStep w (.list i map (c :: todo)) { w with run := .list i map todo }
  | dropSeen (i c : ℕ) (map todo : List ℕ) (h : (w.ctx c).isBad = false) (hc : c ∈ map) :
      RunStep w (.list i map (c :: todo)) { w with run := .list i map todo }
  | look (i c : ℕ) (map todo : List ℕ) (h : (w.ctx c).isBad = false) (hc : c ∉ map) :
      RunStep w (.list i map (c :: todo)) (w.serve ⟨i, c :: map, todo, c⟩ .checked)
  | stoppedFault (job : Job) (h : w.fault = true) :
      RunStep w (.serving job .checked) ((w.addJob job.prio job.ctx).goOn job)
  | notFaulted (job : Job) (h : w.fault = false) :
      RunStep w (.serving job .checked) (w.serve job .noFault)
  | stoppedHalt (job : Job) (h : w.halt ≠ 0) :
      RunStep w (.serving job .noFault) ((w.addJob job.prio job.ctx).goOn job)
  | enter (job : Job) (h : w.halt = 0) : RunStep w (.serving job .noFault) (w.serve job .entered)
  -- `dispatcher_context_sendcmds`
  | busy (job : Job) (c : DrawCtxt) (r : Next)
      (h : processDrawqueueGetNextDrawobj (w.ctx job.ctx) = (c, r)) :
      RunStep w (.serving job .entered)
        ((w.setCtx job.ctx c).serve job (.returned (.err .busy)))
  | firstPass (job : Job) : RunStep w (.serving job .entered) (w.serve job (.looping 0))
  | loopEnd (job : Job) (count : ℕ) (h : w.burst ≤ count ∨ 0 < count) :
      RunStep w (.serving job (.looping count)) (w.serve job (.returned (.count count)))
  | pass (job : Job) (count : ℕ) (h : count < w.burst) :
      RunStep w (.serving job (.looping count)) (w.serve job (.sending count))
  | faultSeen (job : Job) (count : ℕ) (h : w.fault = true) :
      RunStep w (.serving job (.sending count)) (w.serve job (.returned (.count count)))
  | noFaultSeen (job : Job) (count : ℕ) (h : w.fault = false) :
      RunStep w (.serving job (.sending count)) (w.serve job (.taking count))
  | takeNull (job : Job) (count : ℕ) (c : DrawCtxt)
      (h : takeDrawobj (w.ctx job.ctx) = (c, .null)) :
      RunStep w (.serving job (.taking count))
        ((w.setCtx job.ctx c).serve job (.returned (.count count)))
  | takeErr (job : Job) (count : ℕ) (c : DrawCtxt) (e : Errno)
      (h : takeDrawobj (w.ctx job.ctx) = (c, .err e)) :
      RunStep w (.serving job (.taking count))
        ((w.setCtx job.ctx c).serve job (.returned (.err e)))
  | take (job : Job) (count : ℕ) (c : DrawCtxt) (x : DrawObj)
      (h : takeDrawobj (w.ctx job.ctx) = (c, .obj x)) :
      RunStep w (.serving job (.taking count)) ((w.setCtx job.ctx c).serve job (.popped count x))
  | sent (job : Job) (count : ℕ) (x : DrawObj) :
      RunStep w (.serving job (.popped count x)) (w.serve job (.looping (count + 1)))
  | sendFailed (job : Job) (count : ℕ) (x : DrawObj) (e : Errno) (he : e ≠ .noent) :
      RunStep w (.serving job (.popped count x)) (w.serve job (.failed x e he))
  | sendDetached (job : Job) (count : ℕ) (x : DrawObj)
      (h : (w.ctx job.ctx).detached = true) :
      RunStep w (.serving job (.popped count x)) (w.serve job (.returned (.err .noent)))
  | requeued (job : Job) (x : DrawObj) (e : Errno) (he : e ≠ .noent) (c : DrawCtxt)
      (h : requeueCmdobj (w.ctx job.ctx) x = (c, none)) :
      RunStep w (.serving job (.failed x e he))
        ((w.setCtx job.ctx c).serve job (.returned (.err e)))
  | requeueFailed (job : Job) (x : DrawObj) (e e' : Errno) (he : e ≠ .noent) (c : DrawCtxt)
      (h : requeueCmdobj (w.ctx job.ctx) x = (c, some e')) :
      RunStep w (.serving job (.failed x e he))
        ((w.setCtx job.ctx c).serve job (.returned (.err e')))
  -- what becomes of the job
  | drop (job : Job) (ret : SendRet) (h : ret.drops = true) :
      RunStep w (.serving job (.returned ret)) (w.goOn job)
  | keepFirst (job : Job) :
      RunStep w (.serving job (.returned (.err .busy)))
        ((w.addRequeue job.prio job.ctx).goOn job)
  | keep (job : Job) (ret : SendRet) (h : ret.drops = false) (hb : ret ≠ .err .busy) :
      RunStep w (.serving job (.returned ret)) ((w.addJob job.prio job.ctx).goOn job)
  | finish : RunStep w .finished { w with run := .idle }

/-- One access of anybody. -/
inductive DispatchStep (w : Dispatcher) : Dispatcher → Prop
  | run (r : Run) (w' : Dispatcher) (hr : w.run = r) (h : RunStep w r w') : DispatchStep w w'
  -- submitting threads
  | call (k c c₀ : ℕ) (objs : List DrawObj) (userTs : ℕ) (hidle : w.thread k = (c₀, .idle))
      (h : Submits (w.ctx c) objs) : DispatchStep w (w.setThread k c (.called objs userTs))
  | thread (k c : ℕ) (x : DrawCtxt) (t t' : Thread) (ht : w.thread k = (c, t))
      (h : CallStep w.size (w.ctx c) t x t') :
      DispatchStep w ((w.setCtx c x).setThread k c t')
  | handOver (k c : ℕ) (h : w.thread k = (c, .handing)) :
      DispatchStep w ((w.addJob (w.prio c) c).setThread k c .idle)
  -- `dispatcher_queue_context`, for a sync object or a bind
  | queueContext (c : ℕ) (h : (w.ctx c).detached = false) :
      DispatchStep w (w.addJob (w.prio c) c)
  -- `_store_uint`
  | storeSize (val size : ℕ) (h : storeContextDrawqueueSize val = some size) :
      DispatchStep w { w with size := size }
  | storeBurst (val burst : ℕ) (h : storeContextBurstCount val = some burst) :
      DispatchStep w { w with burst := burst }
  -- the objects in the queue and the GPU
  | event (c i : ℕ) (x x' : DrawObj) (hx : (w.ctx c).drawqueue i = some x)
      (hid : x'.id = x.id) (ht : x'.type = x.type) :
      DispatchStep w (w.setCtx c ((w.ctx c).setSlot i x'))
  | retired (c ts : ℕ) : DispatchStep w (w.setCtx c { w.ctx c with eoptimestamp := ts })
  | fault : DispatchStep w { w with fault := true }
  | haltGet : DispatchStep w { w with halt := w.halt + 1 }
  | haltPut (h : 0 < w.halt) : DispatchStep w { w with halt := w.halt - 1 }
  -- contexts that go bad
  | invalidate (c : ℕ) : DispatchStep w (w.setCtx c (w.ctx c).invalidate)
  | detach (c : ℕ) : DispatchStep w (w.setCtx c { w.ctx c with detached := true })
  | drain (c : ℕ) (h : (w.ctx c).detached = true) :
      DispatchStep w (w.setCtx c (w.ctx c).drain)

/-- New contexts, with any priorities and flags, and an idle dispatcher. -/
def Dispatcher.init (size burst : ℕ) (prio : ℕ → ℕ) (userGeneratedTs ifhNop : ℕ → Bool) :
    Dispatcher where
  size := size
  burst := burst
  prio := prio
  ctx c := DrawCtxt.create (userGeneratedTs c) (ifhNop c)
  jobs _ := []
  requeue _ := []
  fault := false
  halt := 0
  thread _ := (0, .idle)
  run := .idle

/-! ## The claim on the jobs -/

/-- The context is to be served: it is not bad, and its queue is not empty. -/
def Dispatcher.Waits (w : Dispatcher) (c : ℕ) : Prop :=
  (w.ctx c).isBad = false ∧ (w.ctx c).head ≠ (w.ctx c).tail

/-- The context has a job in a list of its priority, or a thread is to add one. -/
def Dispatcher.HasJob (w : Dispatcher) (c : ℕ) : Prop :=
  c ∈ w.jobs (w.prio c) ∨ c ∈ w.requeue (w.prio c) ∨ ∃ k, w.thread k = (c, .handing)

/-- Without a run in progress, no context is forgotten. -/
def NoneForgotten (w : Dispatcher) : Prop :=
  w.run = .idle → ∀ c, w.Waits c → w.HasJob c

end Sm8850.Kgsl.Dispatch
