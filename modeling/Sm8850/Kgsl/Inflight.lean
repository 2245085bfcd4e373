/-
  The commands in flight: the drawqueues of the ringbuffers in `adreno_dispatch.c`.

  * `Drawqueue`: the ring of the commands that a ringbuffer was given, with its count; and
    `Dispatcher`, the sum of the counts with the vote that keeps the GPU on.
  * `sendcmd`, `retireDrawqueue`, `dispatcherPowerDown`: what gives a command to the GPU,
    takes it back, and drops the vote.
  * `recoverDispatchQ` and `recover`: what `dispatcher_do_fault` does with the commands once
    the GPU is reset.  The fault policy comes in as an edit of the commands' marks.

  `flying`, `votes`, `retired` and `destroyed` are of no effect: they say which commands the
  GPU was given and what became of the others.  A context stays on its ringbuffer while it
  has commands in flight.
-/
import Mathlib.Data.Finset.Basic
import Mathlib.Data.List.FinRange
import Mathlib.Data.List.Basic
import Mathlib.Logic.Function.Basic

namespace Sm8850.Kgsl.Inflight

/-! ## Data -/

/-- `ADRENO_DISPATCH_DRAWQUEUE_SIZE`. -/
abbrev drawqueueSize : ℕ := 128

/-- `DRAWQUEUE_NEXT` in a drawqueue. -/
def drawqueueNext (i : ℕ) : ℕ := (i + 1) % drawqueueSize

/-- `enum kgsl_ft_policy_bits`. -/
inductive FtPolicy where
  | off | replay | skipib | skipframe | disable | tempDisable | throttle | skipcmd | skipPmdump
  deriving DecidableEq

/-- An indirect buffer of a command; `skip` is `MEMOBJ_SKIP`. -/
structure Ib where
  gpuaddr : ℕ
  skip : Bool
  deriving DecidableEq

/-- `struct kgsl_drawobj_cmd`, with `KGSL_DRAWOBJ_END_OF_FRAME` and `KGSL_DRAWOBJ_CTX_SWITCH`
    of its flags and `CMDOBJ_SKIP`, `CMDOBJ_FORCE_PREAMBLE` and `CMDOBJ_WFI` of its marks. -/
structure Cmd where
  id : ℕ
  ctx : ℕ
  timestamp : ℕ
  endOfFrame : Bool
  ctxSwitch : Bool
  skip : Bool
  forcePreamble : Bool
  wfi : Bool
  faultPolicy : Finset FtPolicy
  faultRecovery : Finset FtPolicy
  cmdlist : List Ib
  deriving DecidableEq

/-- What no mark changes of a command. -/
def Cmd.key (c : Cmd) : ℕ × ℕ × ℕ := (c.id, c.ctx, c.timestamp)

/-- The command as it is submitted once more. -/
def Cmd.resubmit (first : Bool) (c : Cmd) : Cmd :=
  { c with forcePreamble := c.forcePreamble || first, wfi := true }

/-- `struct adreno_dispatcher_drawqueue`. -/
structure Drawqueue where
  cmdQ : ℕ → Option Cmd
  inflight : ℕ
  head : ℕ
  tail : ℕ
  flying : List Cmd

/-- `dispatcher_context_sendcmds` in its loop. -/
structure Burst (n : ℕ) where
  rb : Fin n
  limit : ℕ
  count : ℕ

/-- `struct adreno_dispatcher` with the drawqueues of `n` ringbuffers, the attributes, and
    the contexts that are bad. -/
structure Dispatcher (n : ℕ) where
  q : Fin n → Drawqueue
  inflight : ℕ
  /-- `ADRENO_DISPATCHER_POWER` -/
  power : Bool
  /-- `ADRENO_DISPATCHER_ACTIVE` -/
  active : Bool
  votes : ℕ
  bad : ℕ → Bool
  retired : List Cmd
  destroyed : List Cmd
  inflightHi : ℕ
  inflightLo : ℕ
  burst : ℕ
  sending : Option (Burst n)

variable {n : ℕ}

/-- `_drawqueue_inflight`. -/
def drawqueueInflight (d : Dispatcher n) (activeContextCount : ℕ) : ℕ :=
  if activeContextCount > 1 then d.inflightLo else d.inflightHi

/-- `adreno_drawqueue_is_empty`. -/
def Drawqueue.isEmpty (q : Drawqueue) : Bool := q.head = q.tail

namespace Dispatcher

/-- One drawqueue replaced. -/
def setQ (d : Dispatcher n) (rb : Fin n) (q : Drawqueue) : Dispatcher n :=
  { d with q := Function.update d.q rb q }

/-- Both counts raised. -/
def raise (d : Dispatcher n) (rb : Fin n) : Dispatcher n :=
  { d.setQ rb { d.q rb with inflight := (d.q rb).inflight + 1 } with inflight := d.inflight + 1 }

/-- Both counts lowered. -/
def lower (d : Dispatcher n) (rb : Fin n) : Dispatcher n :=
  { d.setQ rb { d.q rb with inflight := (d.q rb).inflight - 1 } with inflight := d.inflight - 1 }

/-- The command put behind the tail of the drawqueue. -/
def put (d : Dispatcher n) (rb : Fin n) (c : Cmd) : Dispatcher n :=
  let q := d.q rb
  d.setQ rb { q with
    cmdQ := Function.update q.cmdQ q.tail (some c)
    tail := drawqueueNext q.tail
    flying := q.flying ++ [c] }

/-- The command taken from the head of the drawqueue. -/
def take (d : Dispatcher n) (rb : Fin n) (c : Cmd) : Dispatcher n :=
  let q := d.q rb
  d.setQ rb { q with
    cmdQ := Function.update q.cmdQ q.head none
    head := drawqueueNext q.head
    flying := q.flying.erase c }

/-! ## Submission -/

/-- What happens to a submission. -/
structure Outcome where
  /-- `adreno_gpu_halt` -/
  halted : Bool
  /-- `adreno_active_count_get` fails -/
  getFails : Bool
  /-- `adreno_ringbuffer_submitcmd` fails -/
  submitFails : Bool

/-- The first command in flight turns on the GPU; `none` if that fails. -/
def turnOn (d : Dispatcher n) (o : Outcome) : Option (Dispatcher n) :=
  if d.inflight = 1 ∧ d.power = false then
    if o.getFails then none else some { d with power := true, votes := d.votes + 1 }
  else some d

/-- What follows the submission of the first command in flight. -/
def submitted (d : Dispatcher n) (o : Outcome) : Dispatcher n :=
  if d.inflight = 1 then
    if o.submitFails then { d with power := false, votes := d.votes - 1 }
    else { d with active := true }
  else d

/-- `sendcmd` of a command whose context is on the ringbuffer, and whether it succeeds. -/
def sendcmd (d : Dispatcher n) (rb : Fin n) (c : Cmd) (o : Outcome) : Dispatcher n × Bool :=
  if o.halted then (d, false)
  else match (d.raise rb).turnOn o with
    | none => ((d.raise rb).lower rb, false)
    | some d =>
      if o.submitFails then ((d.submitted o).lower rb, false)
      else ((d.submitted o).put rb c, true)

/-! ## Retirement -/

/-- The loop of `adreno_dispatch_retire_drawqueue`, where `passed` is `kgsl_check_timestamp`
    of the command's timestamp.  A ring that is not empty has a command at its head. -/
def retireFrom (d : Dispatcher n) (rb : Fin n) (passed : Cmd → Bool) : ℕ → Dispatcher n
  | 0 => d
  | fuel + 1 =>
    if (d.q rb).isEmpty then d
    else match (d.q rb).cmdQ (d.q rb).head with
      | none => d
      | some c =>
        if passed c then
          retireFrom { (d.lower rb).take rb c with retired := d.retired ++ [c] } rb passed fuel
        else d

/-- `adreno_dispatch_retire_drawqueue`. -/
def retireDrawqueue (d : Dispatcher n) (passed : Cmd → Bool) (rb : Fin n) : Dispatcher n :=
  d.retireFrom rb passed drawqueueSize

/-- `_dispatcher_power_down`. -/
def dispatcherPowerDown (d : Dispatcher n) : Dispatcher n :=
  let d := { d with active := false }
  if d.power then { d with power := false, votes := d.votes - 1 } else d

end Dispatcher

/-! ## Recovery -/

/-- The commands from `ptr` up to the tail, in as many steps at most. -/
def Drawqueue.copyFrom (q : Drawqueue) : ℕ → ℕ → List (Option Cmd)
  | 0, _ => []
  | fuel + 1, ptr =>
    if ptr = q.tail then [] else q.cmdQ ptr :: q.copyFrom fuel (drawqueueNext ptr)

/-- The commands in the ring. -/
def Drawqueue.contents (q : Drawqueue) : List (Option Cmd) := q.copyFrom drawqueueSize q.head

/-- What happens in `recover_dispatch_q`: whether there is memory, what
    `process_cmdobj_fault` makes of the commands, which contexts are bad by then, and how the
    submissions end. -/
structure Replay where
  alloc : Bool
  edit : List Cmd → List Cmd
  /-- marks are all that changes -/
  edit_key : ∀ l, (edit l).map Cmd.key = l.map Cmd.key
  bad : List Cmd → ℕ → Bool
  outcome : ℕ → Dispatcher.Outcome

namespace Dispatcher

/-- `adreno_drawctxt_set_guilty`. -/
def setGuilty (d : Dispatcher n) (ctx : ℕ) : Dispatcher n :=
  { d with bad := Function.update d.bad ctx true }

/-- `kgsl_drawobj_destroy`. -/
def destroy (d : Dispatcher n) (c : Cmd) : Dispatcher n :=
  { d with destroyed := d.destroyed ++ [c] }

/-- `remove_invalidated_cmdobjs`. -/
def removeInvalidated (d : Dispatcher n) :
    List (Option Cmd) → Dispatcher n × List (Option Cmd)
  | [] => (d, [])
  | none :: replay =>
    let (d, replay) := d.removeInvalidated replay
    (d, none :: replay)
  | some c :: replay =>
    if d.bad c.ctx then
      let (d, replay) := (d.destroy c).removeInvalidated replay
      (d, none :: replay)
    else
      let (d, replay) := d.removeInvalidated replay
      (d, some c :: replay)

/-- The loop of `recover_dispatch_q` over the commands that are left. -/
def replayFrom (rb : Fin n) (outcome : ℕ → Outcome) :
    ℕ → ℕ → Bool → Dispatcher n → List (Option Cmd) → Dispatcher n
  | fuel + 1, i, first, d, none :: replay => replayFrom rb outcome fuel (i + 1) first d replay
  | fuel + 1, i, first, d, some c :: replay =>
    let c := c.resubmit first
    let (d, success) := d.sendcmd rb c (outcome i)
    if success then replayFrom rb outcome fuel (i + 1) false d replay
    else
      let (d, replay) := (d.setGuilty c.ctx).removeInvalidated (some c :: replay)
      replayFrom rb outcome fuel (i + 1) false d replay.tail
  | _, _, _, d, _ => d

/-- The drawqueue without the commands that were copied from it. -/
def resetQ (d : Dispatcher n) (rb : Fin n) : Dispatcher n :=
  let q := d.q rb
  d.setQ rb { q with
    inflight := 0
    head := 0
    tail := 0
    flying := q.flying.filter (some · ∉ q.contents) }

/-- `recover_dispatch_q`. -/
def recoverDispatchQ (d : Dispatcher n) (rb : Fin n) (r : Replay) : Dispatcher n :=
  let inflight := (d.q rb).contents.reduceOption
  if r.alloc = false then
    (inflight.foldl (fun d c => (d.setGuilty c.ctx).destroy c) d).resetQ rb
  else
    let replay := (r.edit inflight).map some
    let d := { d.resetQ rb with bad := fun ctx => d.bad ctx || r.bad inflight ctx }
    let (d, replay) := d.removeInvalidated replay
    replayFrom rb r.outcome replay.length 0 true d replay

/-- The order in which `dispatcher_do_fault` recovers: the drawqueue that hung first. -/
def recoverOrder (hung : Option (Fin n)) : List (Fin n) :=
  hung.toList ++ (List.finRange n).filter fun rb => hung ≠ some rb

/-- What `dispatcher_do_fault` does with the commands. -/
def recover (d : Dispatcher n) (hung : Option (Fin n)) (passed : Cmd → Bool)
    (r : Fin n → Replay) : Dispatcher n :=
  let d := (List.finRange n).foldl (retireDrawqueue · passed) d
  (recoverOrder hung).foldl (fun d rb => d.recoverDispatchQ rb (r rb)) { d with inflight := 0 }

end Dispatcher

end Sm8850.Kgsl.Inflight
