/-
  Runs of one context: submitting threads, the dispatcher, the bind worker and the GPU.

  * `Step` takes one section under the context lock, or one thing that happens elsewhere, at
    a time.  The context is neither detached nor invalidated, and the GPU does not fault.
  * `Step.contents`: a step leaves the ring with a list of objects, unless a thread that was
    woken finds no room.
  * **`ring_sound`**: if every woken thread that goes on finds room, the ring never
    overflows and no queued object is overwritten.
  * `resume_overflows`: a woken thread that queues all its objects without room overflows
    the ring.
-/
import Mathlib.Logic.Relation
import Sm8850.Kgsl.DrawqueueSpec

namespace Sm8850.Kgsl.Dispatch

/-! ## Steps -/

/-- The event of a sync object may fire: `kgsl_add_event` and `_process_event_group` compare
    its timestamp with the retired one. -/
inductive Fires (c : DrawCtxt) : SyncEvent → Prop
  | other : Fires c .other
  | timestamp (ts : ℕ) (h : 0 ≤ timestampCmp c.eoptimestamp ts ∨
      timestampCmp ts c.eoptimestamp ≤ 0) : Fires c (.timestamp ts)

/-- `drawobj_sync_expire`. -/
def DrawObj.expire (x : DrawObj) (e : SyncEvent) : DrawObj :=
  { x with pending := x.pending.erase e }

/-- One context with `_context_drawqueue_size`, the object that the dispatcher has popped,
    and the objects sent to the GPU: those it has not completed, and those it has completed
    without having written their timestamps. -/
structure World where
  size : ℕ
  ctx : DrawCtxt
  popped : Option DrawObj
  inflight : List DrawObj
  finished : List DrawObj
  thread : ℕ → Thread

def World.setThread (w : World) (k : ℕ) (t : Thread) : World :=
  { w with thread := Function.update w.thread k t }

/-- One step, where `Calls` says which objects an ioctl may submit. -/
inductive Step (Calls : DrawCtxt → List DrawObj → Prop) (w : World) : World → Prop
  | store (val size : ℕ) (h : storeContextDrawqueueSize val = some size) :
      Step Calls w { w with size := size }
  | call (k : ℕ) (objs : List DrawObj) (userTs : ℕ) (hidle : w.thread k = .idle)
      (h : Calls w.ctx objs) :
      Step Calls w (w.setThread k (.called objs userTs))
  | thread (k : ℕ) (ctx : DrawCtxt) (t t' : Thread) (ht : w.thread k = t)
      (h : CallStep w.size w.ctx t ctx t') :
      Step Calls w ({ w with ctx := ctx }.setThread k t')
  | handOver (k : ℕ) (h : w.thread k = .handing) : Step Calls w (w.setThread k .idle)
  | signalHeld (k : ℕ) (pre post : List DrawObj) (x : DrawObj) (e : SyncEvent)
      (hobjs : (w.thread k).objs = pre ++ x :: post) (hs : x.type = .sync)
      (he : Fires w.ctx e) :
      Step Calls w (w.setThread k ((w.thread k).withObjs (pre ++ x.expire e :: post)))
  | signalQueued (j : ℕ) (x : DrawObj) (e : SyncEvent) (hj : j < w.ctx.slots)
      (hx : w.ctx.drawqueue (w.ctx.slotAt j) = some x) (hs : x.type = .sync)
      (he : Fires w.ctx e) :
      Step Calls w { w with ctx := w.ctx.setSlot (w.ctx.slotAt j) (x.expire e) }
  | bound (j : ℕ) (x : DrawObj) (hj : j < w.ctx.slots)
      (hx : w.ctx.drawqueue (w.ctx.slotAt j) = some x) (hb : x.type = .bind)
      (hstart : x.start = true) (hdone : x.done = false) :
      Step Calls w
        { w with
          ctx := { w.ctx.setSlot (w.ctx.slotAt j) { x with done := true } with
            undone := w.ctx.undone.erase x.timestamp } }
  | retire (ctx : DrawCtxt) (r : Next) (hp : w.popped = none)
      (h : processDrawqueueGetNextDrawobj w.ctx = (ctx, r)) :
      Step Calls w { w with ctx := ctx }
  | takeNone (ctx : DrawCtxt) (r : Next) (hp : w.popped = none)
      (h : takeDrawobj w.ctx = (ctx, r)) (hr : ∀ x, r ≠ .obj x) :
      Step Calls w { w with ctx := ctx }
  | take (ctx : DrawCtxt) (x : DrawObj) (hp : w.popped = none)
      (h : takeDrawobj w.ctx = (ctx, .obj x)) :
      Step Calls w { w with ctx := ctx, popped := some x }
  | send (x : DrawObj) (hp : w.popped = some x) :
      Step Calls w { w with popped := none, inflight := w.inflight ++ [x] }
  | sendFailed (x : DrawObj) (hp : w.popped = some x) :
      Step Calls w { w with ctx := (requeueCmdobj w.ctx x).1, popped := none }
  | complete (x : DrawObj) (l : List DrawObj) (h : w.inflight = x :: l) :
      Step Calls w { w with inflight := l, finished := w.finished ++ [x] }
  | written (x : DrawObj) (l : List DrawObj) (h : w.finished = x :: l) :
      Step Calls w { w with finished := l, ctx := retireTimestamp w.ctx x }

/-- A new context, with a size of its queue that the attribute accepts. -/
def World.init (size : ℕ) (userGeneratedTs ifhNop : Bool) : World where
  size := size
  ctx := DrawCtxt.create userGeneratedTs ifhNop
  popped := none
  inflight := []
  finished := []
  thread _ := .idle

/-! ## The ring -/

/-- How many objects the dispatcher has popped: at most one. -/
def poppedCount (popped : Option DrawObj) : ℕ := popped.toList.length

/-- The count is that of the slots from head to tail, the object popped has room to come
    back, and the slots have the objects that were queued and not taken out. -/
structure RingSound (w : World) : Prop where
  queued_eq : w.ctx.queued = w.ctx.slots
  below : w.ctx.queued + poppedCount w.popped < contextDrawqueueSize
  length_fifo : w.ctx.fifo.length = w.ctx.queued
  slot : ∀ j (h : j < w.ctx.fifo.length),
    (w.ctx.drawqueue (w.ctx.slotAt j)).map (·.id) = some w.ctx.fifo[j]

/-- A woken thread that goes on finds room, next to the object popped. -/
def FindsRoom (w w' : World) : Prop :=
  ∀ k objs userTs, w.thread k = .woken objs userTs → w'.thread k ≠ w.thread k →
    w.ctx.queued + poppedCount w.popped + objs.length < contextDrawqueueSize

/-- The invariant of a run: the ring has a list of objects, with room for the one popped. -/
structure RingInv (w : World) : Prop where
  size_pos : 1 ≤ w.size
  size_lt : w.size < contextDrawqueueSize
  contents : ∃ l, Contents w.ctx l ∧ l.length + poppedCount w.popped < contextDrawqueueSize

theorem storeContextDrawqueueSize_some {val size : ℕ}
    (h : storeContextDrawqueueSize val = some size) : 1 ≤ size ∧ size < contextDrawqueueSize := by
  unfold storeContextDrawqueueSize storeUint contextDrawqueueSize at *
  split at h
  · cases h
  · next hval =>
    cases h
    omega

variable {Calls : DrawCtxt → List DrawObj → Prop} {w w' : World}

@[simp] theorem poppedCount_none : poppedCount none = 0 := rfl

@[simp] theorem poppedCount_some (x : DrawObj) : poppedCount (some x) = 1 := rfl

theorem poppedCount_le (popped : Option DrawObj) : poppedCount popped ≤ 1 := by
  cases popped with
  | none => exact Nat.zero_le _
  | some => exact le_rfl

/-- A call leaves room for the object popped: it checks the room under the lock, or it was
    woken and finds it. -/
theorem CallStep.contents {size popped : ℕ} {c c' : DrawCtxt} {t t' : Thread} {l : List DrawObj}
    (h : CallStep size c t c' t') (hsize : size < contextDrawqueueSize) (hpopped : popped ≤ 1)
    (hc : Contents c l) (hl : l.length + popped < contextDrawqueueSize)
    (hroom : ∀ objs userTs, t = .woken objs userTs → t' ≠ t →
      c.queued + popped + objs.length < contextDrawqueueSize) :
    ∃ l', Contents c' l' ∧ l'.length + popped < contextDrawqueueSize := by
  have hqueued : c.queued = l.length := hc.queued_eq
  cases h with
  | insert objs userTs c' r hstate hfits hq =>
    obtain ⟨l', hc', hl'⟩ := queueCmds_contents hc (by omega) hq
    exact ⟨l', hc', by omega⟩
  | resume objs userTs c' r hstate hq =>
    have := hroom objs userTs rfl (by cases r <;> simp [Queued.after])
    obtain ⟨l', hc', hl'⟩ := queueCmds_contents hc (by omega) hq
    exact ⟨l', hc', by omega⟩
  | _ => exact ⟨l, hc, hl⟩

/-- One step of a run in which woken threads find room. -/
theorem RingInv.step (h : RingInv w) (hs : Step Calls w w') (hroom : FindsRoom w w') :
    RingInv w' := by
  obtain ⟨hpos, hlt, l, hc, hl⟩ := h
  have hqueued : w.ctx.queued = l.length := hc.queued_eq
  cases hs with
  | store val size hst =>
    obtain ⟨hpos', hlt'⟩ := storeContextDrawqueueSize_some hst
    exact ⟨hpos', hlt', l, hc, hl⟩
  | call | handOver | signalHeld | complete => exact ⟨hpos, hlt, l, hc, hl⟩
  | thread k ctx t t' ht hcall =>
    obtain ⟨l', hc', hl'⟩ := hcall.contents hlt (poppedCount_le _) hc hl
      (fun objs userTs hw hne => hroom k objs userTs (ht.trans hw)
        (by simpa [World.setThread, ht] using hne))
    exact ⟨hpos, hlt, l', hc', hl'⟩
  | signalQueued j x e hj hx hsync he =>
    rw [hc.slots_eq] at hj
    have hx' : l[j] = x := Option.some.inj ((hc.slot hj).symm.trans hx)
    refine ⟨hpos, hlt, _, hc.setSlot hj (y := x.expire e) (by rw [hx']; rfl), ?_⟩
    rwa [List.length_set]
  | bound j x hj hx hb hstart hdone =>
    rw [hc.slots_eq] at hj
    have hx' : l[j] = x := Option.some.inj ((hc.slot hj).symm.trans hx)
    refine ⟨hpos, hlt, _, hc.setSlot hj (y := { x with done := true }) (by rw [hx']), ?_⟩
    rwa [List.length_set]
  | retire ctx r hp hr =>
    obtain ⟨l', hc', hl', -⟩ := processDrawqueue_contents hc hr
    exact ⟨hpos, hlt, l', hc', by dsimp only; omega⟩
  | takeNone ctx r hp hr =>
    obtain ⟨l', hc', hl', -⟩ := takeDrawobj_contents hc hr
    exact ⟨hpos, hlt, l', hc', by dsimp only; omega⟩
  | take ctx x hp hr =>
    obtain ⟨l', hc', hl', hx⟩ := takeDrawobj_contents hc hr
    have := hx x rfl
    exact ⟨hpos, hlt, l', hc', by simp only [poppedCount_some]; omega⟩
  | send x hp => exact ⟨hpos, hlt, l, hc, by simp only [poppedCount_none]; omega⟩
  | sendFailed x hp =>
    rw [hp, poppedCount_some] at hl
    refine ⟨hpos, hlt, _, hc.requeue (x := x) hl, ?_⟩
    rw [poppedCount_none]
    split
    · omega
    · exact hl
  | written x l' hf => exact ⟨hpos, hlt, l, hc, hl⟩

theorem RingInv.sound (h : RingInv w) : RingSound w := by
  obtain ⟨-, -, l, hc, hl⟩ := h
  have hqueued : w.ctx.queued = l.length := hc.queued_eq
  have hfifo : w.ctx.fifo = l.map (·.id) := hc.fifo_eq
  refine ⟨by rw [hqueued, hc.slots_eq], by rwa [hqueued], by simp [hfifo, hqueued], ?_⟩
  intro j hj
  have hjl : j < l.length := by simpa [hfifo] using hj
  rw [DrawCtxt.slotAt, hc.slot hjl]
  simp [hfifo]

theorem RingInv.init {val size : ℕ} (h : storeContextDrawqueueSize val = some size)
    (userGeneratedTs ifhNop : Bool) : RingInv (World.init size userGeneratedTs ifhNop) := by
  obtain ⟨hpos, hlt⟩ := storeContextDrawqueueSize_some h
  exact ⟨hpos, hlt, [], DrawCtxt.create_contents _ _, Nat.succ_pos 127⟩

/-- A run in which every woken thread that goes on finds room. -/
abbrev RoomyRun (Calls : DrawCtxt → List DrawObj → Prop) : World → World → Prop :=
  Relation.ReflTransGen fun w w' => Step Calls w w' ∧ FindsRoom w w'

theorem RoomyRun.run (h : RoomyRun Calls w w') : Relation.ReflTransGen (Step Calls) w w' :=
  Relation.ReflTransGen.mono (fun _ _ hs => hs.1) _ _ h

theorem RingInv.run (h : RingInv w) (hrun : RoomyRun Calls w w') : RingInv w' := by
  induction hrun with
  | refl => exact h
  | tail _ hs ih => exact ih.step hs.1 hs.2

/-- **The ring never overflows**, if every woken thread that goes on finds room. -/
theorem ring_sound {val size : ℕ} (hsize : storeContextDrawqueueSize val = some size)
    {userGeneratedTs ifhNop : Bool}
    (hrun : RoomyRun Calls (World.init size userGeneratedTs ifhNop) w) : RingSound w :=
  ((RingInv.init hsize userGeneratedTs ifhNop).run hrun).sound

/-- A woken thread that queues all its objects without room overflows the ring. -/
theorem resume_overflows {k userTs : ℕ} {objs : List DrawObj} {ctx : DrawCtxt} {t : Thread}
    (hq : queueObjs w.ctx userTs objs = (ctx, .queued))
    (hroom : ¬ w.ctx.queued + poppedCount w.popped + objs.length < contextDrawqueueSize) :
    ¬ RingSound ({ w with ctx := ctx }.setThread k t) := by
  intro hsound
  have hbelow := hsound.below
  simp only [World.setThread, queueObjs_queued hq] at hbelow
  omega

/-! ## Threads that are woken together -/

/-- A command as `kgsl_ioctl_gpu_command` submits it. -/
def command (id : ℕ) : DrawObj := DrawObj.create id .cmd false []

/-- The ioctl is called with one command. -/
def OneCommand (_ : DrawCtxt) (objs : List DrawObj) : Prop := ∃ id, objs = [command id]

/-- A context that is in order and has `n` commands queued. -/
structure Filled (n : ℕ) (c : DrawCtxt) : Prop where
  state : c.checkState = none
  ownTs : c.userGeneratedTs = false
  contents : ∃ l, Contents c l ∧ l.length = n ∧ ∀ x ∈ l, x.type = .cmd

theorem setSkip_of_cmd {l : List DrawObj} (h : ∀ x ∈ l, x.type = .cmd) :
    l.map DrawObj.setSkip = l := by
  refine (List.map_congr_left fun x hx => ?_).trans (List.map_id l)
  rw [DrawObj.setSkip, if_neg (by rw [h x hx]; decide), id]

/-- A command is queued behind the others. -/
theorem Filled.queueCmds {n : ℕ} {c : DrawCtxt} (h : Filled n c) (hn : n + 1 < 128) (id : ℕ) :
    ∃ c', queueCmds c [command id] 0 = (c', .queued) ∧ Filled (n + 1) c' := by
  obtain ⟨hstate, hown, l, hc, rfl, hl⟩ := h
  have hts : getTimestamp c 0 = .ok { c with timestamp := c.timestamp + 1 } := by
    rw [getTimestamp, hown]
    rfl
  have hcalls : Dispatch.queueCmds c [command id] 0 = queueObjs c 0 [command id] :=
    if_neg fun hcmp => by simp [comparesUserTs, hown] at hcmp
  rw [hcalls, queueObjs]
  rcases hq : queueObj c (command id) 0 with ⟨c', r⟩
  cases queueObj_spec hq with
  | refused e he =>
    rw [hts] at he
    cases he
  | untimed ht => rcases ht with ht | ht <;> cases ht
  | bind c₁ ht | retired c₁ ht | marker c₁ ht => cases ht
  | cmd c₁ ht hts' eof skip =>
    obtain rfl := Except.ok.inj (hts.symm.trans hts')
    obtain ⟨d, hd⟩ := setSkips_eq (DrawCtxt.slots { c with timestamp := c.timestamp + 1 })
      { c with timestamp := c.timestamp + 1 } c.head
    have hs := setSkips_contents (c := { c with timestamp := c.timestamp + 1 }) (l := l) hc
    rw [setSkip_of_cmd hl] at hs
    refine ⟨_, rfl, ?_, ?_, _, Contents.queue (l := l) hs hn, by simp, ?_⟩
    · rw [hd]
      exact hstate
    · rw [hd]
      exact hown
    · intro x hx
      rcases List.mem_append.1 hx with hx | hx
      · exact hl x hx
      · rw [List.mem_singleton.1 hx]
        rfl

/-- The first command is taken. -/
theorem Filled.take {n : ℕ} {c : DrawCtxt} (h : Filled (n + 1) c) :
    ∃ c' x, takeDrawobj c = (c', .obj x) ∧ Filled n c' := by
  obtain ⟨hstate, hown, l, hc, hn, hl⟩ := h
  obtain ⟨x, l, rfl⟩ := List.exists_cons_of_length_eq_add_one hn
  have hproc : processDrawqueueGetNextDrawobj c = (c, .obj x) := by
    rw [processDrawqueueGetNextDrawobj, hc.slots_eq, List.length_cons, processFrom,
      hc.slot_head]
    simp only [retireObj, hl x List.mem_cons_self]
  exact ⟨popDrawobj c, x, by rw [takeDrawobj, hproc], hstate, hown, l, hc.pop,
    by simpa using hn, fun y hy => hl y (List.mem_cons_of_mem _ hy)⟩

@[simp] theorem World.setThread_self (w : World) (k : ℕ) (t : Thread) :
    (w.setThread k t).thread k = t := Function.update_self ..

theorem World.setThread_ne (w : World) {j k : ℕ} (t : Thread) (h : j ≠ k) :
    (w.setThread k t).thread j = w.thread j := Function.update_of_ne h ..

@[simp] theorem World.setThread_setThread (w : World) (k : ℕ) (t t' : Thread) :
    (w.setThread k t).setThread k t' = w.setThread k t' := by
  simp [World.setThread]

theorem World.setThread_eq_self {k : ℕ} {t : Thread} (h : w.thread k = t) :
    w.setThread k t = w := by
  rw [World.setThread, ← h, Function.update_eq_self]

/-- No thread is woken. -/
def NoneWoken (w : World) : Prop := ∀ k objs userTs, w.thread k ≠ .woken objs userTs

theorem NoneWoken.findsRoom (h : NoneWoken w) : FindsRoom w w' :=
  fun k objs userTs hk => absurd hk (h k objs userTs)

theorem NoneWoken.setThread (h : NoneWoken w) {k : ℕ} {t : Thread}
    (ht : ∀ objs userTs, t ≠ .woken objs userTs) : NoneWoken (w.setThread k t) := by
  intro j objs userTs
  by_cases hjk : j = k
  · rw [hjk, World.setThread_self]
    exact ht objs userTs
  · rw [World.setThread_ne w t hjk]
    exact h j objs userTs

/-- A thread that submits one command, up to where it is to take the lock. -/
theorem run_admitted (k id : ℕ) (hidle : w.thread k = .idle) (hsize : 2 ≤ w.size)
    (hstate : w.ctx.checkState = none) (hnw : NoneWoken w) :
    RoomyRun OneCommand w (w.setThread k (.admitted [command id] 0)) := by
  have hcall : Step OneCommand w (w.setThread k (.called [command id] 0)) :=
    .call k [command id] 0 hidle ⟨id, rfl⟩
  have hcount : [command id].length ≤ w.size - 1 := by
    rw [List.length_singleton]
    omega
  have hadm : Step OneCommand (w.setThread k (.called [command id] 0))
      ((w.setThread k (.called [command id] 0)).setThread k (.admitted [command id] 0)) :=
    .thread k w.ctx _ _ (w.setThread_self k _)
      (.allow [command id] 0 (List.cons_ne_nil _ _) hcount hstate)
  have hnw' := hnw.setThread (k := k) (t := .called [command id] 0) (fun _ _ h => by cases h)
  refine .tail (.single ⟨hcall, hnw.findsRoom⟩) ⟨?_, hnw'.findsRoom⟩
  rwa [World.setThread_setThread] at hadm

/-- A new world with other contents of its context. -/
def World.filled (c : DrawCtxt) : World := { World.init 127 false false with ctx := c }

theorem World.filled_noneWoken (c : DrawCtxt) : NoneWoken (World.filled c) :=
  fun _ _ _ h => by cases h

theorem Filled.queued_eq {n : ℕ} {c : DrawCtxt} (h : Filled n c) : c.queued = n := by
  obtain ⟨l, hl, hn, -⟩ := h.contents
  exact hl.queued_eq.trans hn

/-- Up to 126 commands are queued, one call after the other. -/
theorem fill : ∀ n ≤ 126, ∃ c, Filled n c ∧
    RoomyRun OneCommand (World.init 127 false false) (World.filled c) := by
  intro n
  induction n with
  | zero =>
    intro _
    exact ⟨_, ⟨rfl, rfl, [], DrawCtxt.create_contents _ _, rfl, by simp⟩, .refl⟩
  | succ n ih =>
    intro hn
    obtain ⟨c, hc, hrun⟩ := ih (by omega)
    obtain ⟨c', hq, hc'⟩ := hc.queueCmds (by omega) n
    have hnw := World.filled_noneWoken c
    have hadm := run_admitted 0 n rfl (Nat.le_add_left 2 125) hc.state hnw
    have hfits : c.queued + [command n].length ≤ 127 - 1 := by
      rw [hc.queued_eq, List.length_singleton]
      omega
    have hins : Step OneCommand ((World.filled c).setThread 0 (.admitted [command n] 0))
        ((World.filled c').setThread 0 .handing) := by
      rw [← World.setThread_setThread (World.filled c') 0 (.admitted [command n] 0) .handing]
      exact .thread 0 c' _ _ (World.setThread_self _ _ _)
        (.insert [command n] 0 c' .queued hc.state hfits hq)
    have hover : Step OneCommand ((World.filled c').setThread 0 .handing) (World.filled c') := by
      have hstep : Step OneCommand ((World.filled c').setThread 0 .handing)
          (((World.filled c').setThread 0 .handing).setThread 0 .idle) :=
        .handOver 0 (World.setThread_self _ _ _)
      rwa [World.setThread_setThread,
        World.setThread_eq_self (w := World.filled c') (t := .idle) rfl] at hstep
    refine ⟨c', hc', ((hrun.trans hadm).tail ⟨hins, ?_⟩).tail ⟨hover, ?_⟩⟩
    · exact (hnw.setThread fun _ _ h => by cases h).findsRoom
    · exact ((World.filled_noneWoken c').setThread fun _ _ h => by cases h).findsRoom

/-- A full ring is sound, also with the last slot in use. -/
theorem ring_sound_full : ∃ w, RingSound w ∧ w.ctx.queued = 126 := by
  obtain ⟨c, hc, hrun⟩ := fill 126 le_rfl
  have hsize : storeContextDrawqueueSize 127 = some 127 := rfl
  exact ⟨_, ring_sound hsize hrun, hc.queued_eq⟩

/-- A thread with one command finds no room and sleeps. -/
theorem run_sleeping (k id : ℕ) (hidle : w.thread k = .idle) (hsize : w.size = 127)
    (hc : Filled 126 w.ctx) (hnw : NoneWoken w) :
    Relation.ReflTransGen (Step OneCommand) w (w.setThread k (.sleeping [command id] 0)) := by
  have hadm := run_admitted k id hidle (by omega) hc.state hnw
  have hfull : w.size - 1 < w.ctx.queued + [command id].length := by
    rw [hc.queued_eq, List.length_singleton]
    omega
  refine .tail (hadm.run) ?_
  rw [← World.setThread_setThread w k (.admitted [command id] 0) (.sleeping [command id] 0)]
  exact .thread k w.ctx _ _ (World.setThread_self _ _ _) (.sleep _ _ hc.state hfull)

/-- **Two threads woken for one free slot overflow the ring.**  The queue is as large as the
    attribute allows and full, and the dispatcher has popped one command. -/
theorem ring_overflows : storeContextDrawqueueSize 127 = some 127 ∧
    ∃ w, Relation.ReflTransGen (Step OneCommand) (World.init 127 false false) w ∧
      ¬ RingSound w := by
  refine ⟨rfl, ?_⟩
  obtain ⟨c, hc, hrun⟩ := fill 126 le_rfl
  obtain ⟨c₁, x, htake, hc₁⟩ := hc.take
  obtain ⟨c₂, hq₂, hc₂⟩ := hc₁.queueCmds (by omega) 127
  obtain ⟨c₃, hq₃, hc₃⟩ := hc₂.queueCmds (by omega) 128
  have hnw := World.filled_noneWoken c
  have hs₁ := run_sleeping 1 127 (w := World.filled c) rfl rfl hc hnw
  have hs₂ := run_sleeping 2 128
    (w := (World.filled c).setThread 1 (.sleeping [command 127] 0)) rfl rfl hc
    (hnw.setThread fun _ _ h => by cases h)
  set w := ((World.filled c).setThread 1 (.sleeping [command 127] 0)).setThread 2
    (.sleeping [command 128] 0) with hw
  have hfree : ∀ id, checkContextQueue c₁ 127 [command id].length := by
    intro id
    simp [checkContextQueue, hc₁.queued_eq]
  -- the dispatcher pops a command, and both threads see the one slot that it leaves
  set w₁ : World := { w with ctx := c₁, popped := some x } with hw₁
  have hpop : Step OneCommand w w₁ := .take c₁ x rfl htake
  set w₂ := w₁.setThread 1 (.woken [command 127] 0)
  have hwake₁ : Step OneCommand w₁ w₂ := .thread 1 c₁ _ _ rfl (.wake _ 0 (hfree 127))
  set w₃ := w₂.setThread 2 (.woken [command 128] 0)
  have hwake₂ : Step OneCommand w₂ w₃ := .thread 2 c₁ _ _ rfl (.wake _ 0 (hfree 128))
  set w₄ := { w₃ with ctx := c₂ }.setThread 1 .handing
  have hres₁ : Step OneCommand w₃ w₄ := .thread 1 c₂ _ _ rfl (.resume _ 0 c₂ _ hc₁.state hq₂)
  set w₅ := { w₄ with ctx := c₃ }.setThread 2 .handing
  have hres₂ : Step OneCommand w₄ w₅ := .thread 2 c₃ _ _ rfl (.resume _ 0 c₃ _ hc₂.state hq₃)
  refine ⟨w₅, ((((((hrun.run.trans hs₁).trans hs₂).tail hpop).tail hwake₁).tail hwake₂).tail
    hres₁).tail hres₂, fun hsound => ?_⟩
  have hbelow : c₃.queued + 1 < contextDrawqueueSize := hsound.below
  rw [hc₃.queued_eq] at hbelow
  exact absurd hbelow (by decide)

end Sm8850.Kgsl.Dispatch
