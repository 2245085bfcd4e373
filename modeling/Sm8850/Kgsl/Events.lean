/-
  Events of a group: `kgsl_events.c`.

  An event waits on the list of its group for a timestamp of the GPU.  Whoever takes it off
  the list gives it a result and queues it to the worker, which calls its function.

  * `Event`, `Group`: an event, and a group with the calls that are under way in it;
  * `signalEach`: the loop over the list that all the callers share, and `Group.signal` what
    it does to the group;
  * `Group.step`: one section of a call, one move of the worker, or one move of the retired
    timestamp, and `Group.run` any number of them in any order.

  Timestamps are kept without their wraparound; the code sees the words.  `since`, `readAt`,
  `caller`, `added` and `id` are of no effect: they say what happened.
-/
import Sm8850.Kgsl.Drawqueue

namespace Sm8850.Kgsl.Events

open Dispatch (timestampCmp timestampWindow)

/-! ## Data -/

/-- `KGSL_EVENT_RETIRED` and `KGSL_EVENT_CANCELLED`. -/
inductive Result where
  | retired | cancelled

/-- `struct kgsl_event`; `since` is the retired timestamp when it was added. -/
structure Event where
  id : ℕ
  timestamp : ℕ
  func : ℕ
  priv : ℕ
  since : ℕ

/-- Who queues an event to the worker. -/
inductive Caller where
  | addEvent | processEventGroup | flushEventGroup
  | cancelEventsTimestamp | cancelEvents | cancelEvent

/-- The caller is a cancel or a flush. -/
def Caller.Cancels : Caller → Prop
  | .addEvent | .processEventGroup => False
  | .flushEventGroup | .cancelEventsTimestamp | .cancelEvents | .cancelEvent => True

/-- An event queued to the worker, and the retired timestamp at that moment. -/
structure Signal where
  event : Event
  result : Result
  caller : Caller
  readAt : ℕ

/-- A call of `_process_event_group` that has its reference, before or after the lock. -/
structure Process where
  flush : Bool
  done : Bool

/-- `struct kgsl_event_group` and its context, with the calls under way.  `others` counts
    the references to the context that are not of events or of these calls. -/
structure Group where
  hasContext : Bool
  userGeneratedTs : Bool
  refcount : ℕ
  others : ℕ
  retired : ℕ
  processed : ℕ
  events : List Event
  /-- in `kgsl_add_event`, before the lock -/
  adding : List Event
  processing : List Process
  work : List Signal
  /-- the worker is about to put the reference of its event -/
  working : Bool
  /-- those whose function was called -/
  ran : List Signal
  added : List ℕ
  next : ℕ

/-! ## Helpers -/

/-- `_kgsl_context_get`, where the group has a context. -/
def Group.contextGet (g : Group) : Option Group :=
  if g.hasContext then
    if g.refcount = 0 then none else some { g with refcount := g.refcount + 1 }
  else some g

/-- `kgsl_context_put`. -/
def Group.contextPut (g : Group) : Group :=
  if g.hasContext then { g with refcount := g.refcount - 1 } else g

/-- `_do_process_group`: whether the group needs to be processed. -/
def doProcessGroup (processed cur : ℕ) : Bool :=
  let processed := processed % 2 ^ 32
  let cur := cur % 2 ^ 32
  if processed = cur then false
  -- the timestamp slipped back
  else if cur < processed ∧ processed - cur < timestampWindow then false
  else true

/-- A loop over the list that signals the events of which `verdict` says so: the events left
    on the list, and those signaled, in order. -/
def signalEach (verdict : Event → Option Result) : List Event → List Event × List (Event × Result)
  | [] => ([], [])
  | e :: es =>
    let (kept, signaled) := signalEach verdict es
    match verdict e with
    | none => (e :: kept, signaled)
    | some r => (kept, (e, r) :: signaled)

/-- The loop on the list of the group, with `signal_event` for the events signaled. -/
def Group.signal (g : Group) (caller : Caller) (verdict : Event → Option Result) : Group :=
  let (kept, signaled) := signalEach verdict g.events
  { g with
    events := kept
    work := g.work ++ signaled.map fun (e, r) => ⟨e, r, caller, g.retired⟩ }

/-! ## Sections -/

/-- `kgsl_add_event` up to the lock; `queued` is what it reads of the queued timestamp, and
    `alloc` whether there is memory. -/
def Group.addEvent (g : Group) (func : Option ℕ) (timestamp priv queued : ℕ) (alloc : Bool) :
    Group :=
  match func with
  | none => g
  | some func =>
    if (!g.hasContext || !g.userGeneratedTs) ∧ 0 < timestampCmp timestamp queued then g
    else if alloc = false then g
    else match g.contextGet with
      | none => g
      | some g =>
        { g with adding := g.adding ++ [⟨g.next, timestamp, func, priv, 0⟩], next := g.next + 1 }

/-- The section of `kgsl_add_event` under the lock, for the call at that place. -/
def Group.addEventLocked (g : Group) (i : ℕ) : Option Group :=
  match g.adding[i]? with
  | none => none
  | some e =>
    let e := { e with since := g.retired }
    let g := { g with adding := g.adding.eraseIdx i, added := g.added ++ [e.id] }
    if 0 ≤ timestampCmp g.retired e.timestamp then
      some { g with work := g.work ++ [⟨e, .retired, .addEvent, g.retired⟩] }
    else some { g with events := g.events ++ [e] }

/-- `_process_event_group` up to the lock. -/
def Group.processEventGroup (g : Group) (flush : Bool) : Group :=
  match g.contextGet with
  | none => g
  | some g => { g with processing := g.processing ++ [⟨flush, false⟩] }

/-- What `_process_event_group` does with an event. -/
def verdict (flush : Bool) (timestamp : ℕ) (e : Event) : Option Result :=
  if timestampCmp e.timestamp timestamp ≤ 0 then some .retired
  else if flush then some .cancelled
  else none

/-- The section of `_process_event_group` under the lock. -/
def Group.processLocked (g : Group) (flush : Bool) : Group :=
  if !flush && !doProcessGroup g.processed g.retired then g
  else
    { g.signal (if flush then .flushEventGroup else .processEventGroup) (verdict flush g.retired)
      with processed := g.retired }

/-- `kgsl_cancel_events_timestamp`. -/
def Group.cancelEventsTimestamp (g : Group) (timestamp : ℕ) : Group :=
  g.signal .cancelEventsTimestamp fun e =>
    if timestampCmp timestamp e.timestamp = 0 then some .cancelled else none

/-- `kgsl_cancel_events`. -/
def Group.cancelEvents (g : Group) : Group :=
  g.signal .cancelEvents fun _ => some .cancelled

/-- `kgsl_cancel_event`. -/
def Group.cancelEvent (g : Group) (timestamp func priv : ℕ) : Group :=
  g.signal .cancelEvent fun e =>
    if timestamp % 2 ^ 32 = e.timestamp % 2 ^ 32 ∧ func = e.func ∧ priv = e.priv then
      some .cancelled
    else none

/-! ## Runs -/

/-- What happens next. -/
inductive Act where
  | addEvent (func : Option ℕ) (timestamp priv queued : ℕ) (alloc : Bool)
  | addEventLocked (i : ℕ)
  | processEventGroup (flush : Bool)
  | processLocked (i : ℕ)
  | processReturn (i : ℕ)
  | cancelEventsTimestamp (timestamp : ℕ)
  | cancelEvents
  | cancelEvent (timestamp func priv : ℕ)
  /-- `_kgsl_event_worker` up to the call of the function, and after it -/
  | worker
  | workerReturn
  /-- a reference of somebody else -/
  | get
  | put
  /-- the GPU retires so many timestamps -/
  | retire (n : ℕ)

/-- One act; `none` if it cannot happen.  While an event is on the list the timestamp
    advances by less than half the range. -/
def Group.step (g : Group) : Act → Option Group
  | .addEvent func timestamp priv queued alloc =>
    some (g.addEvent func timestamp priv queued alloc)
  | .addEventLocked i => g.addEventLocked i
  | .processEventGroup flush => some (g.processEventGroup flush)
  | .processLocked i => match g.processing[i]? with
    | some ⟨flush, false⟩ =>
      some { g.processLocked flush with processing := g.processing.set i ⟨flush, true⟩ }
    | _ => none
  | .processReturn i => match g.processing[i]? with
    | some ⟨_, true⟩ => some { g.contextPut with processing := g.processing.eraseIdx i }
    | _ => none
  | .cancelEventsTimestamp timestamp => some (g.cancelEventsTimestamp timestamp)
  | .cancelEvents => some g.cancelEvents
  | .cancelEvent timestamp func priv => some (g.cancelEvent timestamp func priv)
  | .worker => match g.work with
    | [] => none
    | s :: work =>
      if g.working then none
      else some { g with work, working := true, ran := g.ran ++ [s] }
  | .workerReturn => if g.working then some { g.contextPut with working := false } else none
  | .get => g.contextGet.map fun g => { g with others := g.others + 1 }
  | .put => if g.others = 0 then none else some { g.contextPut with others := g.others - 1 }
  | .retire n =>
    if ∀ e ∈ g.events, g.retired + n < e.since + timestampWindow then
      some { g with retired := g.retired + n }
    else none

/-- A run of acts. -/
def Group.run (g : Group) : List Act → Option Group
  | [] => some g
  | a :: as => (g.step a).bind (·.run as)

/-- As `kgsl_add_event_group` leaves a group, while the context has so many references. -/
def Group.init (hasContext userGeneratedTs : Bool) (others : ℕ) : Group where
  hasContext := hasContext
  userGeneratedTs := userGeneratedTs
  refcount := others
  others := others
  retired := 0
  processed := 0
  events := []
  adding := []
  processing := []
  work := []
  working := false
  ran := []
  added := []
  next := 0

/-! ## What a section does -/

variable {g g' : Group} {e : Event} {es : List Event} {f : Event → Option Result}
  {caller : Caller} {since ts R P : ℕ}

/-- The events are those left and those signaled. -/
theorem signalEach_cons (f : Event → Option Result) (e : Event) (es : List Event) :
    signalEach f (e :: es) =
      match f e with
      | none => (e :: (signalEach f es).1, (signalEach f es).2)
      | some r => ((signalEach f es).1, (e, r) :: (signalEach f es).2) := rfl

theorem signalEach_perm (f : Event → Option Result) (es : List Event) :
    ((signalEach f es).1 ++ (signalEach f es).2.map Prod.fst).Perm es := by
  induction es with
  | nil => exact .refl _
  | cons e es ih =>
    rw [signalEach_cons]
    cases f e with
    | none => exact ih.cons e
    | some r => exact List.perm_middle.trans (ih.cons e)

@[simp] theorem mem_signalEach_fst : e ∈ (signalEach f es).1 ↔ e ∈ es ∧ f e = none := by
  induction es with
  | nil => simp [signalEach]
  | cons x es ih =>
    rw [signalEach_cons]
    cases hx : f x with
    | none =>
      simp only [List.mem_cons, ih]
      constructor
      · rintro (rfl | h)
        · exact ⟨.inl rfl, hx⟩
        · exact ⟨.inr h.1, h.2⟩
      · rintro ⟨rfl | h, he⟩
        · exact .inl rfl
        · exact .inr ⟨h, he⟩
    | some r =>
      simp only [List.mem_cons, ih]
      constructor
      · exact fun h => ⟨.inr h.1, h.2⟩
      · rintro ⟨rfl | h, he⟩
        · rw [hx] at he
          cases he
        · exact ⟨h, he⟩

theorem mem_signalEach_snd {r : Result} (h : (e, r) ∈ (signalEach f es).2) :
    e ∈ es ∧ f e = some r := by
  induction es with
  | nil => cases h
  | cons x es ih =>
    rw [signalEach_cons] at h
    cases hx : f x with
    | none =>
      rw [hx] at h
      exact ⟨List.mem_cons_of_mem _ (ih h).1, (ih h).2⟩
    | some r' =>
      rw [hx] at h
      rcases List.mem_cons.mp h with heq | h
      · cases heq
        exact ⟨List.mem_cons_self, hx⟩
      · exact ⟨List.mem_cons_of_mem _ (ih h).1, (ih h).2⟩

/-! ## Timestamps -/

/-- The retired timestamp, followed from `since` on, has reached `ts`: it was not older
    than that to begin with, or it came by. -/
def Reached (since ts retired : ℕ) : Prop :=
  0 ≤ timestampCmp since ts ∨ ∃ t, since < t ∧ t ≤ retired ∧ t % 2 ^ 32 = ts % 2 ^ 32

/-- The comparison finds out, while the timestamp moves less than half the range. -/
theorem timestampCmp_iff_reached (hnot : timestampCmp since ts < 0) (hle : since ≤ R)
    (hnear : R < since + timestampWindow) : timestampCmp ts R ≤ 0 ↔ Reached since ts R := by
  -- the first timestamp after `since` that has the word
  obtain ⟨t, h₁, h₂, ht⟩ : ∃ t, since < t ∧ t ≤ since + timestampWindow ∧
      t % 2 ^ 32 = ts % 2 ^ 32 := by
    refine ⟨since + (ts % 2 ^ 32 + 2 ^ 32 - since % 2 ^ 32) % 2 ^ 32, ?_⟩
    revert hnot
    unfold timestampCmp timestampWindow
    dsimp only
    split_ifs <;> omega
  have hfirst : Reached since ts R ↔ t ≤ R := by
    constructor
    · rintro (h | ⟨u, hu₁, hu₂, hu⟩)
      · omega
      · unfold timestampWindow at *
        omega
    · exact fun h => .inr ⟨t, h₁, h, ht⟩
  rw [hfirst]
  revert hnot
  unfold timestampCmp timestampWindow at *
  dsimp only
  split_ifs <;> omega

/-- The group is skipped within half the range only if nothing was retired since. -/
theorem eq_of_doProcessGroup (h : doProcessGroup P R = false) (hle : P ≤ R)
    (hnear : R ≤ P + timestampWindow) : P = R := by
  revert h
  unfold doProcessGroup timestampWindow at *
  dsimp only
  split_ifs <;> intro h <;> first | omega | cases h

end Sm8850.Kgsl.Events
