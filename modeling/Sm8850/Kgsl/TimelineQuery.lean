/-
  Queries of a timeline, and the timelineobjs that signal it (`kgsl_drawobj.c`).

  * `System` is a timeline with its timelineobjs, the timestamp that each context has
    retired, and the results of the queries so far.
  * A timelineobj adds its events when the scheduler is done with it, and signals the
    timeline when the timestamp has retired too, each event in a section of its own.
  * `SystemInv`: the list is sorted and ahead of the value, and none of its events has been
    signaled by its timelineobj.
  * **`timeline_queries_increase`**: so the results of the queries never decrease, as long as
    no context runs half the circle of timestamps ahead of an event on the list.
-/
import Sm8850.Kgsl.Drawqueue
import Sm8850.Kgsl.TimelineRuns

namespace Sm8850.Kgsl.Timelines

open Dispatch (timestampCmp timestampWindow)

/-! ## State -/

/-- What a timelineobj is at. -/
inductive Phase
  /-- It is on the queue of its context. -/
  | queued
  /-- `timelineobj_destroy` is to add the events of `rest`. -/
  | adding (rest : List Event)
  /-- The events are added, and the timestamp has not retired. -/
  | waiting
  /-- `_drawobj_timelineobj_retire` is to signal the events of `rest`. -/
  | retiring (rest : List Event)
  /-- The events are freed. -/
  | freed
  deriving DecidableEq

/-- `struct kgsl_drawobj_timeline`, with its events of this timeline.  The callback is that
    of the event which `kgsl_drawobj_add_timeline` registered, while it is to come. -/
structure TimelineObj where
  timelines : List Event
  sigRefcount : ℕ
  callback : Bool
  phase : Phase

/-- A timeline, its timelineobjs, and the contexts. -/
structure System where
  timeline : Timeline
  obj : ℕ → Option TimelineObj
  retired : ℕ → ℕ
  results : List ℕ

/-- A system with a new timeline. -/
def System.create (devPriv initial : ℕ) (retired : ℕ → ℕ) : System where
  timeline := .create devPriv initial
  obj _ := none
  retired := retired
  results := []

def System.setObj (s : System) (d : ℕ) (o : TimelineObj) : System :=
  { s with obj := Function.update s.obj d (some o) }

/-! ## Functions -/

/-- `kgsl_check_timestamp`, where the context has retired `tsProcessed`. -/
def kgslCheckTimestamp (tsProcessed timestamp : ℕ) : Bool :=
  decide (0 ≤ timestampCmp tsProcessed timestamp)

/-- `kgsl_ioctl_timeline_query` under the lock of the timeline. -/
def kgslIoctlTimelineQuery (retired : ℕ → ℕ) (t : Timeline) : ℕ :=
  match t.events.reverse.find? fun e => kgslCheckTimestamp (retired e.context) e.timestamp with
  | some e => e.seqno
  | none => t.value

/-- `kgsl_drawobj_add_timeline`, with `queued` the last timestamp queued on the context. -/
def kgslDrawobjAddTimeline (d context queued : ℕ) (seqnos : List ℕ) : TimelineObj where
  timelines := seqnos.map fun seqno => ⟨seqno, d, context, queued⟩
  sigRefcount := 2
  callback := true
  phase := .queued

/-- `kgsl_timelineobj_signal`, which ends in `_drawobj_timelineobj_retire`. -/
def kgslTimelineobjSignal (o : TimelineObj) : TimelineObj :=
  if o.sigRefcount = 1 then { o with sigRefcount := 0, phase := .retiring o.timelines }
  else { o with sigRefcount := o.sigRefcount - 1 }

/-! ## Steps -/

/-- What can happen next. -/
inductive SystemAct
  | other (a : Act)
  | addTimeline (d context queued : ℕ) (seqnos : List ℕ)
  | destroy (d : ℕ)
  | addSignal (d : ℕ)
  | destroySignal (d : ℕ)
  | timelineSignaled (d : ℕ)
  | retireSignal (d : ℕ)
  | retireFree (d : ℕ)
  | advance (context ts : ℕ)
  | query (h : ℕ)

/-- One step; `none` where it cannot be taken.  A context retires a timestamp that is not
    before the last in serial order. -/
def systemStep (s : System) : SystemAct → Option System
  | .other (.addSignal _ _) => none
  | .other a => (step s.timeline a).map fun t => { s with timeline := t }
  | .addTimeline d context queued seqnos =>
    if s.timeline.published ∧ s.timeline.ref ≠ 0 ∧ s.obj d = none then
      let t := { s.timeline with ref := s.timeline.ref + seqnos.length }
      some ({ s with timeline := t }.setObj d (kgslDrawobjAddTimeline d context queued seqnos))
    else none
  | .destroy d => do
    let o ← s.obj d
    if o.phase = .queued then return s.setObj d { o with phase := .adding o.timelines } else none
  | .addSignal d => do
    let o ← s.obj d
    match o.phase with
    | .adding (e :: rest) =>
      return { s with timeline := kgslTimelineAddSignal s.timeline e }.setObj d
        { o with phase := .adding rest }
    | _ => none
  | .destroySignal d => do
    let o ← s.obj d
    if o.phase = .adding [] then
      return s.setObj d (kgslTimelineobjSignal { o with phase := .waiting })
    else none
  | .timelineSignaled d => do
    let o ← s.obj d
    if o.callback then return s.setObj d (kgslTimelineobjSignal { o with callback := false })
    else none
  | .retireSignal d => do
    let o ← s.obj d
    match o.phase with
    | .retiring (e :: rest) =>
      let t := kgslTimelineSignal s.timeline e.seqno
      return { s with timeline := { t with ref := t.ref - 1 } }.setObj d
        { o with phase := .retiring rest }
    | _ => none
  | .retireFree d => do
    let o ← s.obj d
    if o.phase = .retiring [] then return s.setObj d { o with phase := .freed } else none
  | .advance context ts =>
    if 0 ≤ timestampCmp ts (s.retired context) then
      some { s with retired := Function.update s.retired context ts }
    else none
  | .query h =>
    if s.timeline.holder h = .holding then
      some { s with results := s.results ++ [kgslIoctlTimelineQuery s.retired s.timeline] }
    else none

/-- How far `b` is ahead of `a` on the circle of timestamps. -/
def aheadOf (a b : ℕ) : ℕ := (b % 2 ^ 32 + 2 ^ 32 - a % 2 ^ 32) % 2 ^ 32

/-- No context runs half the circle ahead of an event that has retired and is on the list. -/
def keepsUp (s : System) : SystemAct → Prop
  | .advance context ts => ∀ e ∈ s.timeline.events, e.context = context →
      kgslCheckTimestamp (s.retired context) e.timestamp →
      aheadOf e.timestamp (s.retired context) + aheadOf (s.retired context) ts < timestampWindow
  | _ => True

/-- The runs from `s₀` all of whose steps are `allowed`. -/
inductive SystemRun (allowed : System → SystemAct → Prop) (s₀ : System) : System → Prop
  | refl : SystemRun allowed s₀ s₀
  | step {s s' : System} {a : SystemAct} (hr : SystemRun allowed s₀ s) (ha : allowed s a)
      (hs : systemStep s a = some s') : SystemRun allowed s₀ s'

/-! ## Invariant -/

variable {t t' : Timeline} {s s' s₀ : System} {a : SystemAct} {o o' : TimelineObj}
  {e x : Event} {l rest : List Event} {d seqno context ts : ℕ} {retired : ℕ → ℕ}

/-- The events of the timeline are sorted, and ahead of its value. -/
structure Timeline.Ordered (t : Timeline) : Prop where
  sorted : t.events.Pairwise fun a b => a.seqno ≤ b.seqno
  ahead : ∀ e ∈ t.events, t.value < e.seqno

/-- The events that the timelineobj has signaled. -/
def TimelineObj.Signaled (o : TimelineObj) (e : Event) : Prop :=
  match o.phase with
  | .retiring rest => e ∉ rest
  | .freed => True
  | _ => False

/-- `timelineobj_destroy` has not put its reference. -/
def TimelineObj.begun (o : TimelineObj) : Bool :=
  match o.phase with
  | .queued | .adding _ => true
  | _ => false

/-- The invariant of a timelineobj of the timeline. -/
structure ObjInv (value d : ℕ) (o : TimelineObj) : Prop where
  own : ∀ e ∈ o.timelines, e.drawobj = d
  part : ∀ rest, o.phase = .adding rest ∨ o.phase = .retiring rest → ∀ e ∈ rest, e ∈ o.timelines
  refs : o.sigRefcount = o.callback.toNat + o.begun.toNat
  retires : o.sigRefcount = 0 ↔ (∃ rest, o.phase = .retiring rest) ∨ o.phase = .freed
  signaled : ∀ e ∈ o.timelines, o.Signaled e → e.seqno ≤ value

/-- **The invariant.** -/
structure SystemInv (s : System) : Prop where
  ordered : s.timeline.Ordered
  owned : ∀ e ∈ s.timeline.events, ∃ o, s.obj e.drawobj = some o ∧ e ∈ o.timelines
  obj : ∀ d o, s.obj d = some o → ObjInv s.timeline.value d o

/-! ## The list -/

theorem mem_addEvent : e ∈ addEvent x l ↔ e = x ∨ e ∈ l := by
  induction l with
  | nil => exact List.mem_cons
  | cons y l ih =>
    unfold addEvent
    split
    · exact List.mem_cons
    · rw [List.mem_cons, ih, List.mem_cons]
      exact or_left_comm

theorem addEvent_sorted (h : l.Pairwise fun a b => b.seqno ≤ a.seqno) :
    (addEvent x l).Pairwise fun a b => b.seqno ≤ a.seqno := by
  induction l with
  | nil => exact List.pairwise_singleton _ _
  | cons y l ih =>
    obtain ⟨hy, hl⟩ := List.pairwise_cons.1 h
    unfold addEvent
    split
    · rename_i hle
      refine List.pairwise_cons.2 ⟨fun b hb => ?_, h⟩
      rcases List.mem_cons.1 hb with rfl | hb
      · exact hle
      · exact Nat.le_trans (hy b hb) hle
    · rename_i hlt
      refine List.pairwise_cons.2 ⟨fun b hb => ?_, ih hl⟩
      rcases mem_addEvent.1 hb with rfl | hb
      · exact Nat.le_of_not_le hlt
      · exact hy b hb

theorem kgslTimelineAddSignal_value : (kgslTimelineAddSignal t x).value = t.value := by
  unfold kgslTimelineAddSignal
  split <;> rfl

theorem mem_addSignal (h : e ∈ (kgslTimelineAddSignal t x).events) :
    e ∈ t.events ∨ e = x ∧ t.value < x.seqno := by
  unfold kgslTimelineAddSignal at h
  split at h
  · exact .inl h
  · rename_i hlt
    rcases mem_addEvent.1 (List.mem_reverse.1 h) with rfl | h
    · exact .inr ⟨rfl, Nat.lt_of_not_le hlt⟩
    · exact .inl (List.mem_reverse.1 h)

theorem mem_addSignal_of_mem (h : e ∈ t.events) : e ∈ (kgslTimelineAddSignal t x).events := by
  unfold kgslTimelineAddSignal
  split
  · exact h
  · exact List.mem_reverse.2 (mem_addEvent.2 (.inr (List.mem_reverse.2 h)))

/-- `kgsl_timeline_add_signal` keeps the list sorted and ahead of the value. -/
theorem Timeline.Ordered.addSignal (h : t.Ordered) : (kgslTimelineAddSignal t x).Ordered where
  sorted := by
    unfold kgslTimelineAddSignal
    split
    · exact h.sorted
    · exact List.pairwise_reverse.2 (addEvent_sorted (List.pairwise_reverse.2 h.sorted))
  ahead e he := by
    rw [kgslTimelineAddSignal_value]
    rcases mem_addSignal he with he | ⟨rfl, hlt⟩
    · exact h.ahead e he
    · exact hlt

theorem signal_events : (kgslTimelineSignal t seqno).events =
    if seqno < t.value then t.events else t.events.dropWhile fun e => e.seqno ≤ seqno := by
  unfold kgslTimelineSignal
  split <;> rfl

/-- What comes after the first event that stays is no smaller than it. -/
theorem lt_of_mem_dropWhile (h : l.Pairwise fun a b => a.seqno ≤ b.seqno)
    (he : e ∈ l.dropWhile fun e => e.seqno ≤ seqno) : seqno < e.seqno := by
  induction l with
  | nil => exact absurd he List.not_mem_nil
  | cons y l ih =>
    obtain ⟨hy, hl⟩ := List.pairwise_cons.1 h
    rw [List.dropWhile_cons] at he
    split at he
    · exact ih hl he
    · rename_i hgt
      have hgt : seqno < y.seqno := by simpa using hgt
      rcases List.mem_cons.1 he with rfl | he
      · exact hgt
      · exact Nat.lt_of_lt_of_le hgt (hy e he)

theorem mem_dropWhile_of_lt (h : e ∈ l) (hlt : seqno < e.seqno) :
    e ∈ l.dropWhile fun e => e.seqno ≤ seqno := by
  induction l with
  | nil => exact h
  | cons y l ih =>
    rw [List.dropWhile_cons]
    split
    · rename_i hle
      have hle : y.seqno ≤ seqno := by simpa using hle
      rcases List.mem_cons.1 h with rfl | h
      · omega
      · exact ih h
    · exact h

theorem mem_signal_of_lt (h : e ∈ t.events) (hlt : seqno < e.seqno) :
    e ∈ (kgslTimelineSignal t seqno).events := by
  rw [signal_events]
  split
  · exact h
  · exact mem_dropWhile_of_lt h hlt

theorem mem_of_mem_signal (h : e ∈ (kgslTimelineSignal t seqno).events) : e ∈ t.events := by
  rw [signal_events] at h
  split at h
  · exact h
  · exact (List.dropWhile_sublist _).subset h

/-- `kgsl_timeline_signal` keeps the list sorted and ahead of the value. -/
theorem Timeline.Ordered.signal (h : t.Ordered) : (kgslTimelineSignal t seqno).Ordered where
  sorted := by
    rw [signal_events]
    split
    · exact h.sorted
    · exact h.sorted.sublist (List.dropWhile_sublist _)
  ahead e he := by
    have hmem := h.ahead e (mem_of_mem_signal he)
    rw [kgslTimelineSignal_value]
    refine Nat.max_lt.2 ⟨?_, hmem⟩
    rw [signal_events] at he
    split at he
    · omega
    · exact lt_of_mem_dropWhile h.sorted he

/-! ## Timelineobjs -/

theorem ObjInv.mono {value value' : ℕ} (h : ObjInv value d o) (hle : value ≤ value') :
    ObjInv value' d o :=
  ⟨h.own, h.part, h.refs, h.retires, fun e he hs => Nat.le_trans (h.signaled e he hs) hle⟩

/-- A reference is put: the last one starts the retirement. -/
theorem ObjInv.put {value : ℕ} (hown : ∀ e ∈ o.timelines, e.drawobj = d)
    (hpart : ∀ rest, o.phase = .adding rest → ∀ e ∈ rest, e ∈ o.timelines)
    (hrefs : o.sigRefcount = o.callback.toNat + o.begun.toNat + 1)
    (hnot : ¬ ((∃ rest, o.phase = .retiring rest) ∨ o.phase = .freed)) :
    ObjInv value d (kgslTimelineobjSignal o) := by
  obtain ⟨hretiring, hfreed⟩ := not_or.1 hnot
  unfold kgslTimelineobjSignal
  split
  · rename_i hone
    refine ⟨hown, ?_, ?_, iff_of_true rfl (.inl ⟨_, rfl⟩), fun e he hs => absurd he hs⟩
    · rintro rest (h | h) e he
      · cases h
      · cases h
        exact he
    · show 0 = o.callback.toNat + 0
      omega
  · rename_i hne
    refine ⟨hown, ?_, ?_, iff_of_false ?_ hnot, fun e _ hs => ?_⟩
    · rintro rest (h | h) e he
      · exact hpart rest h e he
      · exact absurd ⟨rest, h⟩ hretiring
    · show o.sigRefcount - 1 = o.callback.toNat + o.begun.toNat
      omega
    · show o.sigRefcount - 1 ≠ 0
      omega
    · unfold TimelineObj.Signaled at hs
      split at hs
      · rename_i h
        exact absurd ⟨_, h⟩ hretiring
      · rename_i h
        exact absurd h hfreed
      · exact hs.elim

theorem addTimeline_inv (value d context queued : ℕ) (seqnos : List ℕ) :
    ObjInv value d (kgslDrawobjAddTimeline d context queued seqnos) := by
  refine ⟨fun e he => ?_, ?_, rfl, iff_of_false (Nat.succ_ne_zero 1) ?_,
    fun e _ hs => hs.elim⟩
  · obtain ⟨seqno, -, rfl⟩ := List.mem_map.1 he
    rfl
  · rintro rest (h | h) <;> cases h
  · rintro (⟨rest, h⟩ | h) <;> cases h

/-- A timelineobj that is at an early phase has a reference. -/
theorem ObjInv.live {value : ℕ} (h : ObjInv value d o) (hb : o.begun = true ∨ o.callback = true) :
    ¬ ((∃ rest, o.phase = .retiring rest) ∨ o.phase = .freed) := by
  intro hr
  have hzero := h.retires.2 hr
  have hrefs := h.refs
  rcases hb with hb | hb
  all_goals
    rw [hb] at hrefs
    simp only [Bool.toNat_true] at hrefs
    omega

/-- While `timelineobj_destroy` has not put its reference, that one is there. -/
theorem ObjInv.early {value : ℕ} (h : ObjInv value d o)
    (hb : o.phase = .queued ∨ ∃ rest, o.phase = .adding rest) :
    o.sigRefcount = o.callback.toNat + 1 ∧
      ¬ ((∃ rest, o.phase = .retiring rest) ∨ o.phase = .freed) := by
  have hb : o.begun = true := by
    unfold TimelineObj.begun
    rcases hb with hq | ⟨rest, hadd⟩
    · rw [hq]
    · rw [hadd]
  have hrefs := h.refs
  rw [hb] at hrefs
  exact ⟨hrefs, h.live (.inl hb)⟩

theorem kgslTimelineobjSignal_timelines :
    (kgslTimelineobjSignal o).timelines = o.timelines := by
  unfold kgslTimelineobjSignal
  split <;> rfl

/-! ## Steps -/

theorem setObj_apply (s : System) (d : ℕ) (o : TimelineObj) (d' : ℕ) :
    (s.setObj d o).obj d' = if d' = d then some o else s.obj d' :=
  Function.update_apply _ _ _ _

/-- A timelineobj goes on and its events stay; the value of the timeline does not fall. -/
theorem SystemInv.setObj (h : SystemInv s) (hord : t.Ordered)
    (hval : s.timeline.value ≤ t.value)
    (hev : ∀ e ∈ t.events, e ∈ s.timeline.events ∨ e.drawobj = d ∧ e ∈ o'.timelines)
    (hold : ∀ o, s.obj d = some o → o'.timelines = o.timelines) (ho : ObjInv t.value d o') :
    SystemInv ({ s with timeline := t }.setObj d o') where
  ordered := hord
  owned e he := by
    rw [setObj_apply]
    by_cases hd : e.drawobj = d
    · rw [if_pos hd]
      refine ⟨o', rfl, ?_⟩
      rcases hev e he with he | ⟨-, he⟩
      · obtain ⟨o, hobj, he⟩ := h.owned e he
        rw [hold o (hd ▸ hobj)]
        exact he
      · exact he
    · rw [if_neg hd]
      rcases hev e he with he | ⟨heq, -⟩
      · exact h.owned e he
      · exact absurd heq hd
  obj d' x hx := by
    rw [setObj_apply] at hx
    split at hx
    · rename_i heq
      obtain rfl := Option.some.inj hx
      exact heq ▸ ho
    · exact (h.obj d' x hx).mono hval

/-- The timeline takes a step by itself, and gets no event. -/
theorem SystemInv.timeline (h : SystemInv s) (hord : t.Ordered)
    (hval : s.timeline.value ≤ t.value) (hev : ∀ e ∈ t.events, e ∈ s.timeline.events) :
    SystemInv { s with timeline := t } where
  ordered := hord
  owned e he := h.owned e (hev e he)
  obj d o ho := (h.obj d o ho).mono hval

/-- What the steps of others do to the value and the events. -/
theorem step_events {a : Act} (hs : step t a = some t') :
    t'.value = t.value ∧ t'.events = t.events ∨
    (∃ seqno, t' = kgslTimelineSignal t seqno) ∨ ∃ h signal, a = .addSignal h signal := by
  cases a with
  | addSignal h signal => exact .inr (.inr ⟨h, signal, rfl⟩)
  | signal h seqno =>
    simp only [step] at hs
    split at hs
    · exact .inr (.inl ⟨seqno, (Option.some.inj hs).symm⟩)
    · cases hs
  | byId h | put h | destroyRemove h devPriv | destroySplice h | destroyPut h =>
    simp only [step] at hs
    split at hs
    · obtain rfl := Option.some.inj hs
      exact .inl ⟨rfl, rfl⟩
    · cases hs
  | fenceAlloc h f seqno =>
    simp only [step] at hs
    split at hs
    · obtain rfl := Option.some.inj hs
      simp only [kgslTimelineFenceAlloc]
      split <;> exact .inl ⟨rfl, rfl⟩
    · cases hs
  | destroySignal h =>
    simp only [step] at hs
    split at hs
    · obtain rfl := Option.some.inj hs
      exact .inl ⟨rfl, rfl⟩
    · cases hs
  | fenceGet f | fencePut f | fenceRelease f | isSignaled f =>
    obtain ⟨x, -, hs⟩ := Option.bind_eq_some_iff.1 hs
    split at hs
    · obtain rfl := Option.some.inj hs
      first
      | exact .inl ⟨rfl, rfl⟩
      | (unfold dmaFenceIsSignaled
         split <;> exact .inl ⟨rfl, rfl⟩)
    · cases hs

/-- The steps of others touch the list only with a signal. -/
theorem systemStep_other {a : Act} (hs : systemStep s (.other a) = some s') :
    ∃ t, s' = { s with timeline := t } ∧
      (t.value = s.timeline.value ∧ t.events = s.timeline.events ∨
        ∃ seqno, t = kgslTimelineSignal s.timeline seqno) := by
  have hs' : (Timelines.step s.timeline a).map (fun t => { s with timeline := t }) = some s' ∧
      ¬ ∃ h signal, a = .addSignal h signal := by
    cases a with
    | addSignal h signal => cases hs
    | _ =>
      refine ⟨hs, ?_⟩
      rintro ⟨h, signal, heq⟩
      cases heq
  obtain ⟨t, ht, rfl⟩ := Option.map_eq_some_iff.1 hs'.1
  refine ⟨t, rfl, ?_⟩
  rcases step_events ht with hsame | hsig | hadd
  · exact .inl hsame
  · exact .inr hsig
  · exact absurd hadd hs'.2

/-- **Every step keeps the invariant.** -/
theorem SystemInv.step (h : SystemInv s) (hs : systemStep s a = some s') : SystemInv s' := by
  have hsame : ∀ {d o'}, (∀ o, s.obj d = some o → o'.timelines = o.timelines) →
      ObjInv s.timeline.value d o' → SystemInv (s.setObj d o') := fun hold ho =>
    h.setObj h.ordered (Nat.le_refl _) (fun e he => .inl he) hold ho
  cases a with
  | other a =>
    obtain ⟨t, rfl, ⟨hval, hev⟩ | ⟨seqno, rfl⟩⟩ := systemStep_other hs
    · refine h.timeline ⟨hev ▸ h.ordered.sorted, fun e he => ?_⟩ (Nat.le_of_eq hval.symm)
        fun e he => hev ▸ he
      rw [hval]
      exact h.ordered.ahead e (hev ▸ he)
    · refine h.timeline h.ordered.signal ?_ fun e => mem_of_mem_signal
      rw [kgslTimelineSignal_value]
      exact Nat.le_max_right _ _
  | addTimeline d context queued seqnos =>
    simp only [systemStep] at hs
    split at hs
    · rename_i hnew
      obtain rfl := Option.some.inj hs
      refine h.setObj (t := { s.timeline with ref := _ }) ⟨h.ordered.sorted, h.ordered.ahead⟩
        (Nat.le_refl _) (fun e he => .inl he) (fun o ho => ?_) (addTimeline_inv _ _ _ _ _)
      rw [hnew.2.2] at ho
      cases ho
    · cases hs
  | destroy d =>
    obtain ⟨o, ho, hs⟩ := Option.bind_eq_some_iff.1 hs
    split at hs
    · rename_i hq
      obtain rfl := Option.some.inj hs
      have hi := h.obj d o ho
      obtain ⟨hrefs, hlive⟩ := hi.early (.inl hq)
      refine hsame (fun x hx => by rw [Option.some.inj (ho.symm.trans hx)])
        ⟨hi.own, ?_, hrefs, iff_of_false (mt hi.retires.1 hlive) ?_, fun e _ hs => hs.elim⟩
      · rintro rest (hr | hr) e he
        · cases hr
          exact he
        · cases hr
      · rintro (⟨rest, hr⟩ | hr) <;> cases hr
    · cases hs
  | addSignal d =>
    obtain ⟨o, ho, hs⟩ := Option.bind_eq_some_iff.1 hs
    split at hs
    · rename_i e rest hph
      obtain rfl := Option.some.inj hs
      have hi := h.obj d o ho
      have hpart := hi.part _ (.inl hph)
      obtain ⟨hrefs, hlive⟩ := hi.early (.inr ⟨_, hph⟩)
      refine h.setObj h.ordered.addSignal (Nat.le_of_eq kgslTimelineAddSignal_value.symm)
        (fun x hx => ?_)
        (fun x hx => by rw [Option.some.inj (ho.symm.trans hx)])
        ⟨hi.own, ?_, hrefs, iff_of_false (mt hi.retires.1 hlive) ?_, fun e _ hs => hs.elim⟩
      · rcases mem_addSignal hx with hx | ⟨rfl, -⟩
        · exact .inl hx
        · have hmem := hpart x List.mem_cons_self
          exact .inr ⟨hi.own x hmem, hmem⟩
      · rintro rest' (hr | hr) x hx
        · cases hr
          exact hpart x (List.mem_cons_of_mem _ hx)
        · cases hr
      · rintro (⟨rest', hr⟩ | hr) <;> cases hr
    · cases hs
  | destroySignal d =>
    obtain ⟨o, ho, hs⟩ := Option.bind_eq_some_iff.1 hs
    split at hs
    · rename_i hph
      obtain rfl := Option.some.inj hs
      have hi := h.obj d o ho
      obtain ⟨hrefs, -⟩ := hi.early (.inr ⟨_, hph⟩)
      refine hsame (fun x hx => ?_) (ObjInv.put hi.own (fun rest hr => by cases hr) hrefs ?_)
      · rw [← Option.some.inj (ho.symm.trans hx)]
        exact kgslTimelineobjSignal_timelines
      · rintro (⟨rest, hr⟩ | hr) <;> cases hr
    · cases hs
  | timelineSignaled d =>
    obtain ⟨o, ho, hs⟩ := Option.bind_eq_some_iff.1 hs
    split at hs
    · rename_i hcb
      obtain rfl := Option.some.inj hs
      have hi := h.obj d o ho
      have hrefs := hi.refs
      rw [hcb] at hrefs
      refine hsame (fun x hx => ?_) (ObjInv.put hi.own (fun rest hr => hi.part rest (.inl hr)) ?_
        (hi.live (.inr hcb)))
      · rw [← Option.some.inj (ho.symm.trans hx)]
        exact kgslTimelineobjSignal_timelines
      · show o.sigRefcount = 0 + o.begun.toNat + 1
        rw [hrefs, Bool.toNat_true]
        omega
    · cases hs
  | retireSignal d =>
    obtain ⟨o, ho, hs⟩ := Option.bind_eq_some_iff.1 hs
    split at hs
    · rename_i e rest hph
      obtain rfl := Option.some.inj hs
      have hi := h.obj d o ho
      have hpart := hi.part _ (.inr hph)
      have hzero := hi.retires.2 (.inl ⟨_, hph⟩)
      have hsig : (kgslTimelineSignal s.timeline e.seqno).Ordered := h.ordered.signal
      have hval := kgslTimelineSignal_value s.timeline e.seqno
      refine h.setObj (t := { kgslTimelineSignal s.timeline e.seqno with ref := _ })
        ⟨hsig.sorted, hsig.ahead⟩ (hval ▸ Nat.le_max_right _ _)
        (fun x hx => .inl (mem_of_mem_signal hx))
        (fun x hx => by rw [Option.some.inj (ho.symm.trans hx)])
        ⟨hi.own, ?_, ?_, iff_of_true hzero (.inl ⟨_, rfl⟩), fun x hx hs => ?_⟩
      · rintro rest' (hr | hr) x hx
        · cases hr
        · cases hr
          exact hpart x (List.mem_cons_of_mem _ hx)
      · have hrefs := hi.refs
        show o.sigRefcount = o.callback.toNat + 0
        omega
      · show x.seqno ≤ (kgslTimelineSignal s.timeline e.seqno).value
        rw [hval]
        by_cases heq : x = e
        · rw [heq]
          exact Nat.le_max_left _ _
        · refine Nat.le_trans (hi.signaled x hx ?_) (Nat.le_max_right _ _)
          unfold TimelineObj.Signaled
          rw [hph]
          exact fun hmem => (List.mem_cons.1 hmem).elim heq hs
    · cases hs
  | retireFree d =>
    obtain ⟨o, ho, hs⟩ := Option.bind_eq_some_iff.1 hs
    split at hs
    · rename_i hph
      obtain rfl := Option.some.inj hs
      have hi := h.obj d o ho
      have hzero := hi.retires.2 (.inl ⟨_, hph⟩)
      refine hsame (fun x hx => by rw [Option.some.inj (ho.symm.trans hx)])
        ⟨hi.own, ?_, ?_, iff_of_true hzero (.inr rfl), fun x hx _ => hi.signaled x hx ?_⟩
      · rintro rest (hr | hr) <;> cases hr
      · have hrefs := hi.refs
        show o.sigRefcount = o.callback.toNat + 0
        omega
      · unfold TimelineObj.Signaled
        rw [hph]
        exact List.not_mem_nil
    · cases hs
  | advance context ts =>
    simp only [systemStep] at hs
    split at hs
    · obtain rfl := Option.some.inj hs
      exact ⟨h.ordered, h.owned, h.obj⟩
    · cases hs
  | query h' =>
    simp only [systemStep] at hs
    split at hs
    · obtain rfl := Option.some.inj hs
      exact ⟨h.ordered, h.owned, h.obj⟩
    · cases hs

theorem systemInv_create (devPriv initial : ℕ) (retired : ℕ → ℕ) :
    SystemInv (.create devPriv initial retired) where
  ordered := ⟨.nil, fun _ he => absurd he List.not_mem_nil⟩
  owned _ he := absurd he List.not_mem_nil
  obj _ _ ho := nomatch ho

theorem SystemRun.inv {allowed : System → SystemAct → Prop} (hr : SystemRun allowed s₀ s)
    (h : SystemInv s₀) : SystemInv s := by
  induction hr with
  | refl => exact h
  | step _ _ hs ih => exact ih.step hs

/-! ## Queries -/

/-- The event has retired. -/
def Event.Retired (retired : ℕ → ℕ) (e : Event) : Prop :=
  kgslCheckTimestamp (retired e.context) e.timestamp = true

/-- A query finds the largest of the events that have retired. -/
theorem query_cases (retired : ℕ → ℕ) (h : t.Ordered) :
    (kgslIoctlTimelineQuery retired t = t.value ∧ ∀ e ∈ t.events, ¬ e.Retired retired) ∨
    ∃ e ∈ t.events, e.Retired retired ∧ kgslIoctlTimelineQuery retired t = e.seqno ∧
      ∀ x ∈ t.events, x.Retired retired → x.seqno ≤ e.seqno := by
  unfold kgslIoctlTimelineQuery
  cases hf : t.events.reverse.find? fun e => kgslCheckTimestamp (retired e.context) e.timestamp with
  | none =>
    refine .inl ⟨rfl, fun e he => ?_⟩
    exact List.find?_eq_none.1 hf e (List.mem_reverse.2 he)
  | some e =>
    obtain ⟨hret, before, after, hsplit, hbefore⟩ := List.find?_eq_some_iff_append.1 hf
    have hsorted := List.pairwise_reverse.2 h.sorted
    have hmem : ∀ x, x ∈ t.events ↔ x ∈ before ∨ x = e ∨ x ∈ after := fun x => by
      rw [← List.mem_reverse, hsplit, List.mem_append, List.mem_cons]
    refine .inr ⟨e, (hmem e).2 (.inr (.inl rfl)), hret, rfl, fun x hx hxret => ?_⟩
    rw [hsplit, List.pairwise_append] at hsorted
    rcases (hmem x).1 hx with hx | rfl | hx
    · have hno := hbefore x hx
      rw [show kgslCheckTimestamp (retired x.context) x.timestamp = true from hxret] at hno
      cases hno
    · exact Nat.le_refl _
    · exact (List.pairwise_cons.1 hsorted.2.1).1 x hx

theorem value_le_query (h : t.Ordered) : t.value ≤ kgslIoctlTimelineQuery retired t := by
  rcases query_cases retired h with ⟨hq, -⟩ | ⟨e, he, -, hq, -⟩
  · exact Nat.le_of_eq hq.symm
  · exact hq ▸ Nat.le_of_lt (h.ahead e he)

theorem le_query (h : t.Ordered) (he : e ∈ t.events) (hret : e.Retired retired) :
    e.seqno ≤ kgslIoctlTimelineQuery retired t := by
  rcases query_cases retired h with ⟨-, hno⟩ | ⟨x, -, -, hq, hmax⟩
  · exact absurd hret (hno e he)
  · exact hq ▸ hmax e he hret

/-- A query finds no less when the value is no less, and the events that had retired have
    either passed or are on the list and have retired still. -/
theorem query_mono {retired' : ℕ → ℕ} (h : t.Ordered) (h' : t'.Ordered)
    (hval : t.value ≤ t'.value)
    (hev : ∀ e ∈ t.events, e.Retired retired →
      e.seqno ≤ t'.value ∨ e ∈ t'.events ∧ e.Retired retired') :
    kgslIoctlTimelineQuery retired t ≤ kgslIoctlTimelineQuery retired' t' := by
  rcases query_cases retired h with ⟨hq, -⟩ | ⟨e, he, hret, hq, -⟩
  · rw [hq]
    exact Nat.le_trans hval (value_le_query h')
  · rw [hq]
    rcases hev e he hret with hle | ⟨he', hret'⟩
    · exact Nat.le_trans hle (value_le_query h')
    · exact le_query h' he' hret'

theorem query_signal (h : t.Ordered) : kgslIoctlTimelineQuery retired t ≤
    kgslIoctlTimelineQuery retired (kgslTimelineSignal t seqno) := by
  have hval := kgslTimelineSignal_value t seqno
  refine query_mono h h.signal (hval ▸ Nat.le_max_right _ _) fun e he hret => ?_
  by_cases hlt : seqno < e.seqno
  · exact .inr ⟨mem_signal_of_lt he hlt, hret⟩
  · rw [hval]
    exact .inl (Nat.le_trans (Nat.le_of_not_lt hlt) (Nat.le_max_left _ _))

theorem query_addSignal (h : t.Ordered) : kgslIoctlTimelineQuery retired t ≤
    kgslIoctlTimelineQuery retired (kgslTimelineAddSignal t x) :=
  query_mono h h.addSignal (Nat.le_of_eq kgslTimelineAddSignal_value.symm) fun _ he hret =>
    .inr ⟨mem_addSignal_of_mem he, hret⟩

/-! ## Timestamps -/

/-- A timestamp less than half the circle ahead is not before the other. -/
theorem timestampCmp_of_ahead {a b : ℕ} (h : aheadOf a b < timestampWindow) :
    0 ≤ timestampCmp b a := by
  unfold aheadOf timestampWindow at h
  simp only [timestampCmp, timestampWindow]
  split
  · omega
  · split
    · omega
    · split <;> omega

theorem aheadOf_add (a b c : ℕ) (h : aheadOf a b + aheadOf b c < 2 ^ 32) :
    aheadOf a c = aheadOf a b + aheadOf b c := by
  unfold aheadOf at *
  omega

/-- What has retired stays so while the context keeps up with it. -/
theorem retired_advance (hup : keepsUp s (.advance context ts)) (he : e ∈ s.timeline.events)
    (hret : e.Retired s.retired) : e.Retired (Function.update s.retired context ts) := by
  unfold Event.Retired at hret ⊢
  rw [Function.update_apply]
  split
  · rename_i heq
    have hlt := hup e he heq (heq ▸ hret)
    have hsum : aheadOf e.timestamp ts < timestampWindow := by
      rw [aheadOf_add e.timestamp (s.retired context) ts (Nat.lt_trans hlt (by decide))]
      exact hlt
    exact decide_eq_true (timestampCmp_of_ahead hsum)
  · exact hret

/-! ## Runs -/

/-- The results of the queries are in order, and the next will not be less. -/
structure Increasing (s : System) : Prop where
  sorted : s.results.Pairwise (· ≤ ·)
  next : ∀ q ∈ s.results, q ≤ kgslIoctlTimelineQuery s.retired s.timeline

/-- What a step does to the results, and to what the next query finds. -/
theorem step_query (h : SystemInv s) (hup : keepsUp s a) (hs : systemStep s a = some s') :
    s'.results = s.results ∧ kgslIoctlTimelineQuery s.retired s.timeline ≤
      kgslIoctlTimelineQuery s'.retired s'.timeline ∨
    s'.results = s.results ++ [kgslIoctlTimelineQuery s.retired s.timeline] ∧
      s'.retired = s.retired ∧ s'.timeline = s.timeline := by
  have hord := h.ordered
  cases a with
  | other a =>
    obtain ⟨t, rfl, ⟨hval, hev⟩ | ⟨seqno, rfl⟩⟩ := systemStep_other hs
    · refine .inl ⟨rfl, ?_⟩
      unfold kgslIoctlTimelineQuery
      simp only [hev, hval]
      exact Nat.le_refl _
    · exact .inl ⟨rfl, query_signal hord⟩
  | addSignal d =>
    obtain ⟨o, -, hs⟩ := Option.bind_eq_some_iff.1 hs
    split at hs
    · obtain rfl := Option.some.inj hs
      exact .inl ⟨rfl, query_addSignal hord⟩
    · cases hs
  | retireSignal d =>
    obtain ⟨o, -, hs⟩ := Option.bind_eq_some_iff.1 hs
    split at hs
    · obtain rfl := Option.some.inj hs
      exact .inl ⟨rfl, query_signal hord⟩
    · cases hs
  | advance context ts =>
    simp only [systemStep] at hs
    split at hs
    · obtain rfl := Option.some.inj hs
      refine .inl ⟨rfl, query_mono hord hord (Nat.le_refl _) fun e he hret => .inr ⟨he, ?_⟩⟩
      exact retired_advance hup he hret
    · cases hs
  | query h' =>
    simp only [systemStep] at hs
    split at hs
    · obtain rfl := Option.some.inj hs
      exact .inr ⟨rfl, rfl, rfl⟩
    · cases hs
  | addTimeline d context queued seqnos =>
    simp only [systemStep] at hs
    split at hs
    · obtain rfl := Option.some.inj hs
      exact .inl ⟨rfl, Nat.le_refl _⟩
    · cases hs
  | destroy d | destroySignal d | timelineSignaled d | retireFree d =>
    obtain ⟨o, -, hs⟩ := Option.bind_eq_some_iff.1 hs
    split at hs
    · obtain rfl := Option.some.inj hs
      exact .inl ⟨rfl, Nat.le_refl _⟩
    · cases hs

theorem Increasing.step (hi : Increasing s) (h : SystemInv s) (hup : keepsUp s a)
    (hs : systemStep s a = some s') : Increasing s' := by
  rcases step_query h hup hs with ⟨hres, hle⟩ | ⟨hres, hret, ht⟩
  · refine ⟨hres ▸ hi.sorted, fun q hq => ?_⟩
    exact Nat.le_trans (hi.next q (hres ▸ hq)) hle
  · refine ⟨?_, fun q hq => ?_⟩
    · rw [hres]
      refine List.pairwise_append.2 ⟨hi.sorted, List.pairwise_singleton _ _, fun q hq x hx => ?_⟩
      rw [List.mem_singleton.1 hx]
      exact hi.next q hq
    · rw [hret, ht]
      rw [hres] at hq
      rcases List.mem_append.1 hq with hq | hq
      · exact hi.next q hq
      · exact Nat.le_of_eq (List.mem_singleton.1 hq)

theorem SystemRun.increasing (hr : SystemRun keepsUp s₀ s) (h : SystemInv s₀)
    (hi : Increasing s₀) : Increasing s := by
  induction hr with
  | refl => exact hi
  | step hr ha hs ih => exact ih.step (hr.inv h) ha hs

/-- **The queries of a timeline never decrease**, as long as every context keeps up with
    the events on the list.  In every run the list is sorted by seqno and ahead of the value,
    and no event is on it any more when its timelineobj frees it. -/
theorem timeline_queries_increase (devPriv initial : ℕ) (retired : ℕ → ℕ) :
    (∀ s, SystemRun (fun _ _ => True) (.create devPriv initial retired) s →
      s.timeline.events.Pairwise (fun a b => a.seqno ≤ b.seqno) ∧
      (∀ e ∈ s.timeline.events, s.timeline.value < e.seqno) ∧
      ∀ d o, s.obj d = some o → o.phase = .retiring [] ∨ o.phase = .freed →
        ∀ e ∈ o.timelines, e ∉ s.timeline.events) ∧
    ∀ s, SystemRun keepsUp (.create devPriv initial retired) s → s.results.Pairwise (· ≤ ·) := by
  constructor
  · intro s hr
    have h := hr.inv (systemInv_create devPriv initial retired)
    refine ⟨h.ordered.sorted, h.ordered.ahead, fun d o ho hph e he hmem => ?_⟩
    have hle := (h.obj d o ho).signaled e he (by
      unfold TimelineObj.Signaled
      rcases hph with hph | hph
      · rw [hph]
        exact List.not_mem_nil
      · rw [hph]
        trivial)
    exact Nat.not_lt_of_le hle (h.ordered.ahead e hmem)
  · intro s hr
    exact (hr.increasing (systemInv_create devPriv initial retired)
      ⟨.nil, fun q hq => absurd hq List.not_mem_nil⟩).sorted

/-! ## Examples of runs -/

/-- Several steps. -/
def systemExec (s : System) : List SystemAct → Option System
  | [] => some s
  | a :: acts => (systemStep s a).bind fun s => systemExec s acts

theorem SystemRun.exec {allowed : System → SystemAct → Prop} {acts : List SystemAct}
    (hr : SystemRun allowed s₀ s) (hall : ∀ s, ∀ a ∈ acts, allowed s a)
    (he : systemExec s acts = some s') : SystemRun allowed s₀ s' := by
  induction acts generalizing s with
  | nil => exact Option.some.inj he ▸ hr
  | cons a acts ih =>
    obtain ⟨s₁, hs, he⟩ := Option.bind_eq_some_iff.1 he
    exact ih (hr.step (hall s a List.mem_cons_self) hs)
      (fun s x hx => hall s x (List.mem_cons_of_mem a hx)) he

/-- A timelineobj is to signal 10 once context 1 has retired timestamp 1. -/
def oneObj : List SystemAct :=
  [.addTimeline 1 1 1 [10], .other (.byId 2), .query 2, .destroy 1, .addSignal 1, .destroySignal 1]

/-- The timeline is signaled, and the events are freed. -/
def oneObjRetires : List SystemAct :=
  [.query 2, .timelineSignaled 1, .retireSignal 1, .retireFree 1, .query 2]

/-- The query finds 10 as soon as the timestamp has retired, and after the signal too. -/
theorem timeline_queries_increase_one : ∃ s : System, s.results = [0, 10, 10] ∧
    s.results.Pairwise (· ≤ ·) ∧ s.timeline.events = [] := by
  obtain ⟨s₁, h₁⟩ : ∃ s, systemExec (.create 7 0 fun _ => 0) oneObj = some s ∧
      s.timeline.events = [⟨10, 1, 1, 1⟩] ∧ s.retired 1 = 0 ∧
      ∃ s', (systemStep s (.advance 1 1)).bind (systemExec · oneObjRetires) = some s' ∧
        s'.results = [0, 10, 10] ∧ s'.timeline.events = [] :=
    ⟨_, rfl, rfl, rfl, _, rfl, rfl, rfl⟩
  obtain ⟨h₁, hev, hret, s₃, h₃, hres, hnone⟩ := h₁
  obtain ⟨s₂, h₂, h₃⟩ := Option.bind_eq_some_iff.1 h₃
  have hr₁ : SystemRun keepsUp (.create 7 0 fun _ => 0) s₁ :=
    SystemRun.refl.exec (fun s a ha => by
      simp only [oneObj, List.mem_cons, List.not_mem_nil, or_false] at ha
      rcases ha with rfl | rfl | rfl | rfl | rfl | rfl <;> trivial) h₁
  have hup : keepsUp s₁ (.advance 1 1) := by
    intro e he _ hretired
    rw [hev] at he
    obtain rfl := List.mem_singleton.1 he
    rw [hret] at hretired
    exact absurd hretired (by decide)
  have hr₃ := (hr₁.step hup h₂).exec (fun s a ha => by
    simp only [oneObjRetires, List.mem_cons, List.not_mem_nil, or_false] at ha
    rcases ha with rfl | rfl | rfl | rfl | rfl <;> trivial) h₃
  exact ⟨s₃, hres, (timeline_queries_increase 7 0 fun _ => 0).2 s₃ hr₃, hnone⟩

/-- The context goes on to 2 ^ 31 + 2, and the event seems not to have retired any more. -/
def oneObjLeftBehind : List SystemAct :=
  [.advance 1 1, .query 2, .advance 1 (2 ^ 31), .advance 1 (2 ^ 31 + 2), .query 2]

/-- The event waits for its callback while its context goes half around the circle. -/
theorem timeline_queries_decrease : ¬ ∀ s,
    SystemRun (fun _ _ => True) (.create 7 0 fun _ => 0) s → s.results.Pairwise (· ≤ ·) := by
  intro hall
  obtain ⟨s, hs, hres⟩ : ∃ s, systemExec (.create 7 0 fun _ => 0) (oneObj ++ oneObjLeftBehind) =
      some s ∧ s.results = [0, 10, 0] := ⟨_, rfl, rfl⟩
  have hsorted := hall s (SystemRun.refl.exec (fun _ _ _ => trivial) hs)
  rw [hres] at hsorted
  revert hsorted
  decide

end Sm8850.Kgsl.Timelines
