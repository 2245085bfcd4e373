/-
  What the sections of a draw queue do with its contents.

  * `Contents`: the ring holds a list of objects, from the head to the tail.
  * `Contents.pop`, `Contents.queue`, `Contents.requeue`, `Contents.setSlot`: the operations
    on the ring are those on the list, as long as a slot stays free.
  * `Retires`, `QueuesObj`: the ways in which one object is retired or queued.
  * `processFrom_spec`, `takeDrawobj_spec`: the dispatcher takes objects from the front, one
    after the other.
  * `queueObjs_contents`: a call adds objects at the back, at most as many as it brought.
  * `Submits.split`: only the last object of a call has a timestamp.
-/
import Sm8850.Lib.Ring
import Sm8850.Kgsl.Drawqueue

namespace Sm8850.Kgsl.Dispatch

open Lib

variable {c c' : DrawCtxt} {l : List DrawObj} {x y : DrawObj} {i n userTs : ℕ}

/-! ## Contents -/

/-- The slots from `head` to `tail` hold the objects `l`, and a slot is free. -/
structure RingHolds (drawqueue : ℕ → Option DrawObj) (head tail queued : ℕ) (fifo : List ℕ)
    (l : List DrawObj) : Prop where
  holds : Ring.Holds contextDrawqueueSize drawqueue head (l.map some)
  head_lt : head < contextDrawqueueSize
  tail_eq : tail = (head + l.length) % contextDrawqueueSize
  queued_eq : queued = l.length
  fifo_eq : fifo = l.map (·.id)

/-- The context has the objects `l` in its queue. -/
def Contents (c : DrawCtxt) (l : List DrawObj) : Prop :=
  RingHolds c.drawqueue c.head c.tail c.queued c.fifo l

theorem Contents.length_lt (h : Contents c l) : l.length < contextDrawqueueSize := by
  simpa using h.holds.lt

theorem Contents.slot (h : Contents c l) {j : ℕ} (hj : j < l.length) :
    c.drawqueue ((c.head + j) % contextDrawqueueSize) = some l[j] := by
  rw [h.holds.cell j (by simpa using hj), List.getElem_map]

theorem Contents.slot_head (h : Contents c (x :: l)) : c.drawqueue c.head = some x := by
  simpa [Nat.mod_eq_of_lt h.head_lt] using h.slot (j := 0) (Nat.succ_pos _)

/-- The slots from the head to the tail are as many as the objects. -/
theorem Contents.slots_eq (h : Contents c l) : c.slots = l.length := by
  have hh := h.head_lt
  have hl := h.length_lt
  unfold DrawCtxt.slots
  rw [h.tail_eq]
  unfold contextDrawqueueSize at *
  omega

theorem DrawCtxt.create_contents (userGeneratedTs ifhNop : Bool) :
    Contents (DrawCtxt.create userGeneratedTs ifhNop) [] :=
  ⟨Ring.Holds.nil (by decide), Nat.succ_pos 127, rfl, rfl, rfl⟩

theorem Contents.pop (h : Contents c (x :: l)) : Contents (popDrawobj c) l where
  holds := by
    have := Ring.Holds.drop (s := [some x]) h.holds
    exact Ring.Holds.mod_iff.2 this
  head_lt := Nat.mod_lt _ (by decide)
  tail_eq := by
    have := h.tail_eq
    rw [List.length_cons] at this
    simp only [popDrawobj, drawqueueNext]
    rw [this, Nat.mod_add_mod]
    congr 1
    omega
  queued_eq := by simp [popDrawobj, h.queued_eq]
  fifo_eq := by simp [popDrawobj, h.fifo_eq]

theorem Contents.queue (h : Contents c l) (hroom : l.length + 1 < contextDrawqueueSize) :
    Contents (queueDrawobj c x) (l ++ [x]) where
  holds := by
    have := h.holds.push (by simpa using hroom) (some x)
    rw [List.length_map, ← h.tail_eq] at this
    simpa [queueDrawobj, DrawCtxt.setSlot] using this
  head_lt := h.head_lt
  tail_eq := by
    simp only [queueDrawobj, DrawCtxt.setSlot, drawqueueNext, List.length_append]
    rw [h.tail_eq, Nat.mod_add_mod]
    rfl
  queued_eq := by simp [queueDrawobj, DrawCtxt.setSlot, h.queued_eq]
  fifo_eq := by simp [queueDrawobj, DrawCtxt.setSlot, h.fifo_eq]

/-- The slot before the head. -/
theorem drawqueueNext_prev {head : ℕ} (hh : head < contextDrawqueueSize) :
    drawqueueNext (if head = 0 then contextDrawqueueSize - 1 else head - 1) = head := by
  unfold drawqueueNext contextDrawqueueSize at *
  split <;> omega

theorem Contents.requeue (h : Contents c l) (hroom : l.length + 1 < contextDrawqueueSize) :
    Contents (requeueCmdobj c x).1
      (if c.isBad then l else { x with requeueCnt := x.requeueCnt + 1 } :: l) := by
  unfold requeueCmdobj
  split
  · exact h
  · dsimp only
    have hnext := drawqueueNext_prev h.head_lt
    set prev := if c.head = 0 then contextDrawqueueSize - 1 else c.head - 1 with hp
    have hprev : prev < contextDrawqueueSize := by
      have := h.head_lt
      rw [hp]
      split <;> unfold contextDrawqueueSize at * <;> omega
    refine ⟨?_, hprev, ?_, ?_, ?_⟩
    · have hold := h.holds
      rw [← hnext] at hold
      have := (Ring.Holds.mod_iff.1 hold).cons (by simpa using hroom)
        (some { x with requeueCnt := x.requeueCnt + 1 })
      rw [Nat.mod_eq_of_lt hprev] at this
      exact this
    · change c.tail = (prev + (l.length + 1)) % contextDrawqueueSize
      rw [h.tail_eq]
      conv_lhs => rw [← hnext]
      rw [drawqueueNext, Nat.mod_add_mod]
      congr 1
      omega
    · exact congrArg (· + 1) h.queued_eq
    · exact congrArg (x.id :: ·) h.fifo_eq

/-- An object in the queue changes, but stays where it is. -/
theorem Contents.setSlot (h : Contents c l) {j : ℕ} (hj : j < l.length)
    (hid : y.id = l[j].id) :
    Contents (c.setSlot ((c.head + j) % contextDrawqueueSize) y) (l.set j y) where
  holds := by
    have := h.holds.set (by simpa using hj) (some y)
    rw [List.map_set]
    exact this
  head_lt := h.head_lt
  tail_eq := by
    rw [List.length_set]
    exact h.tail_eq
  queued_eq := by
    rw [List.length_set]
    exact h.queued_eq
  fifo_eq := by
    have hjm : j < (l.map (·.id)).length := by simpa using hj
    have hget : (l.map (·.id))[j] = y.id := by rw [List.getElem_map, hid]
    rw [List.map_set, ← hget, List.set_getElem_self]
    exact h.fifo_eq

/-! ## Retiring -/

/-- The ways in which `retireObj` deals with the object in slot `i`. -/
inductive Retires (c : DrawCtxt) (i : ℕ) (x : DrawObj) : DrawCtxt → Retire → Prop
  | cmd (ht : x.type = .cmd) : Retires c i x c .send
  | expired (ht : x.type = .marker) (he : c.checkTimestamp x.markerTimestamp) :
      Retires c i x (retireTimestamp (popDrawobj c) x) .retired
  | skipped (ht : x.type = .marker) (he : ¬ c.checkTimestamp x.markerTimestamp)
      (hs : x.skip = true) : Retires c i x c .send
  | blocked (ht : x.type = .marker ∨ x.type = .sync ∧ x.pending ≠ []) : Retires c i x c .again
  | signaled (ht : x.type = .sync) (hp : x.pending = []) :
      Retires c i x (popDrawobj c) .retired
  | timeline (ht : x.type = .timeline) : Retires c i x (popDrawobj c) .retired
  | bound (ht : x.type = .bind) (hd : x.done = true) :
      Retires c i x (retireTimestamp (popDrawobj c) x) .retired
  | started (ht : x.type = .bind) (hd : x.done = false) :
      Retires c i x (c.setSlot i { x with start := true }) .again

theorem retireObj_spec {r : Retire} (h : retireObj c i x = (c', r)) : Retires c i x c' r := by
  suffices hs : Retires c i x (retireObj c i x).1 (retireObj c i x).2 by rwa [h] at hs
  cases ht : x.type with
  | cmd =>
    rw [retireObj, ht]
    exact .cmd ht
  | marker =>
    rw [retireObj, ht]
    dsimp only
    unfold dispatchRetireMarkerobj
    split
    · next he => exact .expired ht he
    · next he =>
      cases hs : x.skip with
      | true => exact .skipped ht he hs
      | false => exact .blocked (.inl ht)
  | sync =>
    rw [retireObj, ht]
    dsimp only
    unfold dispatchRetireSyncobj
    split
    · next hp => exact .signaled ht hp
    · next hp => exact .blocked (.inr ⟨ht, hp⟩)
  | bind =>
    rw [retireObj, ht]
    dsimp only
    unfold drawqueueRetireBindobj
    split
    · next hd => exact .bound ht hd
    · next hd => exact .started ht (by simpa using hd)
  | timeline =>
    rw [retireObj, ht]
    exact .timeline ht

/-- A retired object is popped. -/
theorem Retires.contents (hr : Retires c c.head x c' .retired) (h : Contents c (x :: l)) :
    Contents c' l := by
  cases hr with
  | expired | bound => exact h.pop
  | signaled | timeline => exact h.pop

theorem Retires.head_eq (hr : Retires c i x c' .retired) : c'.head = drawqueueNext c.head := by
  cases hr <;> rfl

/-- An object that blocks the queue stays at its head. -/
theorem Retires.again_contents (hr : Retires c c.head x c' .again) (h : Contents c (x :: l)) :
    ∃ x', Contents c' (x' :: l) := by
  cases hr with
  | blocked => exact ⟨x, h⟩
  | started =>
    have := h.setSlot (j := 0) (y := { x with start := true }) (Nat.succ_pos _) rfl
    rw [Nat.add_zero, Nat.mod_eq_of_lt h.head_lt] at this
    exact ⟨_, this⟩

/-- How the loop of `_process_drawqueue_get_next_drawobj` ends. -/
inductive Ends (c : DrawCtxt) : List DrawObj → DrawCtxt → Next → Prop
  | empty : Ends c [] c .null
  | send (x : DrawObj) (l : List DrawObj) (hr : Retires c c.head x c .send) :
      Ends c (x :: l) c (.obj x)
  | again (x : DrawObj) (l : List DrawObj) (c' : DrawCtxt) (hr : Retires c c.head x c' .again) :
      Ends c (x :: l) c' (.err .again)

theorem Retires.send_eq (hr : Retires c i x c' .send) : c' = c := by
  cases hr <;> rfl

/-- **The loop retires objects from the front.**  What every retired object keeps, the loop
    keeps up to its end. -/
theorem processFrom_spec {P : DrawCtxt → List DrawObj → Prop}
    (hkeep : ∀ c x l c', Contents c (x :: l) → P c (x :: l) →
      Retires c c.head x c' .retired → P c' l) {r : Next} :
    ∀ {l c}, Contents c l → P c l → processFrom c c.head l.length = (c', r) →
      ∃ c₁ l₁, Contents c₁ l₁ ∧ P c₁ l₁ ∧ l₁ <:+ l ∧ Ends c₁ l₁ c' r := by
  intro l
  induction l with
  | nil =>
    rintro c hc hp h
    obtain ⟨rfl, rfl⟩ := Prod.mk.inj h
    exact ⟨_, [], hc, hp, List.suffix_rfl, .empty⟩
  | cons x l ih =>
    rintro c hc hp h
    rw [List.length_cons, processFrom, hc.slot_head] at h
    dsimp only at h
    split at h
    · next c₂ hr =>
      have hr := retireObj_spec hr
      rw [← hr.head_eq] at h
      obtain ⟨c₁, l₁, hc₁, hp₁, hs, he⟩ := ih (hr.contents hc) (hkeep _ _ _ _ hc hp hr) h
      exact ⟨c₁, l₁, hc₁, hp₁, hs.trans (List.suffix_cons _ _), he⟩
    · next c₂ hr =>
      have hr := retireObj_spec hr
      obtain rfl := hr.send_eq
      obtain ⟨rfl, rfl⟩ := Prod.mk.inj h
      exact ⟨_, _, hc, hp, List.suffix_rfl, .send _ _ hr⟩
    · next c₂ hr =>
      have hr := retireObj_spec hr
      obtain ⟨rfl, rfl⟩ := Prod.mk.inj h
      exact ⟨_, _, hc, hp, List.suffix_rfl, .again _ _ _ hr⟩

/-- After the loop the queue has a part of its objects, and one to send is the first. -/
theorem processDrawqueue_contents {r : Next} (hc : Contents c l)
    (h : processDrawqueueGetNextDrawobj c = (c', r)) :
    ∃ l', Contents c' l' ∧ l'.length ≤ l.length ∧ ∀ x, r = .obj x → ∃ l₁, l' = x :: l₁ := by
  rw [processDrawqueueGetNextDrawobj, hc.slots_eq] at h
  obtain ⟨c₁, l₁, hc₁, -, hs, he⟩ :=
    processFrom_spec (P := fun _ _ => True) (fun _ _ _ _ _ _ _ => trivial) hc trivial h
  have hlen := hs.length_le
  cases he with
  | empty => exact ⟨_, hc₁, hlen, fun x h => by cases h⟩
  | send x l₁ hr => exact ⟨_, hc₁, hlen, fun y h => ⟨l₁, by cases h; rfl⟩⟩
  | again x l₁ _ hr =>
    obtain ⟨x', hx'⟩ := hr.again_contents hc₁
    exact ⟨_, hx', by simpa using hlen, fun y h => by cases h⟩

/-- The object taken leaves the queue. -/
theorem takeDrawobj_contents {r : Next} (hc : Contents c l) (h : takeDrawobj c = (c', r)) :
    ∃ l', Contents c' l' ∧ l'.length ≤ l.length ∧ ∀ x, r = .obj x → l'.length < l.length := by
  unfold takeDrawobj at h
  split at h
  · next c₁ x hp =>
    obtain ⟨l₁, hc₁, hlen, hx⟩ := processDrawqueue_contents hc hp
    obtain ⟨rest, rfl⟩ := hx x rfl
    obtain ⟨rfl, rfl⟩ := Prod.mk.inj h
    rw [List.length_cons] at hlen
    exact ⟨rest, hc₁.pop, by omega, fun _ _ => by omega⟩
  · next hno =>
    obtain ⟨l₁, hc₁, hlen, -⟩ := processDrawqueue_contents hc h
    exact ⟨l₁, hc₁, hlen, fun x hx => absurd (h.trans (by rw [hx])) (hno _ _)⟩

/-! ## Queueing -/

theorem DrawObj.setSkip_id : x.setSkip.id = x.id := by
  unfold DrawObj.setSkip
  split <;> rfl

theorem setSkips_slot_contents :
    ∀ {l : List DrawObj} (pre : List DrawObj) {c : DrawCtxt}, Contents c (pre ++ l) →
      Contents (setSkips c ((c.head + pre.length) % contextDrawqueueSize) l.length)
        (pre ++ l.map DrawObj.setSkip) := by
  intro l
  induction l with
  | nil =>
    rintro pre c h
    exact h
  | cons x l ih =>
    rintro pre c h
    have hj : pre.length < (pre ++ x :: l).length := by simp
    have hx : (pre ++ x :: l)[pre.length] = x := by simp
    rw [List.length_cons, setSkips, h.slot hj, hx]
    dsimp only
    have h' := h.setSlot (y := x.setSkip) hj (by rw [hx, DrawObj.setSkip_id])
    rw [List.set_append_right _ _ le_rfl, Nat.sub_self, List.set_cons_zero,
      List.append_cons] at h'
    have := ih _ h'
    rw [List.length_append, List.length_singleton, ← Nat.add_assoc] at this
    rw [drawqueueNext, Nat.mod_add_mod, List.map_cons, List.append_cons]
    exact this

/-- The markers of the queue are forced to dispatch. -/
theorem setSkips_contents (hc : Contents c l) :
    Contents (setSkips c c.head c.slots) (l.map DrawObj.setSkip) := by
  have := setSkips_slot_contents [] hc
  rwa [List.length_nil, Nat.add_zero, Nat.mod_eq_of_lt hc.head_lt, ← hc.slots_eq] at this

/-- A timestamp that is given is later than those given before. -/
theorem getTimestamp_later (h : getTimestamp c userTs = .ok c') :
    ∃ d, 0 < d ∧ c' = { c with timestamp := c.timestamp + d } := by
  unfold getTimestamp at h
  split at h
  · split at h
    · cases h
    · next hcmp =>
      cases h
      refine ⟨_, ?_, rfl⟩
      by_contra hd
      refine hcmp ?_
      unfold timestampCmp
      rw [if_pos (by omega)]
  · cases h
    exact ⟨1, Nat.one_pos, rfl⟩

theorem getTimestamp_ok (h : getTimestamp c userTs = .ok c') :
    ∃ d, c' = { c with timestamp := c.timestamp + d } := by
  obtain ⟨d, -, hd⟩ := getTimestamp_later h
  exact ⟨d, hd⟩

/-- The ways in which `queueObj` deals with an object, where `c₁` is the context once
    `get_timestamp` has given it a timestamp. -/
inductive QueuesObj (c : DrawCtxt) (x : DrawObj) (userTs : ℕ) : DrawCtxt → Queued → Prop
  | refused (e : Errno) (hts : getTimestamp c userTs = .error e) :
      QueuesObj c x userTs c (.error e)
  | untimed (ht : x.type = .sync ∨ x.type = .timeline) :
      QueuesObj c x userTs (queueDrawobj c { x with timestamp := 0 }) .queued
  | bind (c₁ : DrawCtxt) (ht : x.type = .bind) (hts : getTimestamp c userTs = .ok c₁) :
      QueuesObj c x userTs
        (queueDrawobj
          { c₁ with queuedTimestamp := c₁.timestamp, undone := c₁.timestamp :: c₁.undone }
          { x with timestamp := c₁.timestamp }) .queued
  | retired (c₁ : DrawCtxt) (ht : x.type = .marker) (hts : getTimestamp c userTs = .ok c₁)
      (hempty : c₁.queued = 0) (hcheck : c₁.checkTimestamp c₁.queuedTimestamp) :
      QueuesObj c x userTs (retireTimestamp c₁ { x with timestamp := c₁.timestamp }) .retired
  | marker (c₁ : DrawCtxt) (ht : x.type = .marker) (hts : getTimestamp c userTs = .ok c₁)
      (eof skip : Bool) :
      QueuesObj c x userTs
        (queueDrawobj { c₁ with queuedTimestamp := c₁.timestamp, skipEof := eof }
          { x with
            timestamp := c₁.timestamp, markerTimestamp := c₁.queuedTimestamp, skip := skip })
        .queued
  | cmd (c₁ : DrawCtxt) (ht : x.type = .cmd) (hts : getTimestamp c userTs = .ok c₁)
      (eof skip : Bool) :
      QueuesObj c x userTs
        (queueDrawobj
          { setSkips c₁ c₁.head c₁.slots with
            queuedTimestamp := c₁.timestamp, skipEof := eof }
          { x with timestamp := c₁.timestamp, skip := skip }) .queued

theorem setSkips_eq : ∀ (n : ℕ) (c : DrawCtxt) (j : ℕ),
    ∃ d, setSkips c j n = { c with drawqueue := d } := by
  intro n
  induction n with
  | zero => exact fun c _ => ⟨c.drawqueue, rfl⟩
  | succ n ih =>
    intro c j
    rw [setSkips]
    split
    · exact ih c _
    · next x hx =>
      obtain ⟨d, hd⟩ := ih (c.setSlot j x.setSkip) (drawqueueNext j)
      exact ⟨d, hd⟩

theorem queueObj_spec {r : Queued} (h : queueObj c x userTs = (c', r)) :
    QueuesObj c x userTs c' r := by
  suffices hs : QueuesObj c x userTs (queueObj c x userTs).1 (queueObj c x userTs).2 by
    rwa [h] at hs
  cases ht : x.type with
  | sync =>
    rw [queueObj, ht]
    exact .untimed (.inl ht)
  | timeline =>
    rw [queueObj, ht]
    exact .untimed (.inr ht)
  | bind =>
    rw [queueObj, ht]
    dsimp only
    unfold drawctxtQueueBindobj
    split
    · next e hts => exact .refused e hts
    · next c₁ hts => exact .bind c₁ ht hts
  | marker =>
    rw [queueObj, ht]
    dsimp only
    unfold drawctxtQueueMarkerobj
    split
    · next e hts => exact .refused e hts
    · next c₁ hts =>
      dsimp only
      split
      · next hf => exact .retired c₁ ht hts hf.1 hf.2
      · exact .marker c₁ ht hts _ _
  | cmd =>
    rw [queueObj, ht]
    dsimp only
    unfold drawctxtQueueCmdobj
    split
    · next e hts => exact .refused e hts
    · next c₁ hts =>
      exact .cmd c₁ ht hts _ _

/-- One object is queued behind the others, or none. -/
theorem QueuesObj.contents {r : Queued} (hq : QueuesObj c x userTs c' r) (hc : Contents c l)
    (hroom : l.length + 1 < contextDrawqueueSize) :
    ∃ l', Contents c' l' ∧ l'.length ≤ l.length + 1 := by
  cases hq with
  | refused => exact ⟨l, hc, Nat.le_succ _⟩
  | untimed => exact ⟨_, hc.queue hroom, by simp⟩
  | bind c₁ ht hts =>
    obtain ⟨d, rfl⟩ := getTimestamp_ok hts
    exact ⟨_, Contents.queue (l := l) hc hroom, by simp⟩
  | retired c₁ ht hts =>
    obtain ⟨d, rfl⟩ := getTimestamp_ok hts
    exact ⟨l, hc, Nat.le_succ _⟩
  | marker c₁ ht hts =>
    obtain ⟨d, rfl⟩ := getTimestamp_ok hts
    exact ⟨_, Contents.queue (l := l) hc hroom, by simp⟩
  | cmd c₁ ht hts =>
    obtain ⟨d, rfl⟩ := getTimestamp_ok hts
    have hc₁ : Contents { c with timestamp := c.timestamp + d } l := hc
    have hs := setSkips_contents hc₁
    exact ⟨_, Contents.queue (l := l.map DrawObj.setSkip) hs (by simpa using hroom), by simp⟩

/-- **A call adds at most as many objects as it brought.** -/
theorem queueObjs_contents {r : Queued} :
    ∀ {objs : List DrawObj} {c l}, Contents c l →
      l.length + objs.length < contextDrawqueueSize → queueObjs c userTs objs = (c', r) →
      ∃ l', Contents c' l' ∧ l'.length ≤ l.length + objs.length := by
  intro objs
  induction objs with
  | nil =>
    rintro c l hc - h
    obtain ⟨rfl, rfl⟩ := Prod.mk.inj h
    exact ⟨l, hc, le_rfl⟩
  | cons x objs ih =>
    rintro c l hc hroom h
    rw [List.length_cons] at hroom ⊢
    rw [queueObjs] at h
    split at h
    · next c₁ hx =>
      obtain ⟨l₁, hc₁, hl₁⟩ := (queueObj_spec hx).contents hc (by omega)
      obtain ⟨l', hc', hl'⟩ := ih hc₁ (by omega) h
      exact ⟨l', hc', by omega⟩
    · obtain ⟨l₁, hc₁, hl₁⟩ := (queueObj_spec h).contents hc (by omega)
      exact ⟨l₁, hc₁, by omega⟩

theorem queueCmds_contents {r : Queued} {objs : List DrawObj} (hc : Contents c l)
    (hroom : l.length + objs.length < contextDrawqueueSize)
    (h : queueCmds c objs userTs = (c', r)) :
    ∃ l', Contents c' l' ∧ l'.length ≤ l.length + objs.length := by
  unfold queueCmds at h
  split at h
  · obtain ⟨rfl, rfl⟩ := Prod.mk.inj h
    exact ⟨l, hc, Nat.le_add_right _ _⟩
  · exact queueObjs_contents hc hroom h

/-! ## The count of a call that queues everything -/

theorem QueuesObj.queued_eq (hq : QueuesObj c x userTs c' .queued) :
    c'.queued = c.queued + 1 := by
  cases hq with
  | untimed => rfl
  | bind c₁ ht hts =>
    obtain ⟨d, rfl⟩ := getTimestamp_ok hts
    rfl
  | marker c₁ ht hts =>
    obtain ⟨d, rfl⟩ := getTimestamp_ok hts
    rfl
  | cmd c₁ ht hts =>
    obtain ⟨d, rfl⟩ := getTimestamp_ok hts
    obtain ⟨q, hq⟩ := setSkips_eq _ { c with timestamp := c.timestamp + d } c.head
    rw [hq]
    rfl

theorem queueObjs_queued : ∀ {objs : List DrawObj} {c : DrawCtxt},
    queueObjs c userTs objs = (c', .queued) → c'.queued = c.queued + objs.length := by
  intro objs
  induction objs with
  | nil =>
    rintro c h
    obtain ⟨rfl, -⟩ := Prod.mk.inj h
    rfl
  | cons x objs ih =>
    rintro c h
    rw [queueObjs] at h
    split at h
    · next c₁ hx =>
      rw [ih h, (queueObj_spec hx).queued_eq, List.length_cons]
      omega
    · next hno => exact absurd h (hno _)

/-! ## The objects of a call -/

/-- A sync or timeline object, which gets no timestamp. -/
def DrawObj.Untimed (x : DrawObj) : Prop := x.type = .sync ∨ x.type = .timeline

theorem UserSync.untimed {user : List DrawObj} (h : UserSync user) : ∀ x ∈ user, x.Untimed := by
  rcases h with rfl | ⟨id, pending, rfl⟩
  · simp
  · intro x hx
    rw [List.mem_singleton.1 hx]
    exact .inl rfl

/-- Only the last object of a call has a timestamp. -/
theorem Submits.split {objs : List DrawObj} (h : Submits c objs) :
    ∃ pre last, objs = pre ++ [last] ∧ ∀ x ∈ pre, x.Untimed := by
  have hsnoc : ∀ {user : List DrawObj} {y : DrawObj}, UserSync user → y.Untimed →
      ∀ x ∈ user ++ [y], x.Untimed := by
    intro user y hu hy x hx
    rcases List.mem_append.1 hx with hx | hx
    · exact hu.untimed x hx
    · exact List.mem_singleton.1 hx ▸ hy
  cases h with
  | sync id pending => exact ⟨[], _, rfl, by simp⟩
  | marker id eof => exact ⟨[], _, rfl, by simp⟩
  | command user id eof hu => exact ⟨user, _, rfl, hu.untimed⟩
  | bind user id id' hu => exact ⟨_, _, rfl, hsnoc hu (.inl rfl)⟩
  | timeline user id id' hu => exact ⟨_, _, rfl, hsnoc hu (.inr rfl)⟩

/-- The context after objects without a timestamp were queued. -/
def queueUntimed (c : DrawCtxt) (pre : List DrawObj) : DrawCtxt :=
  pre.foldl (fun c x => (drawctxtQueueUntimed c x).1) c

@[simp] theorem queueUntimed_timestamp (c : DrawCtxt) (pre : List DrawObj) :
    (queueUntimed c pre).timestamp = c.timestamp := by
  induction pre generalizing c with
  | nil => rfl
  | cons x pre ih => exact ih _

@[simp] theorem queueUntimed_userGeneratedTs (c : DrawCtxt) (pre : List DrawObj) :
    (queueUntimed c pre).userGeneratedTs = c.userGeneratedTs := by
  induction pre generalizing c with
  | nil => rfl
  | cons x pre ih => exact ih _

@[simp] theorem queueUntimed_queued (c : DrawCtxt) (pre : List DrawObj) :
    (queueUntimed c pre).queued = c.queued + pre.length := by
  induction pre generalizing c with
  | nil => rfl
  | cons x pre ih =>
    have hx : (drawctxtQueueUntimed c x).1.queued = c.queued + 1 := rfl
    refine (ih _).trans ?_
    rw [hx, List.length_cons]
    omega

theorem queueObjs_untimed {pre objs : List DrawObj} (hpre : ∀ x ∈ pre, x.Untimed) :
    queueObjs c userTs (pre ++ objs) = queueObjs (queueUntimed c pre) userTs objs := by
  induction pre generalizing c with
  | nil => rfl
  | cons x pre ih =>
    have hx : queueObj c x userTs = drawctxtQueueUntimed c x := by
      rcases hpre x List.mem_cons_self with hx | hx <;> rw [queueObj, hx]
    rw [List.cons_append, queueObjs, hx]
    exact ih fun y hy => hpre y (List.mem_cons_of_mem _ hy)

end Sm8850.Kgsl.Dispatch
