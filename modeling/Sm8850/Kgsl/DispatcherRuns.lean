/-
  The dispatcher forgets no context, unless a fault comes between its two looks.

  * `Linked`: the indices of a ring are in range and its slots have objects, also when it
    overflows.  It is what makes `NULL` mean an empty queue: `takeDrawobj_null`.
  * `queueCmds_kept`: a call of an ioctl queues its objects or leaves the ring alone.
  * `Run.Serves`: the run in progress is still to look at the context, or keeps its job.
  * `JobsInv`: every context that waits has a job or is served.
  * **`none_forgotten`**: no context is forgotten, in a run where the send loop of a context
    that has no other job finds no fault at its first look.
  * `job_lost`: a run in which it finds one.
-/
import Mathlib.Logic.Relation
import Sm8850.Kgsl.DrawqueueSpec
import Sm8850.Kgsl.Dispatcher

namespace Sm8850.Kgsl.Dispatch

variable {c c' : DrawCtxt} {x : DrawObj} {i userTs : ℕ}

/-! ## Rings that are linked -/

/-- The indices are in range, and the slots from the head to the tail have objects. -/
structure Linked (c : DrawCtxt) : Prop where
  head_lt : c.head < contextDrawqueueSize
  tail_lt : c.tail < contextDrawqueueSize
  slot : ∀ j < c.slots, c.drawqueue (c.slotAt j) ≠ none

theorem Linked.of_ring (h : Linked c) (hd : c'.drawqueue = c.drawqueue) (hh : c'.head = c.head)
    (ht : c'.tail = c.tail) : Linked c' := by
  refine ⟨hh ▸ h.head_lt, ht ▸ h.tail_lt, fun j hj => ?_⟩
  rw [hd, DrawCtxt.slotAt, hh]
  rw [DrawCtxt.slots, hh, ht] at hj
  exact h.slot j hj

theorem slots_eq_zero (hh : c.head < contextDrawqueueSize) (ht : c.tail < contextDrawqueueSize) :
    c.slots = 0 ↔ c.head = c.tail := by
  unfold DrawCtxt.slots contextDrawqueueSize at *
  omega

theorem Linked.of_empty (hh : c.head < contextDrawqueueSize) (he : c.head = c.tail) :
    Linked c := by
  refine ⟨hh, he ▸ hh, fun j hj => ?_⟩
  rw [(slots_eq_zero hh (he ▸ hh)).2 he] at hj
  exact absurd hj (Nat.not_lt_zero j)

theorem Linked.setSlot (h : Linked c) (i : ℕ) (x : DrawObj) : Linked (c.setSlot i x) := by
  refine ⟨h.head_lt, h.tail_lt, fun j hj => ?_⟩
  change Function.update c.drawqueue i (some x) (c.slotAt j) ≠ none
  by_cases hji : c.slotAt j = i
  · simp [hji]
  · rw [Function.update_of_ne hji]
    exact h.slot j hj

theorem Linked.pop (h : Linked c) (hne : c.head ≠ c.tail) : Linked (popDrawobj c) := by
  obtain ⟨hh, ht, hs⟩ := h
  have hslots : (popDrawobj c).slots + 1 = c.slots := by
    unfold DrawCtxt.slots popDrawobj drawqueueNext contextDrawqueueSize at *
    dsimp only
    omega
  refine ⟨Nat.mod_lt _ (by decide), ht, fun j hj => ?_⟩
  have hat : (popDrawobj c).slotAt j = c.slotAt (j + 1) := by
    unfold DrawCtxt.slotAt popDrawobj drawqueueNext
    rw [Nat.mod_add_mod]
    congr 1
    omega
  rw [hat]
  exact hs (j + 1) (by omega)

theorem Linked.queue (h : Linked c) (x : DrawObj) : Linked (queueDrawobj c x) := by
  obtain ⟨hh, ht, hs⟩ := h
  refine ⟨hh, Nat.mod_lt _ (by decide), fun j hj => ?_⟩
  have hj' : j ≤ c.slots := by
    unfold queueDrawobj DrawCtxt.setSlot DrawCtxt.slots drawqueueNext contextDrawqueueSize at *
    dsimp only at hj
    omega
  change Function.update c.drawqueue c.tail (some x) (c.slotAt j) ≠ none
  by_cases hjt : c.slotAt j = c.tail
  · simp [hjt]
  · rw [Function.update_of_ne hjt]
    refine hs j (Nat.lt_of_le_of_ne hj' ?_)
    rintro rfl
    refine hjt ?_
    unfold DrawCtxt.slotAt DrawCtxt.slots contextDrawqueueSize at *
    omega

theorem Linked.requeue (h : Linked c) (x : DrawObj) : Linked (requeueCmdobj c x).1 := by
  unfold requeueCmdobj
  split
  · exact h
  · obtain ⟨hh, ht, hs⟩ := h
    dsimp only
    have hnext := drawqueueNext_prev hh
    set prev := if c.head = 0 then contextDrawqueueSize - 1 else c.head - 1 with hp
    have hprev : prev < contextDrawqueueSize := by
      rw [hp]
      split <;> unfold contextDrawqueueSize at * <;> omega
    refine ⟨hprev, ht, ?_⟩
    rintro (_ | j) hj
    · change Function.update c.drawqueue prev _ (prev % contextDrawqueueSize) ≠ none
      rw [Nat.mod_eq_of_lt hprev, Function.update_self]
      exact Option.some_ne_none _
    · have hat : (prev + (j + 1)) % contextDrawqueueSize = c.slotAt j := by
        rw [DrawCtxt.slotAt, ← hnext, drawqueueNext, Nat.mod_add_mod]
        congr 1
        omega
      change Function.update c.drawqueue prev _ ((prev + (j + 1)) % contextDrawqueueSize) ≠ none
      rw [hat]
      by_cases hjp : c.slotAt j = prev
      · simp [hjp]
      · rw [Function.update_of_ne hjp]
        refine hs j ?_
        change j + 1 < (c.tail + contextDrawqueueSize - prev) % contextDrawqueueSize at hj
        unfold DrawCtxt.slots drawqueueNext contextDrawqueueSize at *
        omega

theorem Retires.linked {r : Retire} (hr : Retires c i x c' r) (h : Linked c)
    (hne : c.head ≠ c.tail) : Linked c' := by
  cases hr with
  | cmd | skipped | blocked => exact h
  | expired | bound =>
    exact (h.pop hne).of_ring rfl rfl rfl
  | signaled | timeline => exact h.pop hne
  | started => exact h.setSlot i _

/-- The loop ends at a linked ring, and without an object only at an empty one. -/
theorem processFrom_linked {r : Next} : ∀ {n : ℕ} {c : DrawCtxt}, Linked c → c.slots = n →
    processFrom c c.head n = (c', r) →
    Linked c' ∧ (r = .null → c'.head = c'.tail) ∧
      ∀ x, r = .obj x → c'.head ≠ c'.tail := by
  intro n
  induction n with
  | zero =>
    rintro c h hn hp
    obtain ⟨rfl, rfl⟩ := Prod.mk.inj hp
    exact ⟨h, fun _ => (slots_eq_zero h.head_lt h.tail_lt).1 hn, by intros; contradiction⟩
  | succ n ih =>
    rintro c h hn hp
    have hne : c.head ≠ c.tail := by
      rw [Ne, ← slots_eq_zero h.head_lt h.tail_lt]
      omega
    have hslot := h.slot 0 (by omega)
    rw [DrawCtxt.slotAt, Nat.add_zero, Nat.mod_eq_of_lt h.head_lt] at hslot
    obtain ⟨x, hx⟩ := Option.ne_none_iff_exists'.1 hslot
    rw [processFrom, hx] at hp
    dsimp only at hp
    split at hp
    · next c₁ hr =>
      have hr := retireObj_spec hr
      have hslots : c₁.slots = n := by
        have hpop : (popDrawobj c).slots = n := by
          have hh := h.head_lt
          have ht := h.tail_lt
          unfold DrawCtxt.slots popDrawobj drawqueueNext contextDrawqueueSize at *
          dsimp only
          omega
        cases hr <;> exact hpop
      rw [← hr.head_eq] at hp
      exact ih (hr.linked h hne) hslots hp
    · next c₁ hr =>
      obtain rfl := (retireObj_spec hr).send_eq
      obtain ⟨rfl, rfl⟩ := Prod.mk.inj hp
      exact ⟨h, by intros; contradiction, fun _ _ => hne⟩
    · next c₁ hr =>
      have hr := retireObj_spec hr
      obtain ⟨rfl, rfl⟩ := Prod.mk.inj hp
      exact ⟨hr.linked h hne, by intros; contradiction, by intros; contradiction⟩

theorem processDrawqueue_linked {r : Next} (h : Linked c)
    (hp : processDrawqueueGetNextDrawobj c = (c', r)) : Linked c' :=
  (processFrom_linked h rfl hp).1

theorem takeDrawobj_linked {r : Next} (h : Linked c) (hp : takeDrawobj c = (c', r)) :
    Linked c' := by
  unfold takeDrawobj at hp
  split at hp
  · next c₁ x hx =>
    obtain ⟨hl, -, hne⟩ := processFrom_linked h rfl hx
    obtain ⟨rfl, rfl⟩ := Prod.mk.inj hp
    exact hl.pop (hne x rfl)
  · exact processDrawqueue_linked h hp

/-- Without an object and without an error, the queue is empty. -/
theorem takeDrawobj_null (h : Linked c) (hp : takeDrawobj c = (c', .null)) :
    c'.head = c'.tail := by
  unfold takeDrawobj at hp
  split at hp
  · obtain ⟨-, hx⟩ := Prod.mk.inj hp
    cases hx
  · exact (processFrom_linked h rfl hp).2.1 rfl

theorem processFrom_err {e : Errno} : ∀ {n : ℕ} {c : DrawCtxt} {i : ℕ},
    processFrom c i n = (c', .err e) → e = .again := by
  intro n
  induction n with
  | zero =>
    rintro c i hp
    cases hp
  | succ n ih =>
    rintro c i hp
    rw [processFrom] at hp
    split at hp
    · cases hp
    · split at hp
      · exact ih hp
      · cases hp
      · cases hp
        rfl

/-- The only error is that an object blocks the queue. -/
theorem takeDrawobj_err {e : Errno} (hp : takeDrawobj c = (c', .err e)) : e = .again := by
  unfold takeDrawobj at hp
  split at hp
  · cases hp
  · exact processFrom_err hp

theorem requeueCmdobj_err {e : Errno} (h : requeueCmdobj c x = (c', some e)) :
    c' = c ∧ c.isBad = true := by
  unfold requeueCmdobj at h
  split at h
  · next hbad =>
    cases h
    exact ⟨rfl, hbad⟩
  · cases h

theorem setSkips_linked : ∀ (n : ℕ) {c : DrawCtxt} (j : ℕ), Linked c → Linked (setSkips c j n) := by
  intro n
  induction n with
  | zero => exact fun _ h => h
  | succ n ih =>
    intro c j h
    rw [setSkips]
    split
    · exact ih _ h
    · exact ih _ (h.setSlot j _)

theorem QueuesObj.linked {r : Queued} (hq : QueuesObj c x userTs c' r) (h : Linked c) :
    Linked c' := by
  cases hq with
  | refused => exact h
  | untimed => exact h.queue _
  | bind c₁ ht hts | marker c₁ ht hts =>
    obtain ⟨d, rfl⟩ := getTimestamp_ok hts
    apply Linked.queue
    exact h.of_ring rfl rfl rfl
  | retired c₁ ht hts =>
    obtain ⟨d, rfl⟩ := getTimestamp_ok hts
    exact h.of_ring rfl rfl rfl
  | cmd c₁ ht hts =>
    obtain ⟨d, rfl⟩ := getTimestamp_ok hts
    have hs := setSkips_linked (DrawCtxt.slots c) c.head
      (c := { c with timestamp := c.timestamp + d }) (h.of_ring rfl rfl rfl)
    apply Linked.queue
    exact hs.of_ring rfl rfl rfl

theorem queueObjs_linked {r : Queued} : ∀ {objs : List DrawObj} {c : DrawCtxt}, Linked c →
    queueObjs c userTs objs = (c', r) → Linked c' := by
  intro objs
  induction objs with
  | nil =>
    rintro c h hq
    obtain ⟨rfl, -⟩ := Prod.mk.inj hq
    exact h
  | cons x objs ih =>
    rintro c h hq
    rw [queueObjs] at hq
    split at hq
    · next c₁ hx => exact ih ((queueObj_spec hx).linked h) hq
    · exact (queueObj_spec hq).linked h

theorem queueCmds_linked {objs : List DrawObj} {r : Queued} (h : Linked c)
    (hq : queueCmds c objs userTs = (c', r)) : Linked c' := by
  unfold queueCmds at hq
  split at hq
  · obtain ⟨rfl, -⟩ := Prod.mk.inj hq
    exact h
  · exact queueObjs_linked h hq

/-! ## Calls of the ioctls -/

/-- An object that is not queued leaves the ring alone. -/
theorem QueuesObj.ring_eq {r : Queued} (hq : QueuesObj c x userTs c' r) (hr : r ≠ .queued) :
    c'.head = c.head ∧ c'.tail = c.tail := by
  cases hq with
  | refused => exact ⟨rfl, rfl⟩
  | retired c₁ ht hts =>
    obtain ⟨d, rfl⟩ := getTimestamp_ok hts
    exact ⟨rfl, rfl⟩
  | _ => exact absurd rfl hr

/-- A timestamp that was compared at the start of the call is still in order, and a marker
    behind other objects is not retired at once. -/
theorem QueuesObj.queued_of_compared {r : Queued} (hq : QueuesObj c x userTs c' r)
    (hcmp : ¬ (c.userGeneratedTs = true ∧ 0 ≤ timestampCmp c.timestamp userTs))
    (hqueued : c.queued ≠ 0) : r = .queued := by
  cases hq with
  | refused e hts =>
    unfold getTimestamp at hts
    split at hts
    · next hown =>
      rw [if_neg fun h => hcmp ⟨hown, h⟩] at hts
      cases hts
    · cases hts
  | retired c₁ ht hts hempty =>
    obtain ⟨d, rfl⟩ := getTimestamp_ok hts
    exact absurd hempty hqueued
  | _ => rfl

/-- **A call of an ioctl queues its objects, or leaves the ring alone.** -/
theorem queueCmds_kept {c₀ : DrawCtxt} {objs : List DrawObj} {r : Queued} (h : Submits c₀ objs)
    (hq : queueCmds c objs userTs = (c', r)) :
    r = .queued ∨ c'.head = c.head ∧ c'.tail = c.tail := by
  obtain ⟨pre, last, rfl, hpre⟩ := h.split
  unfold queueCmds at hq
  split at hq
  · obtain ⟨rfl, -⟩ := Prod.mk.inj hq
    exact .inr ⟨rfl, rfl⟩
  · next hcmp =>
    rw [queueObjs_untimed hpre, queueObjs] at hq
    split at hq
    · obtain ⟨-, rfl⟩ := Prod.mk.inj hq
      exact .inl rfl
    · have hx := queueObj_spec hq
      cases pre with
      | nil => exact (eq_or_ne r .queued).imp_right hx.ring_eq
      | cons y pre =>
        refine .inl (hx.queued_of_compared ?_ ?_)
        · rw [queueUntimed_userGeneratedTs, queueUntimed_timestamp]
          cases pre <;> exact hcmp
        · rw [queueUntimed_queued, List.length_cons]
          omega

/-- The objects of a thread are those of an ioctl. -/
def Thread.OfIoctl (t : Thread) : Prop := t.objs = [] ∨ ∃ c₀, Submits c₀ t.objs

theorem isBad_of_checkState (h : c.checkState = none) : c.isBad = false := by
  unfold DrawCtxt.checkState at h
  unfold DrawCtxt.isBad
  cases hi : c.invalid <;> cases hd : c.detached <;> simp_all

/-- One section of a call queues the objects, or leaves the ring of a context alone that is
    as bad as before. -/
structure CallKept (c c' : DrawCtxt) (t' : Thread) : Prop where
  form : t'.OfIoctl
  linked : Linked c → Linked c'
  ring : t' = .handing ∨ c'.head = c.head ∧ c'.tail = c.tail
  state : c' = c ∨ c.isBad = false

theorem CallKept.queued {objs : List DrawObj} {r : Queued} (hstate : c.checkState = none)
    (ho : objs = [] ∨ ∃ c₀, Submits c₀ objs) (hq : queueCmds c objs userTs = (c', r)) :
    CallKept c c' r.after := by
  refine ⟨.inl (by cases r <;> rfl), fun h => queueCmds_linked h hq, ?_,
    .inr (isBad_of_checkState hstate)⟩
  rcases ho with rfl | ⟨c₀, ho⟩
  · unfold queueCmds at hq
    split at hq <;> obtain ⟨rfl, -⟩ := Prod.mk.inj hq <;> exact .inr ⟨rfl, rfl⟩
  · rcases queueCmds_kept ho hq with rfl | hring
    · exact .inl rfl
    · exact .inr hring

theorem CallStep.kept {size : ℕ} {t t' : Thread} (h : CallStep size c t c' t')
    (ho : t.OfIoctl) : CallKept c c' t' := by
  cases h with
  | insert objs userTs c' r hstate hfits hq => exact .queued hstate ho hq
  | resume objs userTs c' r hstate hq => exact .queued hstate ho hq
  | allow | sleep | wake => exact ⟨ho, id, .inr ⟨rfl, rfl⟩, .inl rfl⟩
  | refuse | enterBad | giveUp | resumeBad => exact ⟨.inl rfl, id, .inr ⟨rfl, rfl⟩, .inl rfl⟩

/-! ## The invariant -/

/-- The job is not dropped at this stage. -/
def Stage.Keeps : Stage → Prop
  | .returned ret => ret.drops = false
  | _ => True

/-- The run in progress is still to look at the context, or keeps its job. -/
def Run.Serves : Run → ℕ → Prop
  | .tookRequeue _ l, c => c ∈ l
  | .list _ map todo, c => c ∈ todo ∧ c ∉ map
  | .serving job stage, c => c = job.ctx ∧ stage.Keeps ∨ c ∈ job.todo ∧ c ∉ job.map
  | _, _ => False

/-- The jobs that the run has in hand are of the priority that it handles. -/
def Run.Placed (prio : ℕ → ℕ) : Run → Prop
  | .tookRequeue i l => ∀ c ∈ l, prio c = i
  | .list i _ todo => ∀ c ∈ todo, prio c = i
  | .serving job _ => prio job.ctx = job.prio ∧ ∀ c ∈ job.todo, prio c = job.prio
  | _ => True

/-- Every context that waits has a job or is served. -/
structure JobsInv (w : Dispatcher) : Prop where
  linked : ∀ c, Linked (w.ctx c)
  burst_pos : 1 ≤ w.burst
  jobs_prio : ∀ i, ∀ c ∈ w.jobs i, w.prio c = i
  requeue_prio : ∀ i, ∀ c ∈ w.requeue i, w.prio c = i
  placed : w.run.Placed w.prio
  form : ∀ k, (w.thread k).2.OfIoctl
  covered : ∀ c, w.Waits c → w.HasJob c ∨ w.run.Serves c

variable {w w' : Dispatcher} {job : Job} {stage stage' : Stage}

/-- The run goes on elsewhere, and the flags of the GPU may change. -/
theorem JobsInv.move (h : JobsInv w) {r : Run} (fault : Bool) (halt : ℕ) (hp : r.Placed w.prio)
    (hs : ∀ c, w.Waits c → w.run.Serves c → w.HasJob c ∨ r.Serves c) :
    JobsInv { w with fault := fault, halt := halt, run := r } where
  linked := h.linked
  burst_pos := h.burst_pos
  jobs_prio := h.jobs_prio
  requeue_prio := h.requeue_prio
  placed := hp
  form := h.form
  covered c hc := (h.covered c hc).elim .inl (hs c hc)

/-- The run gets on with a job and keeps it. -/
theorem JobsInv.serve (h : JobsInv w) (hr : w.run = .serving job stage)
    (hk : w.Waits job.ctx → stage'.Keeps ∨ w.HasJob job.ctx) :
    JobsInv (w.serve job stage') := by
  have hp := h.placed
  rw [hr] at hp
  refine h.move w.fault w.halt hp ?_
  rw [hr]
  rintro c hc (⟨rfl, -⟩ | hc')
  · exact (hk hc).symm.imp_right fun hkeeps => .inl ⟨rfl, hkeeps⟩
  · exact .inr (.inr hc')

/-- The run is done with a job. -/
theorem JobsInv.goOn (h : JobsInv w) (hr : w.run = .serving job stage)
    (hk : stage.Keeps → w.HasJob job.ctx) : JobsInv (w.goOn job) := by
  have hp := h.placed
  rw [hr] at hp
  refine h.move w.fault w.halt hp.2 ?_
  rw [hr]
  rintro c hc (⟨rfl, hkeeps⟩ | hc')
  · exact .inl (hk hkeeps)
  · exact .inr hc'

theorem Dispatcher.setCtx_self (w : Dispatcher) (c : ℕ) (x : DrawCtxt) :
    (w.setCtx c x).ctx c = x := Function.update_self ..

theorem Dispatcher.setCtx_ne (w : Dispatcher) {c d : ℕ} (x : DrawCtxt) (h : d ≠ c) :
    (w.setCtx c x).ctx d = w.ctx d := Function.update_of_ne h ..

theorem Dispatcher.waits_setCtx_ne {d e : ℕ} {x : DrawCtxt} (h : d ≠ e) :
    (w.setCtx e x).Waits d ↔ w.Waits d := by
  unfold Waits
  rw [setCtx_ne w x h]

theorem Dispatcher.waits_setCtx_self {d : ℕ} {x : DrawCtxt} :
    (w.setCtx d x).Waits d ↔ x.isBad = false ∧ x.head ≠ x.tail := by
  unfold Waits
  rw [setCtx_self]

/-- A context changes.  It may wait now only if it did, or if it has a job all the same. -/
theorem JobsInv.setCtx (h : JobsInv w) {d : ℕ} {x : DrawCtxt} (hl : Linked x)
    (hw : x.isBad = false → x.head ≠ x.tail →
      w.Waits d ∨ w.HasJob d ∨ w.run.Serves d) : JobsInv (w.setCtx d x) where
  linked e := by
    by_cases he : e = d
    · rw [he, Dispatcher.setCtx_self]
      exact hl
    · rw [Dispatcher.setCtx_ne w x he]
      exact h.linked e
  burst_pos := h.burst_pos
  jobs_prio := h.jobs_prio
  requeue_prio := h.requeue_prio
  placed := h.placed
  form := h.form
  covered e he := by
    by_cases hed : e = d
    · subst hed
      obtain ⟨hbad, hne⟩ := Dispatcher.waits_setCtx_self.1 he
      exact (hw hbad hne).elim (h.covered e) id
    · exact h.covered e ((Dispatcher.waits_setCtx_ne hed).1 he)

theorem Dispatcher.HasJob.addJob {c d i : ℕ} (h : w.HasJob c) : (w.addJob i d).HasJob c := by
  rcases h with h | h
  · left
    change c ∈ Function.update w.jobs i (d :: w.jobs i) (w.prio c)
    by_cases hi : w.prio c = i
    · subst hi
      simp [h]
    · rwa [Function.update_of_ne hi]
  · exact .inr h

theorem Dispatcher.HasJob.addRequeue {c d i : ℕ} (h : w.HasJob c) :
    (w.addRequeue i d).HasJob c := by
  rcases h with h | h | h
  · exact .inl h
  · right
    left
    change c ∈ Function.update w.requeue i (d :: w.requeue i) (w.prio c)
    by_cases hi : w.prio c = i
    · subst hi
      simp [h]
    · rwa [Function.update_of_ne hi]
  · exact .inr (.inr h)

/-- A job is added for a context of the priority. -/
theorem JobsInv.addJob (h : JobsInv w) {i d : ℕ} (hi : w.prio d = i) :
    JobsInv (w.addJob i d) ∧ d ∈ (w.addJob i d).jobs (w.prio d) := by
  refine ⟨⟨h.linked, h.burst_pos, fun j c hc => ?_, h.requeue_prio, h.placed, h.form,
    fun c hc => (h.covered c hc).imp_left .addJob⟩, ?_⟩
  · change c ∈ Function.update w.jobs i (d :: w.jobs i) j at hc
    by_cases hj : j = i
    · subst hj
      rw [Function.update_self] at hc
      rcases List.mem_cons.1 hc with rfl | hc
      · exact hi
      · exact h.jobs_prio j c hc
    · rw [Function.update_of_ne hj] at hc
      exact h.jobs_prio j c hc
  · change d ∈ Function.update w.jobs i (d :: w.jobs i) (w.prio d)
    rw [hi, Function.update_self]
    exact List.mem_cons_self

theorem JobsInv.addRequeue (h : JobsInv w) {i d : ℕ} (hi : w.prio d = i) :
    JobsInv (w.addRequeue i d) ∧ (w.addRequeue i d).HasJob d := by
  refine ⟨⟨h.linked, h.burst_pos, h.jobs_prio, fun j c hc => ?_, h.placed, h.form,
    fun c hc => (h.covered c hc).imp_left .addRequeue⟩, .inr (.inl ?_)⟩
  · change c ∈ Function.update w.requeue i (d :: w.requeue i) j at hc
    by_cases hj : j = i
    · subst hj
      rw [Function.update_self] at hc
      rcases List.mem_cons.1 hc with rfl | hc
      · exact hi
      · exact h.requeue_prio j c hc
    · rw [Function.update_of_ne hj] at hc
      exact h.requeue_prio j c hc
  · change d ∈ Function.update w.requeue i (d :: w.requeue i) (w.prio d)
    rw [hi, Function.update_self]
    exact List.mem_cons_self

/-! ## Runs -/

/-- The send loop of a context that waits and has no other job finds no fault at its first
    look. -/
def FaultSpares (w : Dispatcher) : Prop :=
  ∀ job, w.run = .serving job (.sending 0) → w.fault = true → w.Waits job.ctx →
    w.HasJob job.ctx

/-- The context of the job changes, and the job is kept if it waits then. -/
theorem JobsInv.serveCtx (h : JobsInv w) (hr : w.run = .serving job stage) {x : DrawCtxt}
    (hl : Linked x) (hkeeps : stage.Keeps)
    (hk : x.isBad = false → x.head ≠ x.tail → stage'.Keeps) :
    JobsInv ((w.setCtx job.ctx x).serve job stage') := by
  have hc := h.setCtx (d := job.ctx) hl fun _ _ => .inr (.inr (hr ▸ .inl ⟨rfl, hkeeps⟩))
  refine hc.serve hr fun hw => .inl ?_
  obtain ⟨hbad, hne⟩ := Dispatcher.waits_setCtx_self.1 hw
  exact hk hbad hne

/-- The lists of a priority are taken. -/
theorem JobsInv.takeLists {i : ℕ} (h : JobsInv w) {requeue : List ℕ}
    (hr : w.run = .tookRequeue i requeue) :
    JobsInv { w with
      jobs := Function.update w.jobs i []
      run := .list i [] (requeue.reverse ++ (w.jobs i).reverse) } where
  linked := h.linked
  burst_pos := h.burst_pos
  jobs_prio j c hc := by
    dsimp only at hc
    by_cases hj : j = i
    · subst hj
      simp at hc
    · rw [Function.update_of_ne hj] at hc
      exact h.jobs_prio j c hc
  requeue_prio := h.requeue_prio
  placed := by
    have hp := h.placed
    rw [hr] at hp
    rintro c hc
    rcases List.mem_append.1 hc with hc | hc
    · exact hp c (List.mem_reverse.1 hc)
    · exact h.jobs_prio i c (List.mem_reverse.1 hc)
  form := h.form
  covered c hc := by
    rcases h.covered c hc with (hjob | hother) | hserved
    · by_cases hi : w.prio c = i
      · subst hi
        exact .inr ⟨List.mem_append_right _ (List.mem_reverse.2 hjob), List.not_mem_nil⟩
      · refine .inl (.inl ?_)
        change c ∈ Function.update w.jobs i [] (w.prio c)
        rwa [Function.update_of_ne hi]
    · exact .inl (.inr hother)
    · rw [hr] at hserved
      exact .inr ⟨List.mem_append_left _ (List.mem_reverse.2 hserved), List.not_mem_nil⟩

theorem JobsInv.takeRequeue {i : ℕ} (h : JobsInv w) (hr : w.run = .prio i) :
    JobsInv { w with
      requeue := Function.update w.requeue i [], run := .tookRequeue i (w.requeue i) } where
  linked := h.linked
  burst_pos := h.burst_pos
  jobs_prio := h.jobs_prio
  requeue_prio j c hc := by
    dsimp only at hc
    by_cases hj : j = i
    · subst hj
      simp at hc
    · rw [Function.update_of_ne hj] at hc
      exact h.requeue_prio j c hc
  placed c hc := h.requeue_prio i c hc
  form := h.form
  covered c hc := by
    rcases h.covered c hc with (hjob | hreq | hhand) | hserved
    · exact .inl (.inl hjob)
    · by_cases hi : w.prio c = i
      · subst hi
        exact .inr hreq
      · refine .inl (.inr (.inl ?_))
        change c ∈ Function.update w.requeue i [] (w.prio c)
        rwa [Function.update_of_ne hi]
    · exact .inl (.inr (.inr hhand))
    · rw [hr] at hserved
      exact hserved.elim

/-- **One access of a run of the dispatcher.** -/
theorem JobsInv.run (h : JobsInv w) {r : Run} (hr : w.run = r) (hs : RunStep w r w')
    (hspares : FaultSpares w) : JobsInv w' := by
  have hp := h.placed
  rw [hr] at hp
  cases hs with
  | work | issueInline | noFault | powerOff | stalled | faulted | clearHalt | reset | replayed
  | leave | start | finish | allHandled =>
    refine h.move _ _ trivial ?_
    rw [hr]
    exact fun _ _ hc => hc.elim
  | takeRequeue i hi => exact h.takeRequeue hr
  | takeJobs i requeue => exact h.takeLists hr
  | listEnd i map =>
    refine h.move _ _ trivial ?_
    rw [hr]
    exact fun c _ hc => absurd hc.1 List.not_mem_nil
  | dropBad i d map todo hbad =>
    refine h.move _ _ (fun c hc => hp c (List.mem_cons_of_mem _ hc)) ?_
    rw [hr]
    rintro c hc ⟨hmem, hmap⟩
    rcases List.mem_cons.1 hmem with rfl | hmem
    · rw [hc.1] at hbad
      cases hbad
    · exact .inr ⟨hmem, hmap⟩
  | dropSeen i d map todo hbad hd =>
    refine h.move _ _ (fun c hc => hp c (List.mem_cons_of_mem _ hc)) ?_
    rw [hr]
    rintro c hc ⟨hmem, hmap⟩
    rcases List.mem_cons.1 hmem with rfl | hmem
    · exact absurd hd hmap
    · exact .inr ⟨hmem, hmap⟩
  | look i d map todo hbad hd =>
    refine h.move _ _ ⟨hp d List.mem_cons_self, fun c hc => hp c (List.mem_cons_of_mem _ hc)⟩ ?_
    rw [hr]
    rintro c hc ⟨hmem, hmap⟩
    by_cases hcd : c = d
    · exact .inr (.inl ⟨hcd, trivial⟩)
    · refine .inr (.inr ⟨(List.mem_cons.1 hmem).resolve_left hcd, ?_⟩)
      rintro hc
      exact (List.mem_cons.1 hc).elim hcd hmap
  | stoppedFault job hf | stoppedHalt job hf =>
    obtain ⟨hadd, hjob⟩ := h.addJob hp.1
    exact hadd.goOn hr fun _ => .inl hjob
  | notFaulted | enter | firstPass | pass | noFaultSeen | sent | sendFailed =>
    exact h.serve hr fun _ => .inl trivial
  | busy job c r hb =>
    exact h.serveCtx hr (processDrawqueue_linked (h.linked _) hb) trivial fun _ _ => rfl
  | loopEnd job count hend =>
    have := h.burst_pos
    refine h.serve hr fun _ => .inl ?_
    simp only [Stage.Keeps, SendRet.drops, decide_eq_false_iff_not]
    omega
  | faultSeen job count hf =>
    refine h.serve hr fun hw => ?_
    by_cases hcount : count = 0
    · subst hcount
      exact .inr (hspares job hr hf hw)
    · exact .inl (decide_eq_false hcount)
  | takeNull job count c ht =>
    refine h.serveCtx hr (takeDrawobj_linked (h.linked _) ht) trivial fun _ hne => ?_
    exact absurd (takeDrawobj_null (h.linked _) ht) hne
  | takeErr job count c e ht =>
    obtain rfl := takeDrawobj_err ht
    exact h.serveCtx hr (takeDrawobj_linked (h.linked _) ht) trivial fun _ _ => rfl
  | take job count c x ht =>
    exact h.serveCtx hr (takeDrawobj_linked (h.linked _) ht) trivial fun _ _ => trivial
  | sendDetached job count x hdet =>
    refine h.serve hr fun hw => ?_
    have := hw.1
    simp [DrawCtxt.isBad, hdet] at this
  | requeued job x e he c hq =>
    have hl := (h.linked job.ctx).requeue x
    rw [hq] at hl
    exact h.serveCtx hr hl trivial fun _ _ => decide_eq_false he
  | requeueFailed job x e e' he c hq =>
    obtain ⟨rfl, hbad⟩ := requeueCmdobj_err hq
    refine h.serveCtx hr (h.linked _) trivial fun hgood => ?_
    rw [hgood] at hbad
    cases hbad
  | drop job ret hd =>
    refine h.goOn hr fun hk => ?_
    rw [Stage.Keeps, hd] at hk
    cases hk
  | keepFirst job =>
    obtain ⟨hadd, hjob⟩ := h.addRequeue hp.1
    exact hadd.goOn hr fun _ => hjob
  | keep job ret hd hb =>
    obtain ⟨hadd, hjob⟩ := h.addJob hp.1
    exact hadd.goOn hr fun _ => .inl hjob

theorem storeContextBurstCount_pos {val burst : ℕ}
    (h : storeContextBurstCount val = some burst) : 1 ≤ burst := by
  unfold storeContextBurstCount storeUint at h
  split at h
  · cases h
  · next hval =>
    cases h
    omega

/-- A thread goes on, and does not forget to add its job. -/
theorem JobsInv.setThread (h : JobsInv w) {k d : ℕ} {t : Thread} (ht : t.OfIoctl)
    (hk : ∀ e, w.thread k = (e, .handing) → e ∈ w.jobs (w.prio e)) :
    JobsInv (w.setThread k d t) where
  linked := h.linked
  burst_pos := h.burst_pos
  jobs_prio := h.jobs_prio
  requeue_prio := h.requeue_prio
  placed := h.placed
  form j := by
    change (Function.update w.thread k (d, t) j).2.OfIoctl
    by_cases hj : j = k
    · rw [hj, Function.update_self]
      exact ht
    · rw [Function.update_of_ne hj]
      exact h.form j
  covered e he := by
    refine (h.covered e he).imp_left ?_
    rintro (hjob | hreq | ⟨j, hj⟩)
    · exact .inl hjob
    · exact .inr (.inl hreq)
    · by_cases hjk : j = k
      · exact .inl (hk e (hjk ▸ hj))
      · refine .inr (.inr ⟨j, ?_⟩)
        change Function.update w.thread k (d, t) j = (e, .handing)
        rwa [Function.update_of_ne hjk]

theorem CallStep.ne_handing {size : ℕ} {t t' : Thread} (h : CallStep size c t c' t') :
    t ≠ .handing := by
  cases h <;> nofun

/-- **One access of anybody.** -/
theorem JobsInv.step (h : JobsInv w) (hs : DispatchStep w w') (hspares : FaultSpares w) :
    JobsInv w' := by
  cases hs with
  | run r w' hr hrun => exact h.run hr hrun hspares
  | call k d e objs userTs hidle hsub =>
    refine h.setThread (.inr ⟨_, hsub⟩) fun f hf => ?_
    rw [hidle] at hf
    cases hf
  | thread k d x t t' ht hcall =>
    have hkept := hcall.kept (by simpa [ht] using h.form k)
    have hthread : JobsInv (w.setThread k d t') := by
      refine h.setThread hkept.form fun f hf => ?_
      rw [ht] at hf
      cases hf
      exact absurd rfl hcall.ne_handing
    refine hthread.setCtx (hkept.linked (h.linked d)) fun hbad hne => ?_
    rcases hkept.ring with rfl | ⟨hhead, htail⟩
    · exact .inr (.inl (.inr (.inr ⟨k, Function.update_self ..⟩)))
    · refine .inl ⟨?_, by rwa [hhead, htail] at hne⟩
      rcases hkept.state with rfl | hgood
      · exact hbad
      · exact hgood
  | handOver k d hk =>
    obtain ⟨hadd, hjob⟩ := h.addJob (d := d) rfl
    refine hadd.setThread (.inl rfl) fun f hf => ?_
    obtain rfl : f = d := by
      have : w.thread k = (f, .handing) := hf
      rw [hk] at this
      exact (Prod.mk.inj this).1.symm
    exact hjob
  | queueContext d hdet => exact (h.addJob rfl).1
  | storeSize val size hst =>
    exact ⟨h.linked, h.burst_pos, h.jobs_prio, h.requeue_prio, h.placed, h.form, h.covered⟩
  | storeBurst val burst hst =>
    refine ⟨h.linked, ?_, h.jobs_prio, h.requeue_prio, h.placed, h.form, h.covered⟩
    exact storeContextBurstCount_pos hst
  | event d i x x' hx hid ht =>
    exact h.setCtx ((h.linked d).setSlot i x') fun hbad hne => .inl ⟨hbad, hne⟩
  | retired d ts =>
    refine h.setCtx ?_ fun hbad hne => .inl ⟨hbad, hne⟩
    exact (h.linked d).of_ring rfl rfl rfl
  | fault => exact h.move true w.halt h.placed fun _ _ hc => .inr hc
  | haltGet => exact h.move w.fault (w.halt + 1) h.placed fun _ _ hc => .inr hc
  | haltPut hpos => exact h.move w.fault (w.halt - 1) h.placed fun _ _ hc => .inr hc
  | invalidate d =>
    refine h.setCtx (Linked.of_empty (h.linked d).tail_lt rfl) fun hbad _ => ?_
    simp [DrawCtxt.isBad, DrawCtxt.invalidate] at hbad
  | detach d =>
    refine h.setCtx ((h.linked d).of_ring rfl rfl rfl) fun hbad _ => ?_
    simp [DrawCtxt.isBad] at hbad
  | drain d hdet =>
    exact h.setCtx (Linked.of_empty (h.linked d).tail_lt rfl) fun _ hne => absurd rfl hne

theorem JobsInv.init {size burst : ℕ} (hb : 1 ≤ burst) (prio : ℕ → ℕ)
    (userGeneratedTs ifhNop : ℕ → Bool) :
    JobsInv (Dispatcher.init size burst prio userGeneratedTs ifhNop) where
  linked _ := Linked.of_empty (Nat.succ_pos 127) rfl
  burst_pos := hb
  jobs_prio _ _ hc := absurd hc List.not_mem_nil
  requeue_prio _ _ hc := absurd hc List.not_mem_nil
  placed := trivial
  form _ := .inl rfl
  covered _ hc := absurd rfl hc.2

/-- A run in which every send loop that finds a fault at its first look is spared by it. -/
abbrev SparedRun : Dispatcher → Dispatcher → Prop :=
  Relation.ReflTransGen fun w w' => DispatchStep w w' ∧ FaultSpares w

theorem JobsInv.sparedRun (h : JobsInv w) (hrun : SparedRun w w') : JobsInv w' := by
  induction hrun with
  | refl => exact h
  | tail _ hs ih => exact ih.step hs.1 hs.2

theorem JobsInv.noneForgotten (h : JobsInv w) : NoneForgotten w := by
  intro hidle d hd
  refine (h.covered d hd).resolve_right ?_
  rw [hidle]
  exact id

/-- **The dispatcher forgets no context**, if no fault comes between its two looks at one
    that has no other job. -/
theorem none_forgotten {val burst size : ℕ} {prio : ℕ → ℕ} {userGeneratedTs ifhNop : ℕ → Bool}
    (hburst : storeContextBurstCount val = some burst)
    (hrun : SparedRun (Dispatcher.init size burst prio userGeneratedTs ifhNop) w) :
    NoneForgotten w :=
  ((JobsInv.init (storeContextBurstCount_pos hburst) _ _ _).sparedRun hrun).noneForgotten

/-! ## A fault between the two looks -/

/-- A new dispatcher. -/
def newDispatcher : Dispatcher :=
  Dispatcher.init 50 5 (fun _ => 0) (fun _ => false) fun _ => false

/-- A context with one command in its queue. -/
def oneQueued : DrawCtxt :=
  (queueCmds (DrawCtxt.create false false) [DrawObj.create 0 .cmd false []] 0).1

/-- The new dispatcher later on, with context 0 and thread 0 as given. -/
def Dispatcher.later (c : DrawCtxt) (t : Thread) (jobs : List ℕ) (fault : Bool) (r : Run) :
    Dispatcher :=
  { newDispatcher with
    ctx := Function.update newDispatcher.ctx 0 c
    thread := Function.update newDispatcher.thread 0 (0, t)
    jobs := Function.update newDispatcher.jobs 0 jobs
    fault := fault
    run := r }

theorem newDispatcher_eq :
    newDispatcher = .later (DrawCtxt.create false false) .idle [] false .idle := by
  unfold Dispatcher.later
  rw [show DrawCtxt.create false false = newDispatcher.ctx 0 from rfl, Function.update_eq_self,
    show ((0, .idle) : ℕ × Thread) = newDispatcher.thread 0 from rfl, Function.update_eq_self,
    show ([] : List ℕ) = newDispatcher.jobs 0 from rfl, Function.update_eq_self]
  rfl

section
variable {t : Thread} {jobs : List ℕ} {fault : Bool} {r : Run}

theorem later_setThread (t' : Thread) :
    (Dispatcher.later c t jobs fault r).setThread 0 0 t' = .later c t' jobs fault r := by
  simp [Dispatcher.later, Dispatcher.setThread]

theorem later_setCtx (c' : DrawCtxt) :
    (Dispatcher.later c t jobs fault r).setCtx 0 c' = .later c' t jobs fault r := by
  simp [Dispatcher.later, Dispatcher.setCtx]

theorem later_addJob : (Dispatcher.later c t jobs fault r).addJob 0 0 =
    .later c t (0 :: jobs) fault r := by
  simp [Dispatcher.later, Dispatcher.addJob]

theorem later_ctx : (Dispatcher.later c t jobs fault r).ctx 0 = c := by
  simp [Dispatcher.later]

theorem later_jobs : (Dispatcher.later c t jobs fault r).jobs 0 = jobs := by
  simp [Dispatcher.later]

theorem later_thread : (Dispatcher.later c t jobs fault r).thread 0 = (0, t) := by
  simp [Dispatcher.later]

theorem later_spares (h : r = .idle) : FaultSpares (.later c t jobs fault r) := by
  rintro job hr
  cases h.symm.trans hr

/-- The steps of a thread that submits one command. -/
theorem submit_run : SparedRun newDispatcher (.later oneQueued .idle [0] false .idle) := by
  rw [newDispatcher_eq]
  set c₀ := DrawCtxt.create false false
  set objs := [DrawObj.create 0 .cmd false []]
  have hcall : DispatchStep (.later c₀ .idle [] false .idle)
      (.later c₀ (.called objs 0) [] false .idle) := by
    have := DispatchStep.call (w := .later c₀ .idle [] false .idle) 0 0 0 objs 0 later_thread
      (.command [] 0 false (.inl rfl))
    rwa [later_setThread] at this
  have hcalls : ∀ {c' : DrawCtxt} {t t' : Thread}, CallStep 50 c₀ t c' t' →
      DispatchStep (.later c₀ t [] false .idle) (.later c' t' [] false .idle) := by
    intro c' t t' h
    have := DispatchStep.thread (w := .later c₀ t [] false .idle) 0 0 c' t t' later_thread
      (by rw [later_ctx]; exact h)
    rwa [later_setCtx, later_setThread] at this
  have hadmitted := hcalls (.allow objs 0 (List.cons_ne_nil _ _) (by decide) rfl)
  have hinsert := hcalls (.insert objs 0 oneQueued .queued rfl (by decide) rfl)
  have hhand : DispatchStep (.later oneQueued .handing [] false .idle)
      (.later oneQueued .idle [0] false .idle) := by
    have := DispatchStep.handOver (w := .later oneQueued .handing [] false .idle) 0 0 later_thread
    rw [show (Dispatcher.later oneQueued .handing [] false .idle).prio 0 = 0 from rfl,
      later_addJob, later_setThread] at this
    exact this
  exact (((Relation.ReflTransGen.single ⟨hcall, later_spares rfl⟩).tail
    ⟨hadmitted, later_spares rfl⟩).tail ⟨hinsert, later_spares rfl⟩).tail ⟨hhand, later_spares rfl⟩

theorem oneQueued_waits : (Dispatcher.later oneQueued t jobs fault r).Waits 0 := by
  rw [Dispatcher.Waits, later_ctx]
  decide

/-- A context with a command in its queue has its job. -/
theorem none_forgotten_one : ∃ w, NoneForgotten w ∧ w.run = .idle ∧ w.Waits 0 := by
  have hburst : storeContextBurstCount 5 = some 5 := rfl
  exact ⟨_, none_forgotten hburst submit_run, rfl, oneQueued_waits⟩

/-- A step of the run of the dispatcher. -/
theorem later_run {jobs' : List ℕ} {fault' : Bool} {r' : Run}
    (h : RunStep (.later c t jobs fault r) r (.later c t jobs' fault' r')) :
    DispatchStep (.later c t jobs fault r) (.later c t jobs' fault' r') := .run r _ rfl h

theorem update_nil (i : ℕ) : Function.update (fun _ : ℕ => ([] : List ℕ)) i [] = fun _ => [] :=
  Function.update_eq_self i fun _ => []

theorem later_take (i : ℕ) (hjobs : jobs = [] ∨ i = 0) (r' : Run) :
    { Dispatcher.later c t jobs fault r with
      jobs := Function.update (Dispatcher.later c t jobs fault r).jobs i [], run := r' } =
      .later c t [] fault r' := by
  unfold Dispatcher.later newDispatcher Dispatcher.init
  rcases hjobs with rfl | rfl
  · simp only [update_nil]
  · simp only [Function.update_idem]

/-- The lists of a priority are taken. -/
theorem later_lists (i : ℕ) (hi : i < numPriorities)
    (hjobs : (Dispatcher.later c t jobs fault (.prio i)).jobs i = jobs)
    (hmine : jobs = [] ∨ i = 0) :
    Relation.ReflTransGen DispatchStep (.later c t jobs fault (.prio i))
      (.later c t [] fault (.list i [] jobs.reverse)) := by
  have hreq : DispatchStep (.later c t jobs fault (.prio i))
      (.later c t jobs fault (.tookRequeue i [])) := by
    have := DispatchStep.run (w := .later c t jobs fault (.prio i)) _ _ rfl (.takeRequeue i hi)
    rwa [show (Dispatcher.later c t jobs fault (.prio i)).requeue = fun _ => [] from rfl,
      update_nil] at this
  have htake : DispatchStep (.later c t jobs fault (.tookRequeue i []))
      (.later c t [] fault (.list i [] jobs.reverse)) := by
    have := DispatchStep.run (w := .later c t jobs fault (.tookRequeue i [])) _ _ rfl
      (.takeJobs i [])
    rwa [later_take i hmine, show (Dispatcher.later c t jobs fault (.tookRequeue i [])).jobs i =
      jobs from hjobs, List.reverse_nil, List.nil_append] at this
  exact (Relation.ReflTransGen.single hreq).tail htake

/-- The other priorities have no jobs. -/
theorem later_priorities (n : ℕ) : ∀ i, i + n = numPriorities →
    Relation.ReflTransGen DispatchStep (.later c t [] fault (.prio i))
      (.later c t [] fault (.prio numPriorities)) := by
  induction n with
  | zero =>
    rintro i rfl
    exact .refl
  | succ n ih =>
    intro i hi
    have hlists : Relation.ReflTransGen DispatchStep (.later c t [] fault (.prio i))
        (.later c t [] fault (.list i [] [])) :=
      later_lists i (by omega) (by simp [Dispatcher.later, newDispatcher, Dispatcher.init])
        (.inl rfl)
    exact (hlists.tail (later_run (.listEnd i []))).trans (ih (i + 1) (by omega))

end

/-- **A job is lost**: a fault comes between the look of `dispatcher_handle_jobs_list` and
    the first look of `dispatcher_context_sendcmds`, which sends nothing and returns 0. -/
theorem job_lost : ∃ w, Relation.ReflTransGen DispatchStep newDispatcher w ∧
    ¬ NoneForgotten w := by
  refine ⟨.later oneQueued .idle [] true .idle, ?_, ?_⟩
  · have hsubmit : Relation.ReflTransGen DispatchStep newDispatcher
        (.later oneQueued .idle [0] false .idle) :=
      Relation.ReflTransGen.mono (fun _ _ h => h.1) _ _ submit_run
    have hfirst := (hsubmit.tail (later_run .issueInline)).tail (later_run (.start rfl))
    have hlists := hfirst.trans (later_lists 0 (by decide) later_jobs (.inr rfl))
    have hlook := hlists.tail (later_run (.look 0 0 [] [] (by rw [later_ctx]; decide) (by simp)))
    have hchecked := (hlook.tail (later_run (.notFaulted _ rfl))).tail
      (later_run (.enter _ rfl))
    have hpass := (hchecked.tail (later_run (.firstPass _))).tail
      (later_run (.pass _ 0 (by decide)))
    have hfault : DispatchStep (.later oneQueued .idle [] false
        (.serving ⟨0, [0], [], 0⟩ (.sending 0)))
        (.later oneQueued .idle [] true (.serving ⟨0, [0], [], 0⟩ (.sending 0))) := .fault
    have hdropped := ((hpass.tail hfault).tail (later_run (.faultSeen _ 0 rfl))).tail
      (later_run (.drop _ _ rfl))
    have hrest := (hdropped.tail (later_run (.listEnd 0 [0]))).trans (later_priorities 15 1 rfl)
    exact (hrest.tail (later_run .allHandled)).tail (later_run .finish)
  · intro h
    rcases h rfl 0 oneQueued_waits with hjob | hreq | ⟨k, hk⟩
    · rw [show (Dispatcher.later oneQueued .idle [] true .idle).jobs = fun _ => [] from
        update_nil 0] at hjob
      exact absurd hjob List.not_mem_nil
    · exact absurd hreq List.not_mem_nil
    · change Function.update newDispatcher.thread 0 (0, .idle) k = (0, .handing) at hk
      by_cases hk0 : k = 0
      · subst hk0
        simp at hk
      · rw [Function.update_of_ne hk0] at hk
        cases hk

end Sm8850.Kgsl.Dispatch
