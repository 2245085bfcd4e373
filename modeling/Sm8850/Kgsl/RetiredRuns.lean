/-
  The retired timestamp of a context in any run.

  * `Truth`: what the retired timestamp has reached is complete.
  * `Careful`: woken threads find room, a new timestamp is less than
    `KGSL_TIMESTAMP_WINDOW` ahead of the retired one, and a bind that is queued has a sync
    object that waits for all commands and markers before it.
  * `RetiredInv`: the objects sent, popped and queued are in order.
  * **`retired_true`**: in a careful run the retired timestamp tells the truth, and it never
    moves backwards.
  * `bind_overtakes`: a command that is queued between the two steps of
    `kgsl_ioctl_gpu_aux_command` is overtaken by the bind.
-/
import Sm8850.Kgsl.TimestampOrder

namespace Sm8850.Kgsl.Dispatch

open Lib

variable {w w' : World} {c c' : DrawCtxt} {x : DrawObj} {l objs : List DrawObj}

/-- For every timestamp that the retired one has reached, no command or marker at or before
    it is with the GPU, and no bind at or before it is to be done. -/
def Truth (w : World) : Prop :=
  ∀ t ≤ w.ctx.timestamp, 0 ≤ timestampCmp w.ctx.eoptimestamp t →
    (∀ x ∈ w.inflight, t < x.timestamp) ∧ ∀ ts ∈ w.ctx.undone, t < ts

/-- The objects that were taken and whose timestamps are not yet written. -/
def World.taken (w : World) : List DrawObj := w.finished ++ w.inflight ++ w.popped.toList

/-- An object that was taken or is in the queue. -/
def World.Has (w : World) (x : DrawObj) : Prop :=
  x ∈ w.taken ∨ ∃ j < w.ctx.slots, w.ctx.drawqueue (w.ctx.slotAt j) = some x

/-- When a bind is queued, its call has a sync object that waits for every command and
    marker. -/
def BindWaits (w w' : World) : Prop :=
  ∀ k, w'.thread k = .handing → ∀ x ∈ (w.thread k).objs, x.type = .bind →
    ∀ y, w.Has y → y.ForGpu → ∃ s ∈ (w.thread k).objs, s.Awaits w.ctx.timestamp y.timestamp

/-- What the submitting threads take care of. -/
structure Careful (w w' : World) : Prop where
  room : FindsRoom w w'
  near : w'.ctx.timestamp < w.ctx.eoptimestamp + timestampWindow
  binds : BindWaits w w'

/-- The invariant of a careful run. -/
structure RetiredInv (w : World) : Prop where
  ring : RingInv w
  near : w.ctx.timestamp < w.ctx.eoptimestamp + timestampWindow
  forGpu : ∀ x ∈ w.taken, x.ForGpu
  held : ∀ k, Held (w.thread k).objs
  ordered : ∃ l, Ordered w.taken w.ctx l

/-! ## Threads -/

theorem held_nil : Held [] := ⟨eachBehind_nil, fun _ hx => absurd hx List.not_mem_nil⟩

theorem EachBehind.of_untimed {pre : List DrawObj} (h : ∀ x ∈ pre, x.Untimed) :
    EachBehind (fun pre _ => ∀ y ∈ pre, DrawObj.Untimed y) pre := by
  rintro pre' x post rfl y hy
  exact h y (List.mem_append_left _ hy)

theorem Submits.held (h : Submits c objs) : Held objs := by
  refine ⟨?_, fun x hx => ?_⟩
  · obtain ⟨pre, last, rfl, hpre⟩ := h.split
    exact eachBehind_snoc.2 ⟨EachBehind.of_untimed hpre, hpre⟩
  · have huser : ∀ {user : List DrawObj}, UserSync user → x ∈ user → x.done = false := by
      rintro user (rfl | ⟨id, pending, rfl⟩) hx
      · cases hx
      · rw [List.mem_singleton.1 hx]
        rfl
    cases h with
    | sync | marker =>
      rw [List.mem_singleton.1 hx]
      rfl
    | command user id eof hu =>
      rcases List.mem_append.1 hx with hx | hx
      · exact huser hu hx
      · rw [List.mem_singleton.1 hx]
        rfl
    | bind user id id' hu | timeline user id id' hu =>
      rcases List.mem_append.1 hx with hx | hx
      · rcases List.mem_append.1 hx with hx | hx
        · exact huser hu hx
        · rw [List.mem_singleton.1 hx]
          rfl
      · rw [List.mem_singleton.1 hx]
        rfl

/-- An event of a sync object in the hands of a thread fires. -/
theorem Held.expire {pre post : List DrawObj} (h : Held (pre ++ x :: post)) (e : SyncEvent) :
    Held (pre ++ x.expire e :: post) := by
  have hl : List.Forall₂ (fun y y' : DrawObj => y'.type = y.type) (pre ++ x :: post)
      (pre ++ x.expire e :: post) := by
    refine List.rel_append ?_ (.cons rfl ?_) <;> exact List.forall₂_same.2 fun _ _ => rfl
  refine ⟨h.untimed.forall₂ hl ?_, fun y hy => ?_⟩
  · intro p _ p' _ hp _ hun y' hy'
    obtain ⟨y, hy, hyy⟩ := forall₂_mem_right hp hy'
    unfold DrawObj.Untimed
    rw [hyy]
    exact hun y hy
  · simp only [List.mem_append, List.mem_cons] at hy
    rcases hy with hy | rfl | hy
    · exact h.fresh y (by simp [hy])
    · exact h.fresh x (by simp)
    · exact h.fresh y (by simp [hy])

theorem Thread.withObjs_objs {t : Thread} (h : t.objs ≠ []) : (t.withObjs objs).objs = objs := by
  cases t with
  | idle | handing => exact absurd rfl h
  | _ => rfl

theorem CallStep.held {size : ℕ} {t t' : Thread} (h : CallStep size c t c' t')
    (ht : Held t.objs) : Held t'.objs := by
  cases h with
  | allow | sleep | wake => exact ht
  | refuse | enterBad | giveUp | resumeBad => exact held_nil
  | insert objs userTs c' r | resume objs userTs c' r => cases r <;> exact held_nil

theorem held_setThread {k : ℕ} {t : Thread} (h : ∀ j, Held (w.thread j).objs) (ht : Held t.objs)
    (j : ℕ) : Held ((w.setThread k t).thread j).objs := by
  by_cases hj : j = k
  · rw [hj, World.setThread_self]
    exact ht
  · rw [World.setThread_ne w t hj]
    exact h j

/-! ## Steps -/

/-- The dispatcher and the GPU take objects from the front. -/
theorem Ordered.has (h : Ordered w.taken w.ctx l) {y : DrawObj} (hy : y ∈ w.taken ++ l) :
    w.Has y := by
  refine (List.mem_append.1 hy).imp_right fun hy => ?_
  obtain ⟨j, hj, rfl⟩ := List.mem_iff_getElem.1 hy
  exact ⟨j, h.contents.slots_eq ▸ hj, h.contents.slot hj⟩

/-- A section of a call keeps the order. -/
theorem CallStep.ordered {k : ℕ} {t t' : Thread} (h : CallStep w.size w.ctx t c' t')
    (ht : w.thread k = t) (hinv : RetiredInv w) (hord : Ordered w.taken w.ctx l)
    (hcare : Careful w ({ w with ctx := c' }.setThread k t')) :
    ∃ l', Ordered w.taken c' l' ∧ w.ctx.eoptimestamp ≤ c'.eoptimestamp := by
  have hqueued : w.ctx.queued = l.length := hord.contents.queued_eq
  have hsize := hinv.ring.size_lt
  have hsubmit : ∀ (objs : List DrawObj) (userTs : ℕ) (r : Queued), t.objs = objs →
      l.length + objs.length < contextDrawqueueSize → t' = r.after →
      queueCmds w.ctx objs userTs = (c', r) →
      ∃ l', Ordered w.taken c' l' ∧ w.ctx.eoptimestamp ≤ c'.eoptimestamp := by
    rintro objs userTs r rfl hroom rfl hq
    have hheld := hinv.held k
    have hbinds := hcare.binds k
    rw [World.setThread_self] at hbinds
    rw [ht] at hheld hbinds
    have hwaits : r = .queued → ∀ x ∈ t.objs, x.type = .bind → ∀ y ∈ w.taken ++ l, y.ForGpu →
        ∃ s ∈ t.objs, s.Awaits w.ctx.timestamp y.timestamp := by
      rintro rfl x hx hb y hy hg
      exact hbinds rfl x hx hb y (hord.has hy) hg
    obtain ⟨l', hord', heop, -⟩ := hord.submit hheld hroom hq hcare.near hwaits
    exact ⟨l', hord', heop⟩
  cases h with
  | insert objs userTs c' r hstate hfits hq => exact hsubmit objs userTs r rfl (by omega) rfl hq
  | resume objs userTs c' r hstate hq =>
    have hroom := hcare.room k objs userTs ht (by
      rw [World.setThread_self, ht]
      cases r <;> nofun)
    exact hsubmit objs userTs r rfl (by omega) rfl hq
  | _ => exact ⟨l, hord, le_rfl⟩

/-- An event fires for a sync object in the queue. -/
theorem alters_expire {e : SyncEvent} (hnear : c.timestamp < c.eoptimestamp + timestampWindow)
    (he : Fires c e) : Alters c.eoptimestamp c.timestamp x (x.expire e) where
  type_eq := rfl
  timestamp_eq := rfl
  marker_eq := rfl
  awaits := by
    rintro ts hlt ⟨hs, q, hq, hts, hmem⟩
    refine ⟨hs, q, hq, hts, (List.mem_erase_of_ne ?_).2 hmem⟩
    rintro rfl
    have hle := le_of_fires hnear hq he
    omega

/-- A bind is done. -/
theorem Ordered.bound {sent : List DrawObj} (h : Ordered sent c l) {j : ℕ} (hj : j < l.length) :
    Ordered sent
      { c.setSlot (c.slotAt j) { l[j] with done := true } with
        undone := c.undone.erase l[j].timestamp }
      (l.set j { l[j] with done := true }) where
  contents := h.contents.setSlot hj rfl
  line := by
    refine h.line.alters (List.rel_append (List.forall₂_same.2 fun y _ => Alters.refl y) ?_)
    exact forall₂_set (fun y => Alters.refl y) hj ⟨rfl, rfl, rfl, fun _ _ ha => ha⟩
  undone := by
    refine ⟨h.undone.nodup.erase _, fun ts hts => ?_⟩
    obtain ⟨hne, hts⟩ := h.undone.nodup.mem_erase_iff.1 hts
    obtain ⟨y, hy, hb, hd, rfl⟩ := h.undone.bind ts hts
    refine ⟨y, ?_, hb, hd, rfl⟩
    obtain ⟨i, hi, rfl⟩ := List.mem_iff_getElem.1 hy
    have hij : j ≠ i := fun hij => hne (by subst hij; rfl)
    exact List.mem_iff_getElem.2 ⟨i, by rwa [List.length_set], List.getElem_set_ne hij _⟩

/-- **One step of a careful run**, which moves the retired timestamp forward. -/
theorem RetiredInv.step (h : RetiredInv w) (hs : Step Submits w w') (hcare : Careful w w') :
    RetiredInv w' ∧ w.ctx.eoptimestamp ≤ w'.ctx.eoptimestamp := by
  have hring := h.ring.step hs hcare.room
  have hnear := h.near
  have hnear' := hcare.near
  obtain ⟨l, hord⟩ := h.ordered
  have hqueued : w.ctx.queued = l.length := hord.contents.queued_eq
  cases hs with
  | store val size hst => exact ⟨⟨hring, hnear, h.forGpu, h.held, l, hord⟩, le_rfl⟩
  | call k objs userTs hidle hsub =>
    exact ⟨⟨hring, hnear, h.forGpu, held_setThread h.held hsub.held, l, hord⟩, le_rfl⟩
  | thread k ctx t t' ht hcall =>
    obtain ⟨l', hord', heop⟩ := hcall.ordered ht h hord hcare
    have hheld := hcall.held (ht ▸ h.held k)
    refine ⟨⟨hring, ?_, h.forGpu, ?_, l', hord'⟩, heop⟩
    · exact hnear'.trans_le (Nat.add_le_add_right heop _)
    · exact fun j => held_setThread (w := { w with ctx := ctx }) h.held hheld j
  | handOver k hk =>
    exact ⟨⟨hring, hnear, h.forGpu, held_setThread h.held held_nil, l, hord⟩, le_rfl⟩
  | signalHeld k pre post x e hobjs hsync he =>
    have hheld := h.held k
    rw [hobjs] at hheld
    refine ⟨⟨hring, hnear, h.forGpu, held_setThread h.held ?_, l, hord⟩, le_rfl⟩
    rw [Thread.withObjs_objs (by rw [hobjs]; simp)]
    exact hheld.expire e
  | signalQueued j x e hj hx hsync he =>
    rw [hord.contents.slots_eq] at hj
    obtain rfl : l[j] = x := Option.some.inj ((hord.contents.slot hj).symm.trans hx)
    refine ⟨⟨hring, hnear, h.forGpu, h.held, _, hord.alters
      (hord.contents.setSlot hj (y := l[j].expire e) rfl) ?_ ⟨_, rfl⟩⟩, le_rfl⟩
    exact forall₂_set (fun y => ⟨Alters.refl y, rfl⟩) hj ⟨alters_expire hnear he, rfl⟩
  | bound j x hj hx hb hstart hdone =>
    rw [hord.contents.slots_eq] at hj
    obtain rfl : l[j] = x := Option.some.inj ((hord.contents.slot hj).symm.trans hx)
    exact ⟨⟨hring, hnear, h.forGpu, h.held, _, hord.bound hj⟩, le_rfl⟩
  | retire ctx r hp hr =>
    obtain ⟨l', hord', hon, -⟩ := hord.process h.forGpu hnear hr
    refine ⟨⟨hring, ?_, h.forGpu, h.held, l', hord'⟩, hon.eop_le⟩
    exact hnear'.trans_le (Nat.add_le_add_right hon.eop_le _)
  | takeNone ctx r hp ht hr =>
    obtain ⟨l', hord', hon⟩ := hord.take_none h.forGpu hnear ht hr
    refine ⟨⟨hring, ?_, h.forGpu, h.held, l', hord'⟩, hon.eop_le⟩
    exact hnear'.trans_le (Nat.add_le_add_right hon.eop_le _)
  | take ctx x hp ht =>
    obtain ⟨l', hord', hon, hx⟩ := hord.take h.forGpu hnear ht
    have htaken : World.taken { w with ctx := ctx, popped := some x } = w.taken ++ [x] := by
      simp [World.taken, hp]
    refine ⟨⟨hring, ?_, ?_, h.held, l', htaken ▸ hord'⟩, hon.eop_le⟩
    · exact hnear'.trans_le (Nat.add_le_add_right hon.eop_le _)
    · rw [htaken]
      intro y hy
      rcases List.mem_append.1 hy with hy | hy
      · exact h.forGpu y hy
      · exact List.mem_singleton.1 hy ▸ hx
  | send x hp =>
    have htaken : World.taken { w with popped := none, inflight := w.inflight ++ [x] } =
        w.taken := by
      simp [World.taken, hp]
    exact ⟨⟨hring, hnear, htaken ▸ h.forGpu, h.held, l, htaken ▸ hord⟩, le_rfl⟩
  | sendFailed x hp =>
    have htaken : w.taken = w.finished ++ w.inflight ++ [x] := by simp [World.taken, hp]
    have hgpu := h.forGpu
    obtain ⟨l₀, hc₀, hroom⟩ := h.ring.contents
    have hl₀ : w.ctx.queued = l₀.length := hc₀.queued_eq
    rw [hp, poppedCount_some] at hroom
    rw [htaken] at hord hgpu
    obtain ⟨l', hord', hon⟩ := hord.requeue (hgpu x (by simp)) (by omega)
    have htaken' : World.taken { w with ctx := (requeueCmdobj w.ctx x).1, popped := none } =
        w.finished ++ w.inflight := by
      simp [World.taken]
    refine ⟨⟨hring, ?_, ?_, h.held, l', htaken' ▸ hord'⟩, hon.eop_le⟩
    · exact hnear'.trans_le (Nat.add_le_add_right hon.eop_le _)
    · rw [htaken']
      exact fun y hy => hgpu y (List.mem_append_left _ hy)
  | complete x rest hf =>
    have htaken : World.taken { w with inflight := rest, finished := w.finished ++ [x] } =
        w.taken := by
      simp [World.taken, hf]
    exact ⟨⟨hring, hnear, htaken ▸ h.forGpu, h.held, l, htaken ▸ hord⟩, le_rfl⟩
  | written x rest hf =>
    have htaken : w.taken =
        x :: World.taken { w with finished := rest, ctx := retireTimestamp w.ctx x } := by
      simp [World.taken, hf]
    have hgpu := h.forGpu
    have hline := hord.line
    rw [htaken] at hgpu hline
    have hx := hgpu x List.mem_cons_self
    have heop := (hline.ahead x List.mem_cons_self hx.timed).1.le
    refine ⟨⟨hring, ?_, fun y hy => hgpu y (List.mem_cons_of_mem _ hy), h.held, l,
      hord.contents, hline.retire hx.timed hx.not_awaits, hord.undone⟩, heop⟩
    exact hnear'.trans_le (Nat.add_le_add_right heop _)

/-! ## Runs -/

theorem RetiredInv.init {val size : ℕ} (h : storeContextDrawqueueSize val = some size)
    (userGeneratedTs ifhNop : Bool) : RetiredInv (World.init size userGeneratedTs ifhNop) where
  ring := RingInv.init h userGeneratedTs ifhNop
  near := by
    change 0 < 0 + timestampWindow
    decide
  forGpu x hx := absurd hx List.not_mem_nil
  held _ := held_nil
  ordered := by
    refine ⟨[], DrawCtxt.create_contents _ _,
      ⟨le_rfl, le_rfl, by intros; contradiction, eachBehind_nil⟩, ?_⟩
    exact ⟨List.nodup_nil, fun ts hts => absurd hts List.not_mem_nil⟩

/-- What the invariant says about the retired timestamp. -/
theorem RetiredInv.truth (h : RetiredInv w) : Truth w := by
  intro t ht hreached
  have hle := le_of_reached h.near ht hreached
  obtain ⟨l, hord⟩ := h.ordered
  refine ⟨fun x hx => ?_, fun ts hts => ?_⟩
  · have htaken : x ∈ w.taken := by simp [World.taken, hx]
    have hahead := hord.line.ahead x (List.mem_append_left _ htaken) (h.forGpu x htaken).timed
    exact hle.trans_lt hahead.1
  · obtain ⟨x, hx, hb, -, rfl⟩ := hord.undone.bind ts hts
    have hahead := hord.line.ahead x (List.mem_append_right _ hx) (DrawObj.timed_of_bind hb)
    exact hle.trans_lt hahead.1

/-- A run whose steps are careful. -/
abbrev CarefulRun : World → World → Prop :=
  Relation.ReflTransGen fun w w' => Step Submits w w' ∧ Careful w w'

theorem RetiredInv.run (h : RetiredInv w) (hrun : CarefulRun w w') : RetiredInv w' := by
  induction hrun with
  | refl => exact h
  | tail _ hs ih => exact (ih.step hs.1 hs.2).1

/-- **The retired timestamp tells the truth**, and no step moves it backwards. -/
theorem retired_true {val size : ℕ} (hsize : storeContextDrawqueueSize val = some size)
    {userGeneratedTs ifhNop : Bool}
    (hrun : CarefulRun (World.init size userGeneratedTs ifhNop) w) :
    Truth w ∧ ∀ w', Step Submits w w' → Careful w w' →
      0 ≤ timestampCmp w'.ctx.eoptimestamp w.ctx.eoptimestamp := by
  have hinv := (RetiredInv.init hsize userGeneratedTs ifhNop).run hrun
  refine ⟨hinv.truth, fun w' hs hcare => ?_⟩
  obtain ⟨hinv', hle⟩ := hinv.step hs hcare
  obtain ⟨l, hord⟩ := hinv'.ordered
  exact reached_of_le (hord.line.eop_le.trans_lt hcare.near) hle

/-! ## A command between the two steps of a bind -/

/-- A context with two threads. -/
def World.duo (c : DrawCtxt) (popped : Option DrawObj) (inflight : List DrawObj)
    (s t : Thread) : World where
  size := 50
  ctx := c
  popped := popped
  inflight := inflight
  finished := []
  thread k := if k = 0 then s else if k = 1 then t else .idle

section
variable {popped : Option DrawObj} {inflight : List DrawObj} {s t : Thread}

theorem duo_init :
    World.init 50 false false = .duo (DrawCtxt.create false false) none [] .idle .idle := by
  simp [World.init, World.duo]

theorem duo_setThread_zero (s' : Thread) :
    (World.duo c popped inflight s t).setThread 0 s' = .duo c popped inflight s' t := by
  unfold World.setThread World.duo
  congr 1
  funext k
  by_cases hk : k = 0 <;> simp [hk]

theorem duo_setThread_one (t' : Thread) :
    (World.duo c popped inflight s t).setThread 1 t' = .duo c popped inflight s t' := by
  unfold World.setThread World.duo
  congr 1
  funext k
  by_cases hk : k = 1 <;> simp [hk]

/-- The command, and a bind behind its sync object, as two threads bring them to a new
    context. -/
def cmdObjs : List DrawObj := [DrawObj.create 0 .cmd false []]

def bindObjs : List DrawObj :=
  [DrawObj.create 1 .sync false [.timestamp 0], DrawObj.create 2 .bind false []]

theorem duo_call_zero (hs : s = .idle) (h : Submits c objs) :
    Step Submits (.duo c popped inflight s t) (.duo c popped inflight (.called objs 0) t) := by
  subst hs
  have := Step.call (w := .duo c popped inflight .idle t) 0 objs 0 rfl h
  rwa [duo_setThread_zero] at this

theorem duo_call_one (ht : t = .idle) (h : Submits c objs) :
    Step Submits (.duo c popped inflight s t) (.duo c popped inflight s (.called objs 0)) := by
  subst ht
  have := Step.call (w := .duo c popped inflight s .idle) 1 objs 0 rfl h
  rwa [duo_setThread_one] at this

theorem duo_thread_zero {s' : Thread} (h : CallStep 50 c s c' s') :
    Step Submits (.duo c popped inflight s t) (.duo c' popped inflight s' t) := by
  have : Step Submits (.duo c popped inflight s t) _ := .thread 0 c' s s' rfl h
  exact duo_setThread_zero (c := c') s' ▸ this

theorem duo_thread_one {t' : Thread} (h : CallStep 50 c t c' t') :
    Step Submits (.duo c popped inflight s t) (.duo c' popped inflight s t') := by
  have : Step Submits (.duo c popped inflight s t) _ := .thread 1 c' t t' rfl h
  exact duo_setThread_one (c := c') t' ▸ this

/-- A thread that brings the command takes care, as long as its timestamp is near. -/
theorem duo_careful (ht : t.objs = [] ∨ t.objs = cmdObjs)
    (hwoken : ∀ objs userTs, t ≠ .woken objs userTs)
    (hnear : w'.ctx.timestamp < c.eoptimestamp + timestampWindow) :
    Careful (.duo c popped inflight .idle t) w' := by
  have hthread : ∀ k, (World.duo c popped inflight .idle t).thread k = .idle ∨
      (World.duo c popped inflight .idle t).thread k = t := by
    intro k
    unfold World.duo
    dsimp only
    split_ifs <;> simp
  refine ⟨fun k objs userTs hk => ?_, hnear, fun k _ x hx hb => ?_⟩
  · rcases hthread k with h | h <;> rw [h] at hk
    · cases hk
    · exact absurd hk (hwoken objs userTs)
  · rcases hthread k with h | h <;> rw [h] at hx
    · cases hx
    · rcases ht with ht | ht <;> rw [ht] at hx
      · cases hx
      · rw [List.mem_singleton.1 hx] at hb
        cases hb

end

/-- The command is queued, then the bind behind its sync object; the command is taken; the
    sync object is signaled, and the bind starts, is done and is retired. -/
def cmdQueued : DrawCtxt := (queueCmds (DrawCtxt.create false false) cmdObjs 0).1

def bindQueued : DrawCtxt := (queueCmds cmdQueued bindObjs 0).1

def cmdTaken : DrawCtxt := (takeDrawobj bindQueued).1

def cmdSent : DrawObj := { DrawObj.create 0 .cmd false [] with timestamp := 1 }

def syncSignaled : DrawCtxt :=
  cmdTaken.setSlot (cmdTaken.slotAt 0)
    ((DrawObj.create 1 .sync false [.timestamp 0]).expire (.timestamp 0))

def bindStarted : DrawCtxt := (processDrawqueueGetNextDrawobj syncSignaled).1

def bindDone : DrawCtxt :=
  { bindStarted.setSlot (bindStarted.slotAt 0)
      { DrawObj.create 2 .bind false [] with timestamp := 2, start := true, done := true } with
    undone := bindStarted.undone.erase 2 }

def bindRetired : DrawCtxt := (processDrawqueueGetNextDrawobj bindDone).1

/-- The command is with the GPU, and its timestamp is not retired. -/
theorem retired_true_cmd : ∃ w, Truth w ∧ w.inflight = [cmdSent] ∧
    ∀ w', Step Submits w w' → Careful w w' →
      0 ≤ timestampCmp w'.ctx.eoptimestamp w.ctx.eoptimestamp := by
  have hrun : CarefulRun (World.init 50 false false)
      (.duo (popDrawobj cmdQueued) none [cmdSent] .idle .handing) := by
    rw [duo_init]
    refine ((((Relation.ReflTransGen.single ⟨duo_call_one rfl (.command [] 0 false (.inl rfl)),
      duo_careful (.inl rfl) nofun (by decide)⟩).tail
      ⟨duo_thread_one (.allow cmdObjs 0 (List.cons_ne_nil _ _) (by decide) rfl),
        duo_careful (.inr rfl) nofun (by decide)⟩).tail
      ⟨duo_thread_one (.insert cmdObjs 0 cmdQueued .queued rfl (by decide) rfl),
        duo_careful (.inr rfl) nofun (by decide)⟩).tail
      ⟨.take (popDrawobj cmdQueued) cmdSent rfl rfl, duo_careful (.inl rfl) nofun (by decide)⟩).tail
      ⟨.send cmdSent rfl, duo_careful (.inl rfl) nofun (by decide)⟩
  have hsize : storeContextDrawqueueSize 50 = some 50 := rfl
  obtain ⟨htruth, hon⟩ := retired_true hsize hrun
  exact ⟨_, htruth, rfl, hon⟩

/-- **A bind overtakes a command**: `kgsl_ioctl_gpu_aux_command` reads the timestamp 0 for
    its sync object, another thread queues the command 1, and then the bind 2 is queued.  The
    sync object waits for nothing, and the bind is retired while the command is with the
    GPU. -/
theorem bind_overtakes : ∃ w,
    Relation.ReflTransGen (Step Submits) (World.init 50 false false) w ∧ ¬ Truth w := by
  refine ⟨.duo bindRetired none [cmdSent] .handing .handing, ?_, ?_⟩
  · rw [duo_init]
    set c₀ := DrawCtxt.create false false
    have hcalls : Relation.ReflTransGen (Step Submits) (.duo c₀ none [] .idle .idle)
        (.duo c₀ none [] (.called bindObjs 0) (.called cmdObjs 0)) :=
      (Relation.ReflTransGen.single (duo_call_zero rfl (.bind [] 1 2 (.inl rfl)))).tail
        (duo_call_one rfl (.command [] 0 false (.inl rfl)))
    have hcmd := (hcalls.tail
      (duo_thread_one (.allow cmdObjs 0 (List.cons_ne_nil _ _) (by decide) rfl))).tail
      (duo_thread_one (.insert cmdObjs 0 cmdQueued .queued rfl (by decide) rfl))
    have hbind := (hcmd.tail
      (duo_thread_zero (.allow bindObjs 0 (List.cons_ne_nil _ _) (by decide) rfl))).tail
      (duo_thread_zero (.insert bindObjs 0 bindQueued .queued rfl (by decide) rfl))
    have hsent := (hbind.tail (.take cmdTaken cmdSent rfl rfl)).tail (.send cmdSent rfl)
    have hsync := hsent.tail (.signalQueued 0 (DrawObj.create 1 .sync false [.timestamp 0])
      (.timestamp 0) (by decide) rfl rfl (.timestamp 0 (.inl (by decide))))
    have hstarted := hsync.tail (.retire bindStarted (.err .again) rfl rfl)
    have hdone := hstarted.tail (.bound 0
      { DrawObj.create 2 .bind false [] with timestamp := 2, start := true }
      (by decide) rfl rfl rfl rfl)
    exact hdone.tail (.retire bindRetired .null rfl rfl)
  · intro htruth
    have hlt := (htruth 1 (by decide) (by decide)).1 cmdSent List.mem_cons_self
    exact absurd hlt (by decide)

end Sm8850.Kgsl.Dispatch
