/-
  Who flushes the aggregation buffer.

  * `Sound`: the buffer holds packets exactly while `agg_state` is
    `-EINPROGRESS`, and then somebody attends to it: the timer, its callback, the
    work or its function.
  * Every section keeps `Sound`.  So does every step but one: a `hrtimer_cancel`
    that comes so late that another caller has begun a new buffer and armed the
    timer again (`Sound.hrtimerCancel_iff`).
  * **`neverStrands`** is the fact over runs without such a cancel, and
    `neverStrands_lateCancel` a run with one.
-/
import Sm8850.Rmnet.Aggregation

namespace Sm8850.Rmnet

/-- Somebody will flush the buffer. -/
def Attended (st : Agg) : Prop :=
  st.hrtimer.armed = true ∨ st.hrtimer.running = true ∨
    st.aggWq.pending = true ∨ st.aggWq.running = true

/-- The invariant of an aggregation state. -/
structure Sound (st : Agg) : Prop where
  inProgress : st.aggState = -EINPROGRESS ↔ st.aggSkb ≠ none
  attended : st.aggSkb ≠ none → Attended st

section
variable {τ : Type} [DecidableEq τ] {port : Port} {st st' : Agg} {skb buf : SkBuff} {k : After}
  {e : Env} {c : Call} {s s' : Sys τ} {a : Act τ} {t : τ}

theorem sound_init : Sound Agg.init :=
  ⟨⟨fun h => by simp [Agg.init, EINPROGRESS] at h, fun h => absurd rfl h⟩, fun h => absurd rfl h⟩

/-! ## What a section does -/

/-- The buffer was shipped, so there is nothing left to attend to. -/
theorem sound_shipped (st : Agg) (skb : SkBuff) :
    Sound ({ st.reset with aggState := 0 }.send skb) :=
  ⟨⟨fun h => by simp [Agg.send, Agg.reset, EINPROGRESS] at h, fun h => absurd rfl h⟩,
    fun h => absurd rfl h⟩

/-- `Sound` reads the timer, the work, the buffer and `agg_state` only. -/
theorem Sound.congr (h : Sound st) (hstate : st'.aggState = st.aggState)
    (hskb : st'.aggSkb = st.aggSkb) (htimer : st'.hrtimer = st.hrtimer)
    (hwork : st'.aggWq = st.aggWq) : Sound st' := by
  refine ⟨by rw [hstate, hskb]; exact h.inProgress, fun hb => ?_⟩
  rw [hskb] at hb
  unfold Attended
  rw [htimer, hwork]
  exact h.attended hb

/-- Adding to the buffer, and starting one: whoever the state says is on the way, or
    else the timer, will flush it. -/
theorem Sound.schedule (h : Sound st) (hstate : st'.aggState = st.aggState)
    (htimer : st'.hrtimer = st.hrtimer) (hwork : st'.aggWq = st.aggWq)
    (hskb : st'.aggSkb = some buf) : Sound st'.schedule := by
  unfold Agg.schedule
  split
  · have hbuf : (hrtimerStart { st' with aggState := -EINPROGRESS }).aggSkb ≠ none := by
      show st'.aggSkb ≠ none
      rw [hskb]
      exact Option.some_ne_none buf
    exact ⟨⟨fun _ => hbuf, fun _ => rfl⟩, fun _ => .inl rfl⟩
  · rename_i hin
    have hin : st.aggState = -EINPROGRESS := hstate ▸ not_not.1 hin
    refine ⟨⟨fun _ => ?_, fun _ => hstate.trans hin⟩, fun _ => ?_⟩
    · rw [hskb]
      exact Option.some_ne_none buf
    · unfold Attended
      rw [htimer, hwork]
      exact h.attended (h.inProgress.1 hin)

theorem Sound.rmnetMapSendAggSkb (h : Sound st) (k : After) :
    Sound (rmnetMapSendAggSkb st k).1 := by
  unfold Rmnet.rmnetMapSendAggSkb
  split
  · exact h
  · exact sound_shipped st _

theorem Sound.rmnetMapTxQmapCmd (h : Sound st) (skb : SkBuff) (port : Port) (flush : Bool) :
    Sound (rmnetMapTxQmapCmd st skb port flush).1 := by
  unfold Rmnet.rmnetMapTxQmapCmd
  split
  · split
    · exact h
    · exact sound_shipped st _
  · exact h

theorem Sound.rmnetMapTxAggregate (h : Sound st) {r : Agg × Call}
    (hr : rmnetMapTxAggregate st skb port e = some r) : Sound r.1 := by
  have hnow : Sound { st with aggLast := e.now } := h.congr rfl rfl rfl rfl
  simp only [Rmnet.rmnetMapTxAggregate] at hr
  split at hr
  · -- a priority packet
    obtain rfl := Option.some.inj hr
    exact hnow.rmnetMapSendAggSkb _
  · split at hr
    · rename_i hnone
      split at hr
      · obtain rfl := Option.some.inj hr
        exact hnow.congr rfl rfl rfl rfl
      · split at hr
        · obtain rfl := Option.some.inj hr
          exact hnow.congr rfl hnone.symm rfl rfl
        · -- a new buffer
          obtain ⟨buf, -, hr⟩ := Option.bind_eq_some_iff.1 hr
          obtain rfl := Option.some.inj hr
          exact h.schedule rfl rfl rfl rfl
    · split at hr
      · obtain rfl := Option.some.inj hr
        exact hnow.rmnetMapSendAggSkb _
      · obtain ⟨buf, -, hr⟩ := Option.bind_eq_some_iff.1 hr
        obtain rfl := Option.some.inj hr
        exact h.schedule rfl rfl rfl rfl

/-- The work leaves no buffer behind, whoever filled it. -/
theorem Sound.rmnetMapFlushTxPacketWork (h : Sound st) :
    (rmnetMapFlushTxPacketWork st).aggSkb = none ∧
    (rmnetMapFlushTxPacketWork st).aggState ≠ -EINPROGRESS := by
  unfold Rmnet.rmnetMapFlushTxPacketWork
  split
  · split
    · rename_i hnone
      exact ⟨hnone, by simp [EINPROGRESS]⟩
    · exact ⟨rfl, by simp [Agg.send, Agg.reset, EINPROGRESS]⟩
  · rename_i hin
    exact ⟨not_not.1 (mt h.inProgress.2 hin), hin⟩

/-! ## What a step does -/

/-- The step is not a late `hrtimer_cancel`: one that finds a new buffer which only
    the timer attends to. -/
def InTime (s : Sys τ) : Act τ → Prop
  | .hrtimerCancel _ => s.agg.aggSkb = none ∨ s.agg.aggWq.pending = true ∨
      s.agg.aggWq.running = true
  | _ => True

/-- What a `hrtimer_cancel` changes: it waits for the callback and disarms the timer. -/
theorem hrtimerCancel_frame (hst : step port s (.hrtimerCancel t) = some s') :
    s'.agg.hrtimer.running = false ∧ s'.agg.hrtimer.armed = false ∧
    s'.agg.aggWq = s.agg.aggWq ∧ s'.agg.aggSkb = s.agg.aggSkb ∧
    s'.agg.aggState = s.agg.aggState := by
  simp only [step] at hst
  split at hst
  · split at hst
    · cases hst
    · rename_i hrun
      obtain rfl := Option.some.inj hst
      exact ⟨Bool.eq_false_iff.2 hrun, rfl, rfl, rfl, rfl⟩
  · cases hst

/-- A `hrtimer_cancel` keeps the invariant exactly when it comes in time. -/
theorem Sound.hrtimerCancel_iff (h : Sound s.agg) (hst : step port s (.hrtimerCancel t) = some s') :
    Sound s'.agg ↔ InTime s (.hrtimerCancel t) := by
  obtain ⟨hrun', harm, hwq, hskb, hstate⟩ := hrtimerCancel_frame hst
  constructor
  · intro h'
    by_cases hbuf : s.agg.aggSkb = none
    · exact .inl hbuf
    · refine .inr ?_
      rcases h'.attended (hskb ▸ hbuf) with ha | hr | hp | hw
      · exact absurd ha (by rw [harm]; exact Bool.false_ne_true)
      · exact absurd hr (by rw [hrun']; exact Bool.false_ne_true)
      · exact .inl (hwq ▸ hp)
      · exact .inr (hwq ▸ hw)
  · intro hin
    refine ⟨by rw [hstate, hskb]; exact h.inProgress, fun hbuf => ?_⟩
    rcases hin with hnone | hp | hw
    · exact absurd hnone (hskb ▸ hbuf)
    · exact .inr (.inr (.inl (hwq ▸ hp)))
    · exact .inr (.inr (.inr (hwq ▸ hw)))

/-- A section under `agg_lock` keeps the invariant. -/
theorem Sound.locked (h : Sound s.agg) (hst : step port s (.locked t e) = some s') :
    Sound s'.agg := by
  simp only [step] at hst
  split at hst
  · obtain ⟨r, hr, rfl⟩ := Option.map_eq_some_iff.1 hst
    exact h.rmnetMapTxAggregate hr
  · obtain rfl := Option.some.inj hst
    exact h.rmnetMapSendAggSkb _
  · obtain rfl := Option.some.inj hst
    exact h.rmnetMapTxQmapCmd _ _ _
  · cases hst

/-- The timer and the work hand the buffer on. -/
theorem Sound.handOn (h : Sound st) (hstate : st'.aggState = st.aggState)
    (hskb : st'.aggSkb = st.aggSkb) (hatt : Attended st') : Sound st' :=
  ⟨by rw [hstate, hskb]; exact h.inProgress, fun _ => hatt⟩

theorem Sound.step (h : Sound s.agg) (hin : InTime s a) (hst : step port s a = some s') :
    Sound s'.agg := by
  cases a with
  | enter t c =>
    simp only [Rmnet.step] at hst
    split at hst
    · split at hst
      · obtain rfl := Option.some.inj hst
        exact h
      · cases hst
    · cases hst
  | locked t e => exact h.locked hst
  | hrtimerCancel t => exact (h.hrtimerCancel_iff hst).2 hin
  | xmit t =>
    simp only [Rmnet.step] at hst
    split at hst
    · obtain rfl := Option.some.inj hst
      exact h.congr rfl rfl rfl rfl
    · cases hst
  | timerFires =>
    simp only [Rmnet.step] at hst
    split at hst
    · obtain rfl := Option.some.inj hst
      exact h.handOn rfl rfl (.inr (.inl rfl))
    · cases hst
  | timerCallback =>
    simp only [Rmnet.step] at hst
    split at hst
    · obtain rfl := Option.some.inj hst
      exact h.handOn rfl rfl (.inr (.inr (.inl rfl)))
    · cases hst
  | workStarts =>
    simp only [Rmnet.step] at hst
    split at hst
    · obtain rfl := Option.some.inj hst
      exact h.handOn rfl rfl (.inr (.inr (.inr rfl)))
    · cases hst
  | workRuns =>
    simp only [Rmnet.step] at hst
    split at hst
    · obtain rfl := Option.some.inj hst
      have hw := h.rmnetMapFlushTxPacketWork
      exact ⟨⟨fun hs => absurd hs hw.2, fun hb => absurd hw.1 hb⟩, fun hb => absurd hw.1 hb⟩
    · cases hst
  | config size count features time =>
    obtain rfl := Option.some.inj hst
    unfold rmnetMapUpdateUlAggConfig
    split <;> exact h.congr rfl rfl rfl rfl

/-! ## Runs -/

/-- A run from the state of `rmnet_map_tx_aggregate_init`, every step as allowed. -/
inductive Run (port : Port) (allowed : Sys τ → Act τ → Prop) : Sys τ → Prop
  | init : Run port allowed Sys.init
  | step {s s' : Sys τ} (a : Act τ) (hs : Run port allowed s) (ha : allowed s a)
      (hst : Rmnet.step port s a = some s') : Run port allowed s'

/-- No call is in progress: no caller, not the callback of the timer, not the work. -/
def Quiet (s : Sys τ) : Prop :=
  (∀ t, s.call t = .idle) ∧ s.agg.hrtimer.running = false ∧ s.agg.aggWq.running = false

/-- When no call is in progress and the buffer holds packets, the timer is armed or the
    work is pending. -/
def NeverStrands (s : Sys τ) : Prop :=
  Quiet s → s.agg.aggSkb ≠ none → s.agg.hrtimer.armed = true ∨ s.agg.aggWq.pending = true

theorem Run.sound (hs : Run port InTime s) : Sound s.agg := by
  induction hs with
  | init => exact sound_init
  | step a _ ha hst ih => exact ih.step ha hst

/-- A run given by the list of its actions. -/
theorem Run.of_acts {allowed : Sys τ → Act τ → Prop} (acts : List (Act τ))
    (hs : Run port allowed s) (hall : ∀ s, ∀ a ∈ acts, allowed s a)
    (hst : acts.foldlM (Rmnet.step port) s = some s') : Run port allowed s' := by
  induction acts generalizing s with
  | nil => exact Option.some.inj hst ▸ hs
  | cons a acts ih =>
    rw [List.foldlM_cons] at hst
    obtain ⟨s₁, h₁, hst⟩ := Option.bind_eq_some_iff.1 hst
    exact ih (hs.step a (hall s a List.mem_cons_self) h₁)
      (fun s b hb => hall s b (List.mem_cons_of_mem _ hb)) hst

end

/-- **Packets are never stranded** in a run whose every `hrtimer_cancel` comes in
    time: before another caller begins a new buffer, or with the flush work already
    on its way.  A cancel that comes later, from the last call in progress, strands
    them. -/
theorem neverStrands {τ : Type} [DecidableEq τ] (port : Port) {s : Sys τ}
    (hs : Run port InTime s) :
    NeverStrands s ∧
    ∀ t s', step port s (.hrtimerCancel t) = some s' → (∀ u, s'.call u = .idle) →
      (NeverStrands s' ↔ InTime s (.hrtimerCancel t)) := by
  have quiet : ∀ {s : Sys τ}, Sound s.agg → NeverStrands s := by
    rintro s h ⟨-, hcb, hwork⟩ hbuf
    rcases h.attended hbuf with ha | hr | hp | hw
    · exact .inl ha
    · exact absurd hr (by rw [hcb]; exact Bool.false_ne_true)
    · exact .inr hp
    · exact absurd hw (by rw [hwork]; exact Bool.false_ne_true)
  refine ⟨quiet hs.sound, fun t s' hst hidle => ⟨fun hnever => ?_, fun hin =>
    quiet ((hs.sound.hrtimerCancel_iff hst).2 hin)⟩⟩
  obtain ⟨hcb, harm, hwq, hskb, -⟩ := hrtimerCancel_frame hst
  by_cases hbuf : s.agg.aggSkb = none
  · exact .inl hbuf
  by_cases hw : s.agg.aggWq.running = true
  · exact .inr (.inr hw)
  have hq : Quiet s' := ⟨hidle, hcb, by rw [hwq]; exact Bool.eq_false_iff.2 hw⟩
  rcases hnever hq (by rw [hskb]; exact hbuf) with ha | hp
  · exact absurd ha (by rw [harm]; exact Bool.false_ne_true)
  · exact .inr (.inl (hwq ▸ hp))

/-- One packet is bypassed, the next one begins a buffer. -/
def beginBuffer : List (Act Bool) :=
  [.enter true (.txAggregate ⟨[1], 64, 0⟩), .locked true ⟨⟨1700000000, 0⟩, ⟨0, 0⟩, true⟩,
    .enter true (.txAggregate ⟨[2], 64, 0⟩),
    .locked true ⟨⟨1700000000, 1000⟩, ⟨1700000000, 1100⟩, true⟩]

/-- A command flushes the buffer; before its `hrtimer_cancel` another caller begins the
    next one. -/
def cancelLate : List (Act Bool) :=
  [.enter true (.txQmapCmd ⟨[9], 64, 0⟩ true), .locked true ⟨⟨0, 0⟩, ⟨0, 0⟩, true⟩,
    .enter false (.txAggregate ⟨[3], 64, 0⟩),
    .locked false ⟨⟨1700000000, 2000⟩, ⟨1700000000, 2100⟩, true⟩,
    .hrtimerCancel true, .xmit true]

/-- The buffer is attended to once it is begun. -/
theorem neverStrands_beginBuffer :
    ∃ s : Sys Bool, s.agg.aggSkb ≠ none ∧ NeverStrands s := by
  have hin : ∀ (s : Sys Bool), ∀ a ∈ beginBuffer, InTime s a := by
    intro s
    simp [beginBuffer, InTime]
  have hrun : Run ⟨false, true⟩ InTime _ := .of_acts beginBuffer .init hin rfl
  exact ⟨_, by decide, (neverStrands ⟨false, true⟩ hrun).1⟩

/-- The late cancel disarms the timer of the new buffer. -/
theorem neverStrands_lateCancel :
    ¬ ∀ (port : Port) (s : Sys Bool), Run port (fun _ _ => True) s → NeverStrands s := by
  intro hall
  have hrun : Run ⟨false, true⟩ (fun (_ : Sys Bool) _ => True) _ :=
    .of_acts (beginBuffer ++ cancelLate) .init (fun _ _ _ => trivial) rfl
  have hnever := hall _ _ hrun
  rcases hnever ⟨Bool.forall_bool.2 ⟨rfl, rfl⟩, rfl, rfl⟩ (by decide) with h | h
  · exact Bool.false_ne_true h
  · exact Bool.false_ne_true h

end Sm8850.Rmnet
