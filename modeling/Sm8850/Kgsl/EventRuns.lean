/-
  Every event fires once.

  * `Group.Inv`: the events added are those on the list and those queued to the worker, each
    once; the references count; a listed event waits for a timestamp that was not reached
    when it was added nor when the group was last processed, less than half the range ago;
    and each event queued has the result it should have.
  * `Gone` and `PastBy` are kept by every act: an event that left the list does not come
    back, and no event comes on the list that an earlier timestamp had reached.
  * **`events_fire_once`**: so this holds in every run, and a call that has returned left
    nothing on the list that it was to take.
-/
import Mathlib.Algebra.Order.Group.Nat
import Mathlib.Data.List.Perm.Basic
import Sm8850.Kgsl.Events

namespace Sm8850.Kgsl.Events

open Dispatch (timestampCmp timestampWindow)

variable {g g' g₁ g₂ : Group} {e : Event} {a : Act} {as : List Act} {i k R : ℕ} {flush : Bool}
  {caller : Caller} {f : Event → Option Result}

/-! ## Invariant -/

/-- The events that were added: on the list, queued to the worker, or run. -/
def Group.settled (g : Group) : List ℕ :=
  g.events.map (·.id) ++ (g.work ++ g.ran).map (·.event.id)

/-- The event waits for a timestamp that is not older than any the group was processed at. -/
structure Group.Waits (g : Group) (e : Event) : Prop where
  later : timestampCmp e.since e.timestamp < 0
  since_le : e.since ≤ g.retired
  near : g.retired < e.since + timestampWindow
  unprocessed : ¬ Reached e.since e.timestamp g.processed

/-- The event was queued with the result it should have. -/
structure Signal.Right (s : Signal) : Prop where
  retired : s.result = .retired → Reached s.event.since s.event.timestamp s.readAt
  cancelled : s.result = .cancelled → s.caller.Cancels

/-- The references to the context. -/
def Group.references (g : Group) : ℕ :=
  g.others + g.adding.length + g.processing.length + g.events.length + g.work.length +
    g.working.toNat

structure Group.Inv (g : Group) : Prop where
  nodup : (g.adding.map (·.id) ++ g.settled).Nodup
  fresh : ∀ i ∈ g.adding.map (·.id) ++ g.settled, i < g.next
  added : g.added.Perm g.settled
  refs : g.hasContext = true → g.refcount = g.references
  processed_le : g.processed ≤ g.retired
  waits : ∀ e ∈ g.events, g.Waits e
  right : ∀ s ∈ g.work ++ g.ran, s.Right

theorem Group.inv_init (hasContext userGeneratedTs : Bool) (others : ℕ) :
    (Group.init hasContext userGeneratedTs others).Inv where
  nodup := List.nodup_nil
  fresh := by intros; contradiction
  added := .refl _
  refs _ := rfl
  processed_le := le_rfl
  waits := by intros; contradiction
  right := by intros; contradiction

/-! ## Sections keep it -/

/-- A reference that was taken. -/
theorem contextGet_eq (hg : g.contextGet = some g') :
    g' = { g with refcount := g'.refcount } ∧
      (g.hasContext = true → g.refcount ≠ 0 ∧ g'.refcount = g.refcount + 1) := by
  unfold Group.contextGet at hg
  split_ifs at hg with hc h0
  · cases hg
    exact ⟨rfl, fun _ => ⟨h0, rfl⟩⟩
  · cases hg
    exact ⟨rfl, fun h => absurd h hc⟩

theorem contextGet_eq_none : g.contextGet = none ↔ g.hasContext = true ∧ g.refcount = 0 := by
  unfold Group.contextGet
  split_ifs with hc h0 <;> simp_all

/-- A reference that was put. -/
theorem contextPut_eq (g : Group) :
    g.contextPut = { g with refcount := g.contextPut.refcount } ∧
      (g.hasContext = true → g.contextPut.refcount = g.refcount - 1) := by
  unfold Group.contextPut
  split_ifs with hc
  · exact ⟨rfl, fun _ => rfl⟩
  · exact ⟨rfl, fun h => absurd h hc⟩

/-- Events that only change places are still told apart, and old. -/
theorem Group.Inv.of_perm (h : g.Inv) (g' : Group) (hnext : g'.next = g.next)
    (hperm : (g'.adding.map (·.id) ++ g'.settled).Perm (g.adding.map (·.id) ++ g.settled)) :
    (g'.adding.map (·.id) ++ g'.settled).Nodup ∧
      ∀ i ∈ g'.adding.map (·.id) ++ g'.settled, i < g'.next := by
  rw [hnext]
  exact ⟨hperm.nodup_iff.mpr h.nodup, fun i hi => h.fresh i (hperm.mem_iff.mp hi)⟩

/-- Events that leave the list with the right result are settled as before. -/
theorem Group.Inv.signal (h : g.Inv)
    (hright : ∀ e ∈ g.events, ∀ r, f e = some r → Signal.Right ⟨e, r, caller, g.retired⟩) :
    (g.signal caller f).Inv := by
  have hperm := signalEach_perm f g.events
  have hsettled : (g.signal caller f).settled.Perm g.settled := by
    refine List.perm_iff_count.mpr fun i => ?_
    have hcount := (hperm.map (·.id)).count_eq i
    simp only [Group.settled, Group.signal, List.map_append, List.map_map, List.count_append,
      Function.comp_def] at hcount ⊢
    omega
  obtain ⟨hnodup, hfresh⟩ := h.of_perm (g.signal caller f) rfl (hsettled.append_left _)
  refine ⟨hnodup, hfresh, h.added.trans hsettled.symm, fun hc => ?_, h.processed_le,
    fun e he => ?_, fun s hs => ?_⟩
  · have hlength := hperm.length_eq
    simp only [List.length_append, List.length_map] at hlength
    have hrefs := h.refs hc
    simp only [Group.references, Group.signal, List.length_append, List.length_map] at hrefs ⊢
    omega
  · obtain ⟨h₁, h₂, h₃, h₄⟩ := h.waits e (mem_signalEach_fst.mp he).1
    exact ⟨h₁, h₂, h₃, h₄⟩
  · simp only [Group.signal, List.mem_append, List.mem_map, Prod.exists] at hs
    rcases hs with (hs | ⟨e, r, he, rfl⟩) | hs
    · exact h.right s (List.mem_append_left _ hs)
    · obtain ⟨he, hr⟩ := mem_signalEach_snd he
      exact hright e he r hr
    · exact h.right s (List.mem_append_right _ hs)

/-- Cancelling is right for whoever cancels. -/
theorem Signal.right_cancelled (e : Event) (hc : caller.Cancels) (R : ℕ) :
    Signal.Right ⟨e, .cancelled, caller, R⟩ :=
  ⟨nofun, fun _ => hc⟩

theorem Group.Inv.addEvent (h : g.Inv) (func : Option ℕ) (timestamp priv queued : ℕ)
    (alloc : Bool) : (g.addEvent func timestamp priv queued alloc).Inv := by
  unfold Group.addEvent
  cases func with
  | none => exact h
  | some func =>
    dsimp only
    split_ifs
    · exact h
    · exact h
    · cases hget : g.contextGet with
      | none => exact h
      | some g₁ =>
        obtain ⟨heq, hrefs⟩ := contextGet_eq hget
        dsimp only
        rw [heq]
        refine ⟨?_, ?_, h.added, fun hc => ?_, h.processed_le, fun e he => ?_, h.right⟩
        · have hnew : g.next ∉ g.adding.map (·.id) ++ g.settled :=
            fun hmem => lt_irrefl _ (h.fresh _ hmem)
          have hperm := @List.perm_middle _ g.next (g.adding.map (·.id)) g.settled
          have hnodup := hperm.nodup_iff.mpr (List.nodup_cons.mpr ⟨hnew, h.nodup⟩)
          simpa [Group.settled] using hnodup
        · intro i hi
          simp only [List.map_append, List.map_cons, List.map_nil, List.append_assoc,
            List.mem_append, List.mem_singleton] at hi
          rcases hi with hi | rfl | hi
          · exact Nat.lt_succ_of_lt (h.fresh i (List.mem_append_left _ hi))
          · exact Nat.lt_succ_self _
          · exact Nat.lt_succ_of_lt (h.fresh i (List.mem_append_right _ hi))
        · have hold := h.refs hc
          have hnew := (hrefs hc).2
          simp only [Group.references, List.length_append, List.length_singleton] at hold ⊢
          omega
        · obtain ⟨h₁, h₂, h₃, h₄⟩ := h.waits e he
          exact ⟨h₁, h₂, h₃, h₄⟩

/-- The timestamp of an event is not older than those the group was processed at. -/
theorem not_reached_of_later {since ts : ℕ} (h : timestampCmp since ts < 0) (hR : R ≤ since) :
    ¬ Reached since ts R := by
  rintro (h' | ⟨t, h₁, h₂, -⟩)
  · omega
  · omega

/-- The event of the call at that place is settled. -/
theorem Group.Inv.of_place (h : g.Inv) (g' : Group) (he : g.adding[i]? = some e)
    (hnext : g'.next = g.next) (hadding : g'.adding = g.adding.eraseIdx i)
    (hadded : g'.added = g.added ++ [e.id]) (hsettled : g'.settled.Perm (e.id :: g.settled)) :
    (g'.adding.map (·.id) ++ g'.settled).Nodup ∧
      (∀ i ∈ g'.adding.map (·.id) ++ g'.settled, i < g'.next) ∧ g'.added.Perm g'.settled := by
  obtain ⟨hi, rfl⟩ := List.getElem?_eq_some_iff.mp he
  have hmove := (List.getElem_cons_eraseIdx_perm hi).map (·.id)
  have hperm : (g'.adding.map (·.id) ++ g'.settled).Perm (g.adding.map (·.id) ++ g.settled) := by
    rw [hadding]
    refine (hsettled.append_left _).trans (List.perm_middle.trans ?_)
    exact hmove.append_right g.settled
  obtain ⟨hnodup, hfresh⟩ := h.of_perm g' hnext hperm
  refine ⟨hnodup, hfresh, ?_⟩
  rw [hadded]
  exact (List.perm_append_comm.trans (h.added.cons _)).trans hsettled.symm

theorem Group.Inv.addEventLocked (h : g.Inv) (hg : g.addEventLocked i = some g') : g'.Inv := by
  unfold Group.addEventLocked at hg
  cases he : g.adding[i]? with
  | none =>
    rw [he] at hg
    cases hg
  | some e =>
    rw [he] at hg
    have hi := (List.getElem?_eq_some_iff.mp he).1
    have hlength := List.length_eraseIdx_add_one hi
    dsimp only at hg
    split_ifs at hg with hcmp <;> rw [Option.some.injEq] at hg
    · have hsettled : g'.settled.Perm (e.id :: g.settled) := by
        simp only [← hg, Group.settled, List.map_append, List.map_cons, List.map_nil,
          List.append_assoc]
        rw [← List.append_assoc]
        refine List.perm_middle.trans ?_
        rw [List.append_assoc]
        exact .refl _
      obtain ⟨hnodup, hfresh, hadded⟩ :=
        h.of_place g' he (by rw [← hg]) (by rw [← hg]) (by rw [← hg]) hsettled
      subst hg
      refine ⟨hnodup, hfresh, hadded, fun hc => ?_, h.processed_le, fun e he => ?_,
        fun s hs => ?_⟩
      · have hrefs := h.refs hc
        simp only [Group.references, List.length_append, List.length_singleton] at hrefs ⊢
        omega
      · obtain ⟨h₁, h₂, h₃, h₄⟩ := h.waits e he
        exact ⟨h₁, h₂, h₃, h₄⟩
      · simp only [List.append_assoc, List.mem_append, List.mem_singleton] at hs
        rcases hs with hs | rfl | hs
        · exact h.right s (List.mem_append_left _ hs)
        · exact ⟨fun _ => .inl hcmp, nofun⟩
        · exact h.right s (List.mem_append_right _ hs)
    · have hsettled : g'.settled.Perm (e.id :: g.settled) := by
        simp only [← hg, Group.settled, List.map_append, List.map_cons, List.map_nil,
          List.append_assoc]
        exact List.perm_middle
      obtain ⟨hnodup, hfresh, hadded⟩ :=
        h.of_place g' he (by rw [← hg]) (by rw [← hg]) (by rw [← hg]) hsettled
      subst hg
      refine ⟨hnodup, hfresh, hadded, fun hc => ?_, h.processed_le, fun e he => ?_, h.right⟩
      · have hrefs := h.refs hc
        simp only [Group.references, List.length_append, List.length_singleton] at hrefs ⊢
        omega
      · rcases List.mem_append.mp he with he | he
        · obtain ⟨h₁, h₂, h₃, h₄⟩ := h.waits e he
          exact ⟨h₁, h₂, h₃, h₄⟩
        · rw [List.mem_singleton] at he
          subst he
          have hlater := not_le.mp hcmp
          exact ⟨hlater, le_rfl, Nat.lt_add_of_pos_right (by decide),
            not_reached_of_later hlater h.processed_le⟩

/-- An event that is retired or cancelled by `_process_event_group` is so rightly. -/
theorem Group.Waits.right (hw : g.Waits e) {r : Result} (hv : verdict flush g.retired e = some r) :
    Signal.Right ⟨e, r, if flush then .flushEventGroup else .processEventGroup, g.retired⟩ := by
  unfold verdict at hv
  split_ifs at hv with hcmp hflush <;> cases hv
  · exact ⟨fun _ => (timestampCmp_iff_reached hw.later hw.since_le hw.near).mp hcmp, nofun⟩
  · rw [if_pos hflush]
    exact Signal.right_cancelled e (by trivial) _

/-- An event that is left on the list waits for a timestamp that is not reached yet. -/
theorem Group.Waits.not_reached (hw : g.Waits e) (hv : verdict flush g.retired e = none) :
    ¬ Reached e.since e.timestamp g.retired := by
  unfold verdict at hv
  split_ifs at hv with hcmp
  exact fun h => hcmp ((timestampCmp_iff_reached hw.later hw.since_le hw.near).mpr h)

theorem Group.Inv.processLocked (h : g.Inv) (flush : Bool) : (g.processLocked flush).Inv := by
  unfold Group.processLocked
  split
  · exact h
  · have hs : (g.signal _ (verdict flush g.retired)).Inv :=
      h.signal fun e he r hr => (h.waits e he).right hr
    refine ⟨hs.nodup, hs.fresh, hs.added, hs.refs, le_rfl, fun e he => ?_, hs.right⟩
    obtain ⟨hmem, hv⟩ := mem_signalEach_fst.mp he
    have hw := h.waits e hmem
    exact ⟨hw.later, hw.since_le, hw.near, hw.not_reached hv⟩

/-- The invariant does not depend on how the references are counted. -/
theorem Group.Inv.of_refs (h : g.Inv) (g' : Group)
    (heq : g' = { g with
      refcount := g'.refcount
      others := g'.others
      processing := g'.processing
      working := g'.working })
    (hrefs : g.hasContext = true → g'.refcount = g'.references) : g'.Inv := by
  rw [heq] at hrefs ⊢
  refine ⟨h.nodup, h.fresh, h.added, hrefs, h.processed_le, fun e he => ?_, h.right⟩
  obtain ⟨h₁, h₂, h₃, h₄⟩ := h.waits e he
  exact ⟨h₁, h₂, h₃, h₄⟩

theorem Group.Inv.step (h : g.Inv) (hg : g.step a = some g') : g'.Inv := by
  cases a with
  | addEvent func timestamp priv queued alloc =>
    cases hg
    exact h.addEvent func timestamp priv queued alloc
  | addEventLocked i => exact h.addEventLocked hg
  | processEventGroup flush =>
    cases hg
    unfold Group.processEventGroup
    cases hget : g.contextGet with
    | none => exact h
    | some g₁ =>
      obtain ⟨heq, hrefs⟩ := contextGet_eq hget
      dsimp only
      rw [heq]
      refine h.of_refs _ rfl fun hc => ?_
      have hold := h.refs hc
      have hnew := (hrefs hc).2
      simp only [Group.references, List.length_append, List.length_singleton] at hold ⊢
      omega
  | processLocked i =>
    simp only [Group.step] at hg
    split at hg <;> cases hg
    rename_i flush hp
    have hi := h.processLocked flush
    refine hi.of_refs _ rfl fun hc => ?_
    have hlength : (g.processLocked flush).processing = g.processing := by
      unfold Group.processLocked
      split_ifs <;> rfl
    have hrefs := hi.refs hc
    simp only [Group.references, List.length_set, hlength] at hrefs ⊢
    exact hrefs
  | processReturn i =>
    simp only [Group.step] at hg
    split at hg <;> cases hg
    rename_i hp
    obtain ⟨heq, hrefs⟩ := contextPut_eq g
    rw [heq]
    refine h.of_refs _ rfl fun hc => ?_
    have hold := h.refs hc
    have hnew := hrefs hc
    have hlength := List.length_eraseIdx_add_one (List.getElem?_eq_some_iff.mp hp).1
    simp only [Group.references] at hold ⊢
    omega
  | cancelEventsTimestamp timestamp =>
    cases hg
    refine h.signal fun e _ r hr => ?_
    split_ifs at hr
    cases hr
    exact Signal.right_cancelled e (by trivial) _
  | cancelEvents =>
    cases hg
    refine h.signal fun e _ r hr => ?_
    cases hr
    exact Signal.right_cancelled e (by trivial) _
  | cancelEvent timestamp func priv =>
    cases hg
    refine h.signal fun e _ r hr => ?_
    split_ifs at hr
    cases hr
    exact Signal.right_cancelled e (by trivial) _
  | worker =>
    simp only [Group.step] at hg
    split at hg
    · cases hg
    rename_i s work hwork
    split_ifs at hg with hworking
    cases hg
    have hperm : (work ++ (g.ran ++ [s])).Perm (g.work ++ g.ran) := by
      rw [hwork, ← List.append_assoc]
      exact List.perm_append_comm
    have hsettled : (g.events.map (·.id) ++ (work ++ (g.ran ++ [s])).map (·.event.id)).Perm
        g.settled := (hperm.map _).append_left _
    obtain ⟨hnodup, hfresh⟩ := h.of_perm { g with work, working := true, ran := g.ran ++ [s] } rfl
      (hsettled.append_left _)
    refine ⟨hnodup, hfresh, h.added.trans hsettled.symm, fun hc => ?_, h.processed_le,
      fun e he => ?_, fun t ht => h.right t (hperm.mem_iff.mp ht)⟩
    · have hrefs := h.refs hc
      rw [Bool.not_eq_true] at hworking
      simp only [Group.references, hwork, hworking, List.length_cons, Bool.toNat_false,
        Bool.toNat_true] at hrefs ⊢
      omega
    · obtain ⟨h₁, h₂, h₃, h₄⟩ := h.waits e he
      exact ⟨h₁, h₂, h₃, h₄⟩
  | workerReturn =>
    simp only [Group.step] at hg
    split_ifs at hg with hworking
    cases hg
    obtain ⟨heq, hrefs⟩ := contextPut_eq g
    rw [heq]
    refine h.of_refs _ rfl fun hc => ?_
    have hold := h.refs hc
    have hnew := hrefs hc
    simp only [Group.references, hworking, Bool.toNat_false, Bool.toNat_true] at hold ⊢
    omega
  | get =>
    obtain ⟨g₁, hget, rfl⟩ := Option.map_eq_some_iff.mp hg
    obtain ⟨heq, hrefs⟩ := contextGet_eq hget
    rw [heq]
    refine h.of_refs _ rfl fun hc => ?_
    have hold := h.refs hc
    have hnew := (hrefs hc).2
    simp only [Group.references] at hold ⊢
    omega
  | put =>
    simp only [Group.step] at hg
    split_ifs at hg with hothers
    cases hg
    obtain ⟨heq, hrefs⟩ := contextPut_eq g
    rw [heq]
    refine h.of_refs _ rfl fun hc => ?_
    have hold := h.refs hc
    have hnew := hrefs hc
    simp only [Group.references] at hold ⊢
    omega
  | retire n =>
    simp only [Group.step] at hg
    split_ifs at hg with hnear
    cases hg
    refine ⟨h.nodup, h.fresh, h.added, h.refs, h.processed_le.trans (Nat.le_add_right _ _),
      fun e he => ?_, h.right⟩
    obtain ⟨h₁, h₂, -, h₄⟩ := h.waits e he
    exact ⟨h₁, h₂.trans (Nat.le_add_right _ _), hnear e he, h₄⟩

theorem Group.Inv.run (h : g.Inv) (hg : g.run as = some g') : g'.Inv := by
  induction as generalizing g with
  | nil =>
    cases hg
    exact h
  | cons a as ih =>
    obtain ⟨g₁, hstep, hrun⟩ := Option.bind_eq_some_iff.mp hg
    exact ih (h.step hstep) hrun

/-! ## The list from one act to the next -/

/-- What every act leaves as it was: the only new event on the list is one that was being
    added and is not retired yet. -/
structure Onward (g g' : Group) : Prop where
  retired_le : g.retired ≤ g'.retired
  next_le : g.next ≤ g'.next
  adding : ∀ k ∈ g'.adding.map (·.id), k ∈ g.adding.map (·.id) ∨ g.next ≤ k
  events : ∀ e ∈ g'.events, e ∈ g.events ∨
    e.id ∈ g.adding.map (·.id) ∧ e.since = g.retired ∧ timestampCmp e.since e.timestamp < 0

theorem Onward.refl (g : Group) : Onward g g :=
  ⟨le_rfl, le_rfl, fun _ => .inl, fun _ => .inl⟩

theorem Onward.signal (g : Group) (caller : Caller) (f : Event → Option Result) :
    Onward g (g.signal caller f) :=
  ⟨le_rfl, le_rfl, fun _ => .inl, fun _ he => .inl (mem_signalEach_fst.mp he).1⟩

theorem Onward.addEvent (g : Group) (func : Option ℕ) (timestamp priv queued : ℕ) (alloc : Bool) :
    Onward g (g.addEvent func timestamp priv queued alloc) := by
  unfold Group.addEvent
  cases func with
  | none => exact .refl g
  | some func =>
    dsimp only
    split_ifs
    · exact .refl g
    · exact .refl g
    · cases hget : g.contextGet with
      | none => exact .refl g
      | some g₁ =>
        rw [(contextGet_eq hget).1]
        refine ⟨le_rfl, Nat.le_succ _, fun k hk => ?_, fun _ => .inl⟩
        simp only [List.map_append, List.map_cons, List.map_nil, List.mem_append,
          List.mem_singleton] at hk
        exact hk.imp_right fun hk => hk.ge

theorem Onward.addEventLocked (hg : g.addEventLocked i = some g') : Onward g g' := by
  unfold Group.addEventLocked at hg
  cases he : g.adding[i]? with
  | none =>
    rw [he] at hg
    cases hg
  | some e =>
    rw [he] at hg
    have hadding : ∀ k ∈ (g.adding.eraseIdx i).map (·.id),
        k ∈ g.adding.map (·.id) ∨ g.next ≤ k := by
      intro k hk
      obtain ⟨x, hx, rfl⟩ := List.mem_map.mp hk
      exact .inl (List.mem_map_of_mem (List.mem_of_mem_eraseIdx hx))
    dsimp only at hg
    split_ifs at hg with hcmp <;> cases hg
    · exact ⟨le_rfl, le_rfl, hadding, fun _ => .inl⟩
    · refine ⟨le_rfl, le_rfl, hadding, fun x hx => ?_⟩
      rcases List.mem_append.mp hx with hx | hx
      · exact .inl hx
      · rw [List.mem_singleton] at hx
        subst hx
        exact .inr ⟨List.mem_map.mpr ⟨e, List.mem_of_getElem? he, rfl⟩, rfl, not_le.mp hcmp⟩

theorem Onward.step (hg : g.step a = some g') : Onward g g' := by
  cases a with
  | addEvent func timestamp priv queued alloc =>
    cases hg
    exact .addEvent g func timestamp priv queued alloc
  | addEventLocked i => exact .addEventLocked hg
  | processEventGroup flush =>
    cases hg
    unfold Group.processEventGroup
    cases hget : g.contextGet with
    | none => exact .refl g
    | some g₁ =>
      rw [(contextGet_eq hget).1]
      exact ⟨le_rfl, le_rfl, fun _ => .inl, fun _ => .inl⟩
  | processLocked i =>
    simp only [Group.step] at hg
    split at hg <;> cases hg
    rename_i flush hp
    unfold Group.processLocked
    split
    · exact ⟨le_rfl, le_rfl, fun _ => .inl, fun _ => .inl⟩
    · obtain ⟨h₁, h₂, h₃, h₄⟩ := Onward.signal g
        (if flush then .flushEventGroup else .processEventGroup) (verdict flush g.retired)
      exact ⟨h₁, h₂, h₃, h₄⟩
  | processReturn i =>
    simp only [Group.step] at hg
    split at hg <;> cases hg
    rw [(contextPut_eq g).1]
    exact ⟨le_rfl, le_rfl, fun _ => .inl, fun _ => .inl⟩
  | cancelEventsTimestamp timestamp =>
    cases hg
    exact .signal g _ _
  | cancelEvents =>
    cases hg
    exact .signal g _ _
  | cancelEvent timestamp func priv =>
    cases hg
    exact .signal g _ _
  | worker =>
    simp only [Group.step] at hg
    split at hg
    · cases hg
    split_ifs at hg
    cases hg
    exact ⟨le_rfl, le_rfl, fun _ => .inl, fun _ => .inl⟩
  | workerReturn =>
    simp only [Group.step] at hg
    split_ifs at hg
    cases hg
    rw [(contextPut_eq g).1]
    exact ⟨le_rfl, le_rfl, fun _ => .inl, fun _ => .inl⟩
  | get =>
    obtain ⟨g₁, hget, rfl⟩ := Option.map_eq_some_iff.mp hg
    rw [(contextGet_eq hget).1]
    exact ⟨le_rfl, le_rfl, fun _ => .inl, fun _ => .inl⟩
  | put =>
    simp only [Group.step] at hg
    split_ifs at hg
    cases hg
    rw [(contextPut_eq g).1]
    exact ⟨le_rfl, le_rfl, fun _ => .inl, fun _ => .inl⟩
  | retire n =>
    simp only [Group.step] at hg
    split_ifs at hg
    cases hg
    exact ⟨Nat.le_add_right _ _, le_rfl, fun _ => .inl, fun _ => .inl⟩

/-- The event is not on the list, nor will be. -/
def Gone (k : ℕ) (g : Group) : Prop :=
  k < g.next ∧ k ∉ g.adding.map (·.id) ∧ k ∉ g.events.map (·.id)

/-- No event on the list waits for a timestamp that `R` had reached. -/
def PastBy (R : ℕ) (g : Group) : Prop :=
  R ≤ g.retired ∧ ∀ e ∈ g.events, ¬ Reached e.since e.timestamp R

theorem Gone.onward (h : Gone k g) (ho : Onward g g') : Gone k g' := by
  obtain ⟨hnext, hadding, hevents⟩ := h
  refine ⟨hnext.trans_le ho.next_le, fun hk => ?_, fun hk => ?_⟩
  · exact (ho.adding k hk).elim hadding fun hle => absurd hnext (not_lt.mpr hle)
  · obtain ⟨e, he, rfl⟩ := List.mem_map.mp hk
    rcases ho.events e he with he | ⟨he, -⟩
    · exact hevents (List.mem_map_of_mem he)
    · exact hadding he

theorem PastBy.onward (h : PastBy R g) (ho : Onward g g') : PastBy R g' := by
  refine ⟨h.1.trans ho.retired_le, fun e he => ?_⟩
  rcases ho.events e he with he | ⟨-, hsince, hlater⟩
  · exact h.2 e he
  · exact not_reached_of_later hlater (hsince ▸ h.1)

/-- What every act keeps holds in a run. -/
theorem Group.run_induct {P : Group → Prop} (hstep : ∀ {g g'}, P g → Onward g g' → P g')
    (h : P g) (hg : g.run as = some g') : P g' := by
  induction as generalizing g with
  | nil =>
    cases hg
    exact h
  | cons a as ih =>
    obtain ⟨g₁, ha, hrun⟩ := Option.bind_eq_some_iff.mp hg
    exact ih (hstep h (.step ha)) hrun

/-! ## What a call leaves on the list -/

/-- A section that empties the list. -/
theorem Group.Inv.gone (h : g.Inv) (he : e ∈ g.events) (hnext : g.next = g'.next)
    (hadding : g.adding = g'.adding) (hempty : g'.events = []) : Gone e.id g' := by
  have hmem : e.id ∈ g.settled := List.mem_append_left _ (List.mem_map_of_mem he)
  refine ⟨hnext ▸ h.fresh _ (List.mem_append_right _ hmem), fun hk => ?_, ?_⟩
  · rw [← hadding] at hk
    exact (List.nodup_append.mp h.nodup).2.2 _ hk _ hmem rfl
  · rw [hempty]
    exact List.not_mem_nil

/-- A call that does not get its reference finds nothing on the list. -/
theorem Group.Inv.events_eq_nil (h : g.Inv) (hget : g.contextGet = none) : g.events = [] := by
  obtain ⟨hc, h0⟩ := contextGet_eq_none.mp hget
  have hrefs := h.refs hc
  rw [h0, Group.references] at hrefs
  exact List.length_eq_zero_iff.mp (by omega)

/-- The group was processed: what is left waits for a timestamp that is not reached. -/
theorem Group.Inv.pastBy_processLocked (h : g.Inv)
    (hnear : g.retired ≤ g.processed + timestampWindow) :
    PastBy g.retired (g.processLocked false) := by
  unfold Group.processLocked
  split
  · rename_i hskip
    have hdo : doProcessGroup g.processed g.retired = false := by simpa using hskip
    refine ⟨le_rfl, fun e he => ?_⟩
    rw [← eq_of_doProcessGroup hdo h.processed_le hnear]
    exact (h.waits e he).unprocessed
  · refine ⟨le_rfl, fun e he => ?_⟩
    obtain ⟨hmem, hv⟩ := mem_signalEach_fst.mp he
    exact (h.waits e hmem).not_reached hv

theorem events_processLocked_flush (g : Group) : (g.processLocked true).events = [] := by
  refine List.eq_nil_iff_forall_not_mem.mpr fun e he => ?_
  have hv := (mem_signalEach_fst.mp he).2
  unfold verdict at hv
  rw [if_pos rfl] at hv
  split_ifs at hv

theorem events_cancelEvents (g : Group) : g.cancelEvents.events = [] :=
  List.eq_nil_iff_forall_not_mem.mpr fun _ he => nomatch (mem_signalEach_fst.mp he).2

/-- **Every event fires once**, in any run on a group.  The events added are on the list or
    queued to the worker, no one twice, and queued with the right result.  From the section
    of a call on nothing is on the list that it was to take: for a flush and for
    `kgsl_cancel_events` none of the events that were there; for a call that processes the
    group none that is retired at its read, if the timestamp is then no more than half the
    range ahead of the one the group was last processed at. -/
theorem events_fire_once {hasContext userGeneratedTs : Bool} {others : ℕ}
    (hrun : (Group.init hasContext userGeneratedTs others).run as = some g) :
    (g.added.Nodup ∧
      g.added.Perm (g.events.map (·.id) ++ (g.work ++ g.ran).map (·.event.id))) ∧
    (∀ s ∈ g.work ++ g.ran,
      (s.result = .retired → Reached s.event.since s.event.timestamp s.readAt) ∧
        (s.result = .cancelled → s.caller.Cancels)) ∧
    ∀ a g₁ bs g₂, g.step a = some g₁ → g₁.run bs = some g₂ →
      (∀ i, a = .processLocked i → g.processing[i]? = some ⟨false, false⟩ →
        g.retired ≤ g.processed + timestampWindow →
        ∀ e ∈ g₂.events, ¬ Reached e.since e.timestamp g.retired) ∧
      ((∃ i, a = .processLocked i ∧ g.processing[i]? = some ⟨true, false⟩) ∨ a = .cancelEvents →
        ∀ e ∈ g.events, e ∉ g₂.events) ∧
      (∀ flush, a = .processEventGroup flush → g.contextGet = none →
        g.events = [] ∧ ∀ e ∈ g₂.events, ¬ Reached e.since e.timestamp g.retired) := by
  have h := (Group.inv_init hasContext userGeneratedTs others).run hrun
  have hnodup : g.settled.Nodup := (List.nodup_append.mp h.nodup).2.1
  refine ⟨⟨h.added.nodup_iff.mpr hnodup, h.added⟩,
    fun s hs => ⟨(h.right s hs).retired, (h.right s hs).cancelled⟩,
    fun a g₁ bs g₂ hstep hbs => ⟨?_, ?_, ?_⟩⟩
  · rintro i rfl hp hnear
    simp only [Group.step, hp, Option.some.injEq] at hstep
    have hpast : PastBy g.retired g₁ := by
      subst hstep
      exact h.pastBy_processLocked hnear
    exact (Group.run_induct PastBy.onward hpast hbs).2
  · intro hcall e he hmem
    have hgone : Gone e.id g₁ := by
      rcases hcall with ⟨i, rfl, hp⟩ | rfl
      · simp only [Group.step, hp, Option.some.injEq] at hstep
        subst hstep
        exact h.gone he rfl rfl (events_processLocked_flush g)
      · cases hstep
        exact h.gone he rfl rfl (events_cancelEvents g)
    exact (Group.run_induct Gone.onward hgone hbs).2.2 (List.mem_map_of_mem hmem)
  · rintro flush rfl hget
    have hnil := h.events_eq_nil hget
    have hpast : PastBy g.retired g := ⟨le_rfl, by simp [hnil]⟩
    exact ⟨hnil, (Group.run_induct PastBy.onward (hpast.onward (.step hstep)) hbs).2⟩

/-- A run in which an event fires. -/
def firedRun : List Act :=
  [.addEvent (some 0) 2 0 0 true, .addEventLocked 0, .retire 2, .processEventGroup false]

theorem events_fire_once_fired :
    ∃ g, (Group.init true true 1).run firedRun = some g ∧ g.added = [0] ∧
      ∀ g₁, g.step (.processLocked 0) = some g₁ →
        ∀ e ∈ g₁.events, ¬ Reached e.since e.timestamp g.retired := by
  have hrun : (Group.init true true 1).run firedRun = some _ := rfl
  refine ⟨_, hrun, rfl, fun g₁ hstep => ?_⟩
  exact ((events_fire_once hrun).2.2 _ g₁ [] g₁ hstep rfl).1 0 rfl rfl (by decide)

/-- A run in which the timestamp moves far while no event waits. -/
def farRun : List Act :=
  [.retire 0xF0000000, .processEventGroup false, .processLocked 0, .processReturn 0,
    .retire 0x90000000, .addEvent (some 0) 0x80000001 0 0 true, .addEventLocked 0, .retire 1,
    .processEventGroup false]

/-- The event is retired, and the call that processes the group takes the timestamp for one
    that slipped back. -/
theorem retired_event_kept :
    ∃ g g₁, (Group.init true true 1).run farRun = some g ∧
      g.processing[0]? = some ⟨false, false⟩ ∧ g.step (.processLocked 0) = some g₁ ∧
      ∃ e ∈ g₁.events, Reached e.since e.timestamp g.retired := by
  refine ⟨_, _, rfl, rfl, rfl, _, List.mem_cons_self, .inr ⟨0x180000001, ?_⟩⟩
  decide

end Sm8850.Kgsl.Events
