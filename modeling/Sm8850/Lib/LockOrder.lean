/-
  Threads that hold one lock and take others for a moment.

  A `Section` takes its home lock, then takes and releases its visits one after the other,
  and releases the home lock.  A thread runs its sections one by one, and each lock and
  unlock is a step of its own.

  * `Edge k k'`: some section visits `k'` from its home `k`.
  * `not_stuck`: without a circle of edges, no threads wait for each other in a circle.
  * `stuck_of_circle`: a circle of edges, each in a section of another thread, is enough
    for a run that ends with threads waiting in a circle.
-/
import Mathlib.Algebra.Order.Group.Nat
import Mathlib.Data.Finset.Insert
import Mathlib.Data.Fintype.Card
import Mathlib.Data.Fintype.EquivFin
import Mathlib.Data.Fintype.Sets
import Mathlib.Logic.Function.Basic
import Mathlib.Logic.Relation
import Mathlib.Order.WellFounded

namespace Sm8850.Lib.LockOrder

open Relation

/-! ## Sections and threads -/

/-- A critical section under `home` that takes each of `visits` for a moment. -/
structure Section (L : Type) where
  home : L
  visits : List L
  home_notMem : home ∉ visits

/-- Where a thread is in its section. -/
inductive Phase (L : Type) where
  | outside
  /-- it holds its home lock and has visits to make -/
  | inside (home : L) (visits : List L)
  /-- it holds the lock it visits too -/
  | visiting (home lock : L) (visits : List L)

/-- A thread: its phase, and the sections it has not begun. -/
structure Thread (L : Type) where
  phase : Phase L
  todo : List (Section L)

variable {L T : Type}

/-- The lock a thread takes next, if that is what it does next. -/
def Thread.wants (x : Thread L) : Option L :=
  match x.phase, x.todo with
  | .outside, s :: _ => some s.home
  | .inside _ (k :: _), _ => some k
  | _, _ => none

/-- The locks a thread holds. -/
def Thread.Holds (x : Thread L) (k : L) : Prop :=
  match x.phase with
  | .outside => False
  | .inside home _ => k = home
  | .visiting home lock _ => k = home ∨ k = lock

/-- The threads with the owners of the locks. -/
structure State (L T : Type) where
  thread : T → Thread L
  owner : L → Option T

/-- All threads before their first section. -/
def State.init (program : T → List (Section L)) : State L T where
  thread t := ⟨.outside, program t⟩
  owner _ := none

variable [DecidableEq L] [DecidableEq T]

/-- A thread replaced, and the owner of one lock. -/
def State.set (s : State L T) (t : T) (x : Thread L) (k : L) (o : Option T) : State L T where
  thread := Function.update s.thread t x
  owner := Function.update s.owner k o

/-- One step of thread `t`. -/
inductive Step (s : State L T) (t : T) : State L T → Prop where
  | enter {sec : Section L} {rest : List (Section L)}
      (hx : s.thread t = ⟨.outside, sec :: rest⟩) (hfree : s.owner sec.home = none) :
      Step s t (s.set t ⟨.inside sec.home sec.visits, rest⟩ sec.home (some t))
  | take {home k : L} {ks : List L} {todo : List (Section L)}
      (hx : s.thread t = ⟨.inside home (k :: ks), todo⟩) (hfree : s.owner k = none) :
      Step s t (s.set t ⟨.visiting home k ks, todo⟩ k (some t))
  | give {home k : L} {ks : List L} {todo : List (Section L)}
      (hx : s.thread t = ⟨.visiting home k ks, todo⟩) :
      Step s t (s.set t ⟨.inside home ks, todo⟩ k none)
  | leave {home : L} {todo : List (Section L)} (hx : s.thread t = ⟨.inside home [], todo⟩) :
      Step s t (s.set t ⟨.outside, todo⟩ home none)

/-- The states that steps of any threads in any order lead to. -/
def Steps : State L T → State L T → Prop := ReflTransGen fun s s' => ∃ t, Step s t s'

/-- A state of a run of the programs. -/
def Reachable (program : T → List (Section L)) (s : State L T) : Prop :=
  Steps (.init program) s

/-- `t` waits for a lock that `u` holds. -/
def State.WaitsFor (s : State L T) (t u : T) : Prop :=
  ∃ k, (s.thread t).wants = some k ∧ s.owner k = some u

/-- Some threads wait in a circle, each for a lock that the next one holds. -/
def State.Stuck (s : State L T) : Prop := ∃ t, TransGen s.WaitsFor t t

/-- A section of some thread visits `k'` from `k`. -/
def Edge (program : T → List (Section L)) (k k' : L) : Prop :=
  ∃ t, ∃ sec ∈ program t, sec.home = k ∧ k' ∈ sec.visits

variable {program : T → List (Section L)} {s s' : State L T} {t u : T} {k : L}

/-! ## No circle of edges, no circle of threads -/

/-- The invariant: owners are holders, and the visits left are edges. -/
structure Inv (program : T → List (Section L)) (s : State L T) : Prop where
  owns : ∀ k t, s.owner k = some t ↔ (s.thread t).Holds k
  edge : ∀ t home ks, (s.thread t).phase = .inside home ks →
    ∀ k ∈ ks, Edge program home k
  visit : ∀ t home k ks, (s.thread t).phase = .visiting home k ks →
    home ≠ k ∧ ∀ k' ∈ k :: ks, Edge program home k'
  todo : ∀ t, (s.thread t).todo ⊆ program t

omit [DecidableEq L] [DecidableEq T] in
theorem inv_init (program : T → List (Section L)) : Inv program (.init program) where
  owns _ _ := by simp [State.init, Thread.Holds]
  edge _ _ _ h := nomatch h
  visit _ _ _ _ h := nomatch h
  todo _ := List.Subset.refl _

theorem State.set_thread (s : State L T) (t : T) (x : Thread L) (k : L) (o : Option T) (u : T) :
    (s.set t x k o).thread u = if u = t then x else s.thread u :=
  Function.update_apply _ _ _ _

theorem State.set_owner (s : State L T) (t : T) (x : Thread L) (k : L) (o : Option T) (k' : L) :
    (s.set t x k o).owner k' = if k' = k then o else s.owner k' :=
  Function.update_apply _ _ _ _

/-- Owners stay holders when `t` takes the free lock `k`. -/
theorem owns_take (hown : ∀ k t, s.owner k = some t ↔ (s.thread t).Holds k) {x : Thread L}
    (hfree : s.owner k = none) (hx : ∀ k', x.Holds k' ↔ k' = k ∨ (s.thread t).Holds k')
    (k' : L) (u : T) :
    (s.set t x k (some t)).owner k' = some u ↔ ((s.set t x k (some t)).thread u).Holds k' := by
  rw [State.set_owner, State.set_thread]
  by_cases hu : u = t
  · subst hu
    rw [if_pos rfl, hx, ← hown]
    by_cases hk : k' = k <;> simp [hk]
  · rw [if_neg hu, ← hown]
    by_cases hk : k' = k
    · subst hk
      simp [hfree, Ne.symm hu]
    · rw [if_neg hk]

/-- Owners stay holders when `t` releases the lock `k`. -/
theorem owns_give (hown : ∀ k t, s.owner k = some t ↔ (s.thread t).Holds k) {x : Thread L}
    (hk : (s.thread t).Holds k) (hx : ∀ k', x.Holds k' ↔ k' ≠ k ∧ (s.thread t).Holds k')
    (k' : L) (u : T) :
    (s.set t x k none).owner k' = some u ↔ ((s.set t x k none).thread u).Holds k' := by
  rw [State.set_owner, State.set_thread]
  by_cases hu : u = t
  · subst hu
    rw [if_pos rfl, hx, ← hown]
    by_cases hk' : k' = k <;> simp [hk']
  · rw [if_neg hu, ← hown]
    by_cases hk' : k' = k
    · subst hk'
      simp [(hown k' t).mpr hk, Ne.symm hu]
    · rw [if_neg hk']

/-- What one thread may become, for the invariant to stay. -/
theorem Inv.set (hs : Inv program s) {x : Thread L} {o : Option T}
    (howns : ∀ k' u, (s.set t x k o).owner k' = some u ↔ ((s.set t x k o).thread u).Holds k')
    (hedge : ∀ home ks, x.phase = .inside home ks → ∀ k ∈ ks, Edge program home k)
    (hvisit : ∀ home k ks, x.phase = .visiting home k ks →
      home ≠ k ∧ ∀ k' ∈ k :: ks, Edge program home k')
    (htodo : x.todo ⊆ program t) : Inv program (s.set t x k o) where
  owns := howns
  edge u home ks hp := by
    rw [State.set_thread] at hp
    split at hp
    · exact hedge home ks hp
    · exact hs.edge u home ks hp
  visit u home k ks hp := by
    rw [State.set_thread] at hp
    split at hp
    · exact hvisit home k ks hp
    · exact hs.visit u home k ks hp
  todo u := by
    rw [State.set_thread]
    split
    · rename_i hu
      exact hu ▸ htodo
    · exact hs.todo u

theorem Inv.step (hs : Inv program s) (h : Step s t s') : Inv program s' := by
  have htodo := hs.todo t
  cases h with
  | enter hx hfree =>
    rw [hx] at htodo
    refine hs.set (owns_take hs.owns hfree ?_) ?_ (fun _ _ _ h => nomatch h)
      (List.Subset.trans (List.subset_cons_self _ _) htodo)
    · intro k'
      simp [hx, Thread.Holds]
    · rintro home ks hp k hk
      cases hp
      exact ⟨t, _, htodo List.mem_cons_self, rfl, hk⟩
  | @take home k ks todo hx hfree =>
    have hp : (s.thread t).phase = .inside home (k :: ks) := by rw [hx]
    have hne : home ≠ k := by
      rintro rfl
      have hholds : s.owner home = some t := (hs.owns home t).mpr (by simp [hx, Thread.Holds])
      simp [hfree] at hholds
    rw [hx] at htodo
    refine hs.set (owns_take hs.owns hfree ?_) (fun _ _ h => nomatch h) ?_ htodo
    · intro k'
      simp [hx, Thread.Holds, or_comm]
    · rintro _ _ _ ⟨⟩
      exact ⟨hne, hs.edge t home _ hp⟩
  | @give home k ks todo hx =>
    have hp : (s.thread t).phase = .visiting home k ks := by rw [hx]
    obtain ⟨hne, hedges⟩ := hs.visit t home k ks hp
    rw [hx] at htodo
    refine hs.set (owns_give hs.owns (by simp [hx, Thread.Holds]) ?_) ?_
      (fun _ _ _ h => nomatch h) htodo
    · intro k'
      simp only [Thread.Holds, hx]
      constructor
      · rintro rfl
        exact ⟨hne, .inl rfl⟩
      · rintro ⟨hk', h⟩
        exact h.resolve_right hk'
    · rintro _ _ ⟨⟩ k' hk'
      exact hedges k' (List.mem_cons_of_mem _ hk')
  | @leave home todo hx =>
    rw [hx] at htodo
    refine hs.set (owns_give hs.owns (by simp [hx, Thread.Holds]) ?_) (fun _ _ h => nomatch h)
      (fun _ _ _ h => nomatch h) htodo
    intro k'
    simp [hx, Thread.Holds]

theorem inv_reachable (h : Reachable program s) : Inv program s := by
  induction h with
  | refl => exact inv_init program
  | tail _ hstep ih =>
    obtain ⟨t, hstep⟩ := hstep
    exact ih.step hstep

omit [DecidableEq L] [DecidableEq T] in
/-- A thread that holds a lock and waits for another follows an edge. -/
theorem Inv.edge_of_holds (hs : Inv program s) {k k' : L} (hk : s.owner k = some u)
    (hw : (s.thread u).wants = some k') : Edge program k k' := by
  have hholds := (hs.owns k u).mp hk
  unfold Thread.Holds at hholds
  unfold Thread.wants at hw
  cases hp : (s.thread u).phase with
  | outside => simp [hp] at hholds
  | inside home ks =>
    cases ks with
    | nil => simp [hp] at hw
    | cons k₁ ks =>
      simp only [hp, Option.some.injEq] at hholds hw
      subst hholds hw
      exact hs.edge u _ _ hp _ List.mem_cons_self
  | visiting home lock ks => simp [hp] at hw

omit [DecidableEq L] [DecidableEq T] in
theorem Inv.edges_of_waits (hs : Inv program s) (h : TransGen s.WaitsFor t u) {k k' : L}
    (hk : (s.thread t).wants = some k) (hk' : (s.thread u).wants = some k') :
    TransGen (Edge program) k k' := by
  induction h generalizing k' with
  | single h =>
    obtain ⟨k₁, hk₁, howner⟩ := h
    obtain rfl : k₁ = k := Option.some.inj (hk₁.symm.trans hk)
    exact .single (hs.edge_of_holds howner hk')
  | tail _ h ih =>
    obtain ⟨k₁, hk₁, howner⟩ := h
    exact (ih hk₁).tail (hs.edge_of_holds howner hk')

/-- **Without a circle of edges no threads wait for each other in a circle.** -/
theorem not_stuck (hacyclic : ∀ k, ¬ TransGen (Edge program) k k) (h : Reachable program s) :
    ¬ s.Stuck := by
  rintro ⟨t, ht⟩
  obtain ⟨u, ⟨k, hk, -⟩, -⟩ := TransGen.head'_iff.mp ht
  exact hacyclic k ((inv_reachable h).edges_of_waits ht hk hk)

/-! ## A circle of edges, a circle of threads -/

/-- A relation that never ends within a finite set goes in a circle there. -/
theorem exists_circle {α : Type} {r : α → α → Prop} {C : Finset α} (hne : C.Nonempty)
    (hr : ∀ a ∈ C, ∃ b ∈ C, r a b) : ∃ a ∈ C, TransGen r a a := by
  by_contra hnone
  push Not at hnone
  let back : C → C → Prop := fun a b => TransGen r b a
  have htrans : IsTrans C back := ⟨fun _ _ _ hab hbc => TransGen.trans hbc hab⟩
  have hirrefl : Std.Irrefl back := ⟨fun a => hnone a a.2⟩
  obtain ⟨a, ha⟩ := hne
  obtain ⟨m, -, hmin⟩ := (Finite.wellFounded_of_trans_of_irrefl back).has_min Set.univ
    ⟨⟨a, ha⟩, trivial⟩
  obtain ⟨b, hb, hmb⟩ := hr m m.2
  exact hmin ⟨b, hb⟩ trivial (TransGen.single hmb)

/-- A circle runs in a finite set. -/
theorem exists_finset_of_circle {α : Type} {r : α → α → Prop} {a : α} (h : TransGen r a a) :
    ∃ C : Finset α, C.Nonempty ∧ ∀ a ∈ C, ∃ b ∈ C, r a b := by
  classical
  have path : ∀ {x}, ReflTransGen r x a →
      ∃ C : Finset α, x ∈ C ∧ a ∈ C ∧ ∀ y ∈ C, y = a ∨ ∃ z ∈ C, r y z := by
    intro x hx
    induction hx using ReflTransGen.head_induction_on with
    | refl => exact ⟨{a}, by simp, by simp, by simp⟩
    | @head x y hxy _ ih =>
      obtain ⟨C, hy, ha, hC⟩ := ih
      refine ⟨insert x C, Finset.mem_insert_self x C, Finset.mem_insert_of_mem ha, ?_⟩
      intro z hz
      rcases Finset.mem_insert.mp hz with rfl | hz
      · exact .inr ⟨y, Finset.mem_insert_of_mem hy, hxy⟩
      · exact (hC z hz).imp_right fun ⟨w, hw, hzw⟩ => ⟨w, Finset.mem_insert_of_mem hw, hzw⟩
  obtain ⟨b, hab, hba⟩ := TransGen.head'_iff.mp h
  obtain ⟨C, hb, ha, hC⟩ := path hba
  refine ⟨C, ⟨a, ha⟩, fun y hy => ?_⟩
  rcases hC y hy with rfl | h
  · exact ⟨b, hb, hab⟩
  · exact h

/-- A thread replaced. -/
def State.become (s : State L T) (t : T) (x : Thread L) : State L T :=
  { s with thread := Function.update s.thread t x }

/-- A thread that takes a free lock and releases it has only moved itself. -/
theorem set_set_none (s : State L T) (t : T) (x y : Thread L) (k : L) (o : Option T)
    (hfree : s.owner k = none) : (s.set t x k o).set t y k none = s.become t y := by
  simp only [State.set, State.become, Function.update_idem]
  rw [← hfree, Function.update_eq_self]

/-- Visits to free locks can be made at once. -/
theorem steps_visits {home : L} {ys : List L} {todo : List (Section L)} (xs : List L)
    (hx : s.thread t = ⟨.inside home (xs ++ ys), todo⟩) (hfree : ∀ k ∈ xs, s.owner k = none) :
    Steps s (s.become t ⟨.inside home ys, todo⟩) := by
  induction xs generalizing s with
  | nil =>
    rw [List.nil_append] at hx
    rw [State.become, ← hx, Function.update_eq_self]
    exact .refl
  | cons k xs ih =>
    have hk := hfree k List.mem_cons_self
    have htake := Step.take hx hk
    have hgive := Step.give (s := s.set t ⟨.visiting home k (xs ++ ys), todo⟩ k (some t))
      (t := t) (by rw [State.set_thread, if_pos rfl])
    rw [set_set_none _ _ _ _ _ _ hk] at hgive
    have hrest := ih (s := s.become t ⟨.inside home (xs ++ ys), todo⟩)
      (Function.update_self _ _ _) fun k' hk' => hfree k' (List.mem_cons_of_mem k hk')
    simp only [State.become, Function.update_idem] at hgive hrest ⊢
    exact ((ReflTransGen.single ⟨t, htake⟩).tail ⟨t, hgive⟩).trans hrest

/-- Sections can be run at once while no lock is held. -/
theorem steps_sections {rest : List (Section L)} (pre : List (Section L))
    (hx : s.thread t = ⟨.outside, pre ++ rest⟩) (hfree : ∀ k, s.owner k = none) :
    Steps s (s.become t ⟨.outside, rest⟩) := by
  induction pre generalizing s with
  | nil =>
    rw [List.nil_append] at hx
    rw [State.become, ← hx, Function.update_eq_self]
    exact .refl
  | cons sec pre ih =>
    have henter := Step.enter hx (hfree sec.home)
    have hinside : (s.set t ⟨.inside sec.home sec.visits, pre ++ rest⟩ sec.home (some t)).thread t
        = ⟨.inside sec.home (sec.visits ++ []), pre ++ rest⟩ := by
      rw [State.set_thread, if_pos rfl, List.append_nil]
    have hvisits := steps_visits sec.visits hinside fun k hk => by
        have hne : k ≠ sec.home := fun he => sec.home_notMem (he ▸ hk)
        rw [State.set_owner, if_neg hne, hfree]
    have hdone : ((s.set t ⟨.inside sec.home sec.visits, pre ++ rest⟩ sec.home (some t)).become t
        ⟨.inside sec.home [], pre ++ rest⟩).thread t = ⟨.inside sec.home [], pre ++ rest⟩ :=
      Function.update_self _ _ _
    have hleave := Step.leave hdone
    have hrest := ih (s := s.become t ⟨.outside, pre ++ rest⟩) (Function.update_self _ _ _) hfree
    have heq : ((s.set t ⟨.inside sec.home sec.visits, pre ++ rest⟩ sec.home (some t)).become t
        ⟨.inside sec.home [], pre ++ rest⟩).set t ⟨.outside, pre ++ rest⟩ sec.home none =
        s.become t ⟨.outside, pre ++ rest⟩ := by
      simp only [State.set, State.become, Function.update_idem]
      rw [← hfree sec.home, Function.update_eq_self]
    rw [heq] at hleave
    simp only [State.become, Function.update_idem] at hleave hrest ⊢
    exact (((ReflTransGen.single ⟨t, henter⟩).trans hvisits).tail ⟨t, hleave⟩).trans hrest

variable {thread : L → T} {C : Finset L}

/-- Threads that can each go on while the owners stay the same can all go on. -/
theorem steps_each (hinj : Set.InjOn thread C) {o : L → Option T} {a b : L → Thread L}
    (hgo : ∀ s : State L T, s.owner = o → ∀ k ∈ C, s.thread (thread k) = a k →
      Steps s (s.become (thread k) (b k)))
    (ho : s.owner = o) (ha : ∀ k ∈ C, s.thread (thread k) = a k) :
    ∃ s', Steps s s' ∧ s'.owner = o ∧ ∀ k ∈ C, s'.thread (thread k) = b k := by
  suffices h : ∀ D ⊆ C, ∃ s', Steps s s' ∧ s'.owner = o ∧
      ∀ k ∈ C, s'.thread (thread k) = if k ∈ D then b k else a k by
    obtain ⟨s', hs', ho', hb⟩ := h C (Finset.Subset.refl C)
    exact ⟨s', hs', ho', fun k hk => by rw [hb k hk, if_pos hk]⟩
  intro D hD
  induction D using Finset.induction_on with
  | empty => exact ⟨s, .refl, ho, fun k hk => by simp [ha k hk]⟩
  | insert k D hk ih =>
    obtain ⟨s', hs', ho', hb⟩ := ih fun x hx => hD (Finset.mem_insert_of_mem hx)
    have hkC := hD (Finset.mem_insert_self k D)
    have hak := hb k hkC
    rw [if_neg hk] at hak
    refine ⟨_, hs'.trans (hgo s' ho' k hkC hak), ho', fun k' hk' => ?_⟩
    by_cases he : k' = k
    · subst he
      simp [State.become]
    · have hne : thread k' ≠ thread k := fun h => he (hinj hk' hkC h)
      simp [State.become, hne, hb k' hk', he]

/-- Threads can all take their home locks. -/
theorem steps_enter (hinj : Set.InjOn thread C) {sec : L → Section L}
    {rest : L → List (Section L)} (hhome : ∀ k ∈ C, (sec k).home = k)
    (hfree : ∀ k, s.owner k = none)
    (ha : ∀ k ∈ C, s.thread (thread k) = ⟨.outside, sec k :: rest k⟩) :
    ∃ s', Steps s s' ∧ (∀ k, s'.owner k = if k ∈ C then some (thread k) else none) ∧
      ∀ k ∈ C, s'.thread (thread k) = ⟨.inside k (sec k).visits, rest k⟩ := by
  suffices h : ∀ D ⊆ C, ∃ s', Steps s s' ∧
      (∀ k, s'.owner k = if k ∈ D then some (thread k) else none) ∧
      ∀ k ∈ C, s'.thread (thread k) = if k ∈ D then ⟨.inside k (sec k).visits, rest k⟩
        else ⟨.outside, sec k :: rest k⟩ by
    obtain ⟨s', hs', ho, hb⟩ := h C (Finset.Subset.refl C)
    exact ⟨s', hs', ho, fun k hk => by rw [hb k hk, if_pos hk]⟩
  intro D hD
  induction D using Finset.induction_on with
  | empty => exact ⟨s, .refl, fun k => by simp [hfree k], fun k hk => by simp [ha k hk]⟩
  | insert k D hk ih =>
    obtain ⟨s', hs', ho, hb⟩ := ih fun x hx => hD (Finset.mem_insert_of_mem hx)
    have hkC := hD (Finset.mem_insert_self k D)
    have hak := hb k hkC
    rw [if_neg hk] at hak
    have hfreek : s'.owner (sec k).home = none := by rw [hhome k hkC, ho, if_neg hk]
    have henter := Step.enter hak hfreek
    rw [hhome k hkC] at henter
    refine ⟨_, hs'.tail ⟨_, henter⟩, fun k' => ?_, fun k' hk' => ?_⟩
    · rw [State.set_owner]
      by_cases he : k' = k <;> simp [he, ho]
    · rw [State.set_thread]
      by_cases he : k' = k
      · subst he
        simp
      · have hne : thread k' ≠ thread k := fun h => he (hinj hk' hkC h)
        simp [hne, hb k' hk', he]

/-- The first element of a list that lies in the set. -/
theorem exists_first {l : List L} {k : L} (hl : k ∈ l) (hk : k ∈ C) :
    ∃ xs d ys, l = xs ++ d :: ys ∧ d ∈ C ∧ ∀ x ∈ xs, x ∉ C := by
  induction l with
  | nil => exact absurd hl List.not_mem_nil
  | cons a l ih =>
    by_cases ha : a ∈ C
    · exact ⟨[], a, l, rfl, ha, by simp⟩
    · have hne : k ≠ a := fun h => ha (h ▸ hk)
      obtain ⟨xs, d, ys, rfl, hd, hxs⟩ := ih ((List.mem_cons.mp hl).resolve_left hne)
      exact ⟨a :: xs, d, ys, rfl, hd, List.forall_mem_cons.mpr ⟨ha, hxs⟩⟩

/-- **A circle of edges is enough for threads to wait in a circle**, if its sections are
    those of different threads: let each take its home lock first. -/
theorem stuck_of_circle (hne : C.Nonempty) (hinj : Set.InjOn thread C)
    (hC : ∀ k ∈ C, ∃ sec ∈ program (thread k), sec.home = k ∧ ∃ k' ∈ C, k' ∈ sec.visits) :
    ∃ s, Reachable program s ∧ s.Stuck := by
  -- what each thread does before its section, and the first visit of the circle it makes
  have hplan : ∀ k, ∃ pre sec rest xs d ys, k ∈ C → program (thread k) = pre ++ sec :: rest ∧
      sec.home = k ∧ sec.visits = xs ++ d :: ys ∧ d ∈ C ∧ ∀ x ∈ xs, x ∉ C := by
    intro k
    by_cases hk : k ∈ C
    · obtain ⟨sec, hsec, hhome, k', hk', hvisit⟩ := hC k hk
      obtain ⟨pre, rest, hprog⟩ := List.append_of_mem hsec
      obtain ⟨xs, d, ys, hxs, hd, hfirst⟩ := exists_first hvisit hk'
      exact ⟨pre, sec, rest, xs, d, ys, fun _ => ⟨hprog, hhome, hxs, hd, hfirst⟩⟩
    · obtain ⟨k₀, hk₀⟩ := hne
      obtain ⟨sec, -⟩ := hC k₀ hk₀
      exact ⟨[], sec, [], [], k, [], fun h => absurd h hk⟩
  choose pre sec rest xs d ys hplan using hplan
  -- all run up to their sections, enter them, and go on to the first visit of the circle
  obtain ⟨s₁, h₁, ho₁, ht₁⟩ := steps_each (s := .init program) (o := fun _ => none) hinj
    (a := fun k => ⟨.outside, program (thread k)⟩) (b := fun k => ⟨.outside, sec k :: rest k⟩)
    (fun s hs k hk hx => steps_sections (pre k) (by rw [hx, (hplan k hk).1])
      fun k' => by rw [hs]) rfl fun k _ => rfl
  obtain ⟨s₂, h₂, ho₂, ht₂⟩ := steps_enter hinj (fun k hk => (hplan k hk).2.1)
    (fun k => by rw [ho₁]) ht₁
  obtain ⟨s₃, h₃, ho₃, ht₃⟩ := steps_each (s := s₂) (o := s₂.owner) hinj
    (a := fun k => ⟨.inside k (sec k).visits, rest k⟩)
    (b := fun k => ⟨.inside k (d k :: ys k), rest k⟩)
    (fun s hs k hk hx => steps_visits (xs k) (by rw [hx, (hplan k hk).2.2.1])
      fun x hx => by rw [hs, ho₂, if_neg ((hplan k hk).2.2.2.2 x hx)]) rfl ht₂
  have hwaits : ∀ k ∈ C, ∃ k' ∈ C, s₃.WaitsFor (thread k) (thread k') := by
    intro k hk
    refine ⟨d k, (hplan k hk).2.2.2.1, d k, by rw [ht₃ k hk]; rfl, ?_⟩
    rw [ho₃, ho₂, if_pos (hplan k hk).2.2.2.1]
  obtain ⟨k, -, hcircle⟩ := exists_circle hne hwaits
  exact ⟨s₃, (h₁.trans h₂).trans h₃, thread k, hcircle.lift thread fun _ _ h => h⟩

end Sm8850.Lib.LockOrder
