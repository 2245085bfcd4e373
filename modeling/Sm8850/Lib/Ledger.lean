/-
  Things that are taken and must be given back: a ledger.

  * Every taking has a number of its own; a `Ledger` counts how often each number is given
    back.
  * `Kept held ok`: what is in `held` is not given back yet, and all else that was taken was
    given back once, just if `ok`.
  * The rules say what an operation does to `held` and `ok`, whatever else is held: giving
    back keeps `ok`; it fails for good if something is given back again, or dropped.
  * `Fails` composes what operations say about `ok` when only some runs can tell.
-/
import Mathlib.Data.List.Perm.Basic
import Mathlib.Logic.Function.Basic
import Mathlib.Tactic.Common

namespace Sm8850.Lib

@[ext] structure Ledger where
  taken : ℕ
  gives : ℕ → ℕ

namespace Ledger

variable {l : Ledger} {held held' : List ℕ} {ok ok' : Prop} {t : ℕ}

def empty : Ledger := ⟨0, fun _ => 0⟩

def take (l : Ledger) : Ledger := { l with taken := l.taken + 1 }

def give (l : Ledger) (t : ℕ) : Ledger :=
  { l with gives := fun u => if u = t then l.gives u + 1 else l.gives u }

/-- All that was taken was given back once. -/
def Conserved (l : Ledger) : Prop := ∀ t < l.taken, l.gives t = 1

structure Kept (held : List ℕ) (ok : Prop) (l : Ledger) : Prop where
  nodup : held.Nodup
  lt : ∀ t ∈ held, t < l.taken
  owed : ∀ t ∈ held, l.gives t = 0
  new : ∀ t, l.taken ≤ t → l.gives t = 0
  settled : (∀ t < l.taken, t ∉ held → l.gives t = 1) ↔ ok

@[simp] theorem gives_give (l : Ledger) (t u : ℕ) :
    (l.give t).gives u = if u = t then l.gives u + 1 else l.gives u := rfl

@[simp] theorem taken_give (l : Ledger) (t : ℕ) : (l.give t).taken = l.taken := rfl

theorem Kept.empty : Kept [] True empty :=
  ⟨List.nodup_nil, nofun, nofun, fun _ _ => rfl,
    iff_of_true (fun _ h => absurd h (Nat.not_lt_zero _)) trivial⟩

theorem Kept.conserved (h : Kept [] ok l) : l.Conserved ↔ ok :=
  Iff.trans ⟨fun hc t ht _ => hc t ht, fun hs t ht => hs t ht List.not_mem_nil⟩ h.settled

theorem Kept.perm (h : Kept held ok l) (hp : held.Perm held') : Kept held' ok l where
  nodup := hp.nodup_iff.1 h.nodup
  lt t ht := h.lt t (hp.mem_iff.2 ht)
  owed t ht := h.owed t (hp.mem_iff.2 ht)
  new := h.new
  settled := by
    rw [← h.settled]
    exact forall₂_congr fun t _ => by rw [hp.mem_iff]

theorem Kept.congr (h : Kept held ok l) (hok : ok ↔ ok') : Kept held ok' l :=
  { h with settled := h.settled.trans hok }

theorem Kept.take (h : Kept held ok l) : Kept (l.taken :: held) ok l.take where
  nodup := List.nodup_cons.2 ⟨fun ht => Nat.lt_irrefl _ (h.lt _ ht), h.nodup⟩
  lt t ht := by
    rcases List.mem_cons.1 ht with rfl | ht
    · exact Nat.lt_succ_self _
    · exact Nat.lt_succ_of_lt (h.lt t ht)
  owed t ht := by
    rcases List.mem_cons.1 ht with rfl | ht
    · exact h.new _ (Nat.le_refl _)
    · exact h.owed t ht
  new t ht := h.new t (Nat.le_of_succ_le ht)
  settled := by
    rw [← h.settled]
    constructor
    · intro hs t ht hnot
      refine hs t (Nat.lt_succ_of_lt ht) fun hmem => ?_
      rcases List.mem_cons.1 hmem with rfl | hmem
      · exact Nat.lt_irrefl _ ht
      · exact hnot hmem
    · intro hs t ht hnot
      rw [List.mem_cons, not_or] at hnot
      exact hs t (Nat.lt_of_le_of_ne (Nat.le_of_lt_succ ht) hnot.1) hnot.2

theorem Kept.give (h : Kept (t :: held) ok l) : Kept held ok (l.give t) where
  nodup := (List.nodup_cons.1 h.nodup).2
  lt u hu := h.lt u (List.mem_cons_of_mem _ hu)
  owed u hu := by
    have hne : u ≠ t := by
      rintro rfl
      exact (List.nodup_cons.1 h.nodup).1 hu
    rw [gives_give, if_neg hne]
    exact h.owed u (List.mem_cons_of_mem _ hu)
  new u hu := by
    have hlt := h.lt t List.mem_cons_self
    have hu' : l.taken ≤ u := hu
    rw [gives_give, if_neg (by omega)]
    exact h.new u hu
  settled := by
    rw [← h.settled]
    constructor
    · intro hs u hu hnot
      rw [List.mem_cons, not_or] at hnot
      have hone := hs u hu hnot.2
      rwa [gives_give, if_neg hnot.1] at hone
    · intro hs u hu hnot
      rw [gives_give]
      by_cases hut : u = t
      · subst hut
        rw [if_pos rfl, h.owed u List.mem_cons_self]
      · rw [if_neg hut]
        exact hs u hu fun hmem => (List.mem_cons.1 hmem).elim hut hnot

/-- Something that nobody gives back. -/
theorem Kept.drop (h : Kept (t :: held) ok l) : Kept held False l where
  nodup := (List.nodup_cons.1 h.nodup).2
  lt u hu := h.lt u (List.mem_cons_of_mem _ hu)
  owed u hu := h.owed u (List.mem_cons_of_mem _ hu)
  new := h.new
  settled := by
    refine iff_of_false (fun hs => ?_) id
    have hone := hs t (h.lt t List.mem_cons_self) (List.nodup_cons.1 h.nodup).1
    rw [h.owed t List.mem_cons_self] at hone
    cases hone

/-- What was held has just been given back. -/
def Gone (t : ℕ) (held : List ℕ) (ok : Prop) (l : Ledger) : Prop :=
  ∃ before : Ledger, before.Kept (t :: held) ok ∧ l = before.give t

theorem Gone.kept (h : Gone t held ok l) : Kept held ok l := by
  obtain ⟨before, hb, rfl⟩ := h
  exact hb.give

/-- Giving it back again. -/
theorem Gone.give (h : Gone t held ok l) : Kept held False (l.give t) := by
  obtain ⟨before, hb, rfl⟩ := h
  have hlt : t < before.taken := hb.lt t List.mem_cons_self
  have hnot : t ∉ held := (List.nodup_cons.1 hb.nodup).1
  refine ⟨hb.give.nodup, hb.give.lt, fun u hu => ?_, fun u hu => ?_, iff_of_false (fun hs => ?_) id⟩
  · rw [gives_give, if_neg (by rintro rfl; exact hnot hu)]
    exact hb.give.owed u hu
  · rw [gives_give, if_neg (Nat.ne_of_gt (Nat.lt_of_lt_of_le hlt hu))]
    exact hb.give.new u hu
  · have hone := hs t hlt hnot
    rw [gives_give, gives_give, if_pos rfl, if_pos rfl, hb.owed t List.mem_cons_self] at hone
    cases hone

end Ledger

/-! ## What an operation says about the books -/

/-- An operation keeps them in order unless something is `wrong`; if it `tells`, just then. -/
structure Fails (tells wrong ok ok' : Prop) : Prop where
  back : ok' → ok
  kept : ok → ¬ wrong → ok'
  told : tells → ok' → ¬ wrong

namespace Fails

variable {tells wrong wrong' ok ok' ok'' : Prop}

theorem always (h : wrong) : Fails tells wrong ok False :=
  ⟨False.elim, fun _ hn => hn h, fun _ => False.elim⟩

theorem silent (h : ¬ tells) : Fails tells wrong ok ok :=
  ⟨id, fun hok _ => hok, fun ht => absurd ht h⟩

theorem fine (h : ¬ wrong) : Fails tells wrong ok ok := ⟨id, fun hok _ => hok, fun _ _ => h⟩

theorem mono (h : Fails tells wrong ok ok') (hle : wrong → wrong')
    (htold : tells → wrong' → wrong) : Fails tells wrong' ok ok' :=
  ⟨h.back, fun hok hn => h.kept hok fun hw => hn (hle hw),
    fun ht hok hw => h.told ht hok (htold ht hw)⟩

theorem trans (h : Fails tells wrong ok ok') (h' : Fails tells wrong' ok' ok'') :
    Fails tells (wrong ∨ wrong') ok ok'' where
  back hok := h.back (h'.back hok)
  kept hok hn := h'.kept (h.kept hok fun hw => hn (.inl hw)) fun hw => hn (.inr hw)
  told ht hok := fun hw => hw.elim (h.told ht (h'.back hok)) (h'.told ht hok)

end Fails

end Sm8850.Lib
