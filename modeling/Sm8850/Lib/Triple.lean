/-
  Preconditions and postconditions of stateful programs.

  * `Triple P x Q`: from a state with `P` the program `x` comes to a state with `Q`, which may
    speak of the result.
  * There is a rule for each way to build a program, and one for facts about neither state.
-/
import Mathlib.Tactic.Common

namespace Sm8850.Lib

variable {σ α β : Type} {P P' : σ → Prop} {x : StateM σ α} {Q Q' : α → σ → Prop}
  {R : β → σ → Prop} {f : α → StateM σ β}

def Triple (P : σ → Prop) (x : StateM σ α) (Q : α → σ → Prop) : Prop :=
  ∀ s, P s → Q (x s).1 (x s).2

namespace Triple

protected theorem pure {a : α} (h : ∀ s, P s → Q a s) : Triple P (pure a) Q := h

protected theorem bind (hx : Triple P x Q) (hf : ∀ a, Triple (Q a) (f a) R) :
    Triple P (x >>= f) R := fun s hs => hf _ _ (hx s hs)

theorem mono (h : Triple P x Q) (hQ : ∀ a s, Q a s → Q' a s) : Triple P x Q' :=
  fun s hs => hQ _ _ (h s hs)

theorem of_pre (h : Triple P x Q) (hP : ∀ s, P' s → P s) : Triple P' x Q :=
  fun s hs => h s (hP s hs)

/-- A fact that does not depend on the state. -/
theorem intro {p : Prop} (h : p → Triple P x Q) : Triple (fun s => p ∧ P s) x Q :=
  fun s hs => h hs.1 s hs.2

theorem or (h : Triple P x Q) (h' : Triple P' x Q) : Triple (fun s => P s ∨ P' s) x Q :=
  fun s hs => hs.elim (h s) (h' s)

theorem intro_exists {ι : Sort*} {P : ι → σ → Prop} (h : ∀ i, Triple (P i) x Q) :
    Triple (fun s => ∃ i, P i s) x Q := fun s ⟨i, hs⟩ => h i s hs

end Triple

end Sm8850.Lib
