/-
  Lists in which every element is related to those before it.

  * `EachBehind P l`: `P pre x` for every element `x` of `l` and the part `pre` before it.
  * `eachBehind_snoc`: an element is added at the end.
  * `EachBehind.erase`, `EachBehind.forall₂`: an element is taken out, or all are changed.
  * `forall₂_set`: one element is changed, the others are not.
-/
import Mathlib.Data.List.Forall2
import Mathlib.Data.List.Induction

namespace Sm8850.Lib

variable {α : Type*} {P Q : List α → α → Prop} {R : α → α → Prop} {l l' a b : List α} {x y : α}

/-- Every element is in `P` with those before it. -/
def EachBehind (P : List α → α → Prop) (l : List α) : Prop :=
  ∀ pre x post, l = pre ++ x :: post → P pre x

theorem eachBehind_nil : EachBehind P [] := by
  intro pre x post h
  simp at h

theorem eachBehind_snoc : EachBehind P (l ++ [x]) ↔ EachBehind P l ∧ P l x := by
  constructor
  · intro h
    refine ⟨?_, h l x [] rfl⟩
    rintro pre y post rfl
    exact h pre y (post ++ [x]) (by simp)
  · rintro ⟨hl, hx⟩ pre y post h
    rcases List.eq_nil_or_concat post with rfl | ⟨post, z, rfl⟩
    · obtain ⟨rfl, hxy⟩ := List.append_inj' h rfl
      obtain rfl := List.singleton_inj.1 hxy
      exact hx
    · rw [List.concat_eq_append, ← List.cons_append, ← List.append_assoc] at h
      exact hl pre y post (List.append_inj' h rfl).1

/-- An element that the others do not need is taken out. -/
theorem EachBehind.erase (h : EachBehind P (a ++ x :: b))
    (hP : ∀ post y, P (a ++ x :: post) y → P (a ++ post) y) : EachBehind P (a ++ b) := by
  induction b using List.reverseRecOn with
  | nil =>
    rw [List.append_nil]
    exact (eachBehind_snoc.1 h).1
  | append_singleton b y ih =>
    rw [← List.cons_append, ← List.append_assoc, eachBehind_snoc] at h
    rw [← List.append_assoc, eachBehind_snoc]
    exact ⟨ih h.1, hP b y h.2⟩

/-- An element behind another one is related to it. -/
theorem EachBehind.behind (h : EachBehind P (a ++ x :: b)) (hy : y ∈ b) :
    ∃ pre, a ++ [x] <+: pre ∧ P pre y := by
  obtain ⟨b₁, b₂, rfl⟩ := List.append_of_mem hy
  refine ⟨a ++ x :: b₁, ⟨b₁, by simp⟩, h _ _ b₂ ?_⟩
  rw [← List.cons_append, ← List.append_assoc]

/-- All elements are changed. -/
theorem EachBehind.forall₂ (hl : List.Forall₂ R l l') (h : EachBehind P l)
    (hPQ : ∀ pre x pre' x', List.Forall₂ R pre pre' → R x x' → P pre x → Q pre' x') :
    EachBehind Q l' := by
  rintro pre' x' post' rfl
  have hpre := List.forall₂_take_append l pre' _ hl
  have hrest := List.forall₂_drop_append l pre' _ hl
  obtain ⟨x, post, hx, -, hdrop⟩ := List.forall₂_cons_right_iff.1 hrest
  refine hPQ _ x pre' x' hpre hx (h _ x post ?_)
  rw [← hdrop, List.take_append_drop]

theorem forall₂_mem_right (hl : List.Forall₂ R l l') (hy : y ∈ l') : ∃ x ∈ l, R x y := by
  induction hl with
  | nil => exact absurd hy List.not_mem_nil
  | cons hxy _ ih =>
    rcases List.mem_cons.1 hy with rfl | hy
    · exact ⟨_, List.mem_cons_self, hxy⟩
    · obtain ⟨x, hx, hR⟩ := ih hy
      exact ⟨x, List.mem_cons_of_mem _ hx, hR⟩

theorem forall₂_mem_left (hl : List.Forall₂ R l l') (hx : x ∈ l) : ∃ y ∈ l', R x y := by
  obtain ⟨y, hy, hR⟩ := forall₂_mem_right hl.flip hx
  exact ⟨y, hy, hR⟩

/-- One element is changed. -/
theorem forall₂_set (hR : ∀ x, R x x) {j : ℕ} (hj : j < l.length) (hy : R l[j] y) :
    List.Forall₂ R l (l.set j y) := by
  induction l generalizing j with
  | nil => exact absurd hj (Nat.not_lt_zero j)
  | cons x l ih =>
    cases j with
    | zero => exact .cons hy (List.forall₂_same.2 fun z _ => hR z)
    | succ j => exact .cons (hR x) (ih (Nat.lt_of_succ_lt_succ hj) hy)

end Sm8850.Lib
