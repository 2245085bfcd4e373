/-
  Search trees, read through their elements in order.

  * `elems`: the elements of a tree from left to right.
  * A guide says at each element whether what it looks for is to the left, to the
    right, or here.  `descend` follows it from the root, `link` follows it to a
    leaf and puts a new node there.
  * `Guided`: the elements in order agree with the guide.  Then `descend` finds an
    element exactly when there is one (`descend_eq_none`), and `link` puts the new
    one between those to its left and those to its right (`elems_link`), whatever
    the shape of the tree.
  * `Balancer`: the operations that change the shape.
  * `Apart`: ranges in order that do not overlap.
-/
import Mathlib.Data.Tree.Basic
import Mathlib.Data.List.Basic
import Mathlib.Data.List.Sort
import Mathlib.Tactic.Common

namespace Sm8850.Lib.SearchTree

universe u
variable {α : Type u}

/-! ## Descending -/

/-- The elements of a tree from left to right. -/
def elems : BinaryTree α → List α
  | .nil => []
  | .node a l r => elems l ++ a :: elems r

@[simp] theorem elems_nil : elems (.nil : BinaryTree α) = [] := rfl

@[simp] theorem elems_node (a : α) (l r : BinaryTree α) :
    elems (.node a l r) = elems l ++ a :: elems r := rfl

/-- Follow the guide until it says to stop. -/
def descend (guide : α → Ordering) : BinaryTree α → Option α
  | .nil => none
  | .node a l r =>
    match guide a with
    | .lt => descend guide l
    | .gt => descend guide r
    | .eq => some a

/-- Follow the guide to a leaf and put `x` there, unless it says to stop before. -/
def link (guide : α → Ordering) (x : α) : BinaryTree α → Option (BinaryTree α)
  | .nil => some (.node x .nil .nil)
  | .node a l r =>
    match guide a with
    | .lt => (link guide x l).map fun l' => .node a l' r
    | .gt => (link guide x r).map fun r' => .node a l r'
    | .eq => none

/-- What is to the right of an element to go left from is to go left from too, and the
    other way round. -/
def Guided (guide : α → Ordering) (l : List α) : Prop :=
  l.Pairwise fun a b => (guide a = .lt → guide b = .lt) ∧ (guide b = .gt → guide a = .gt)

section
variable {guide : α → Ordering} {a x : α} {l r t t' : BinaryTree α}

theorem guided_node (h : Guided guide (elems (.node a l r))) :
    Guided guide (elems l) ∧ Guided guide (elems r) ∧
    (guide a = .lt → ∀ b ∈ elems r, guide b = .lt) ∧
    (guide a = .gt → ∀ b ∈ elems l, guide b = .gt) := by
  obtain ⟨hl, har, hcross⟩ := List.pairwise_append.1 h
  obtain ⟨ha, hr⟩ := List.pairwise_cons.1 har
  exact ⟨hl, hr, fun hlt b hb => (ha b hb).1 hlt,
    fun hgt b hb => (hcross b hb a List.mem_cons_self).2 hgt⟩

theorem descend_eq_some (h : descend guide t = some x) : x ∈ elems t ∧ guide x = .eq := by
  induction t with
  | nil => cases h
  | node a l r ihl ihr =>
    rw [descend] at h
    split at h
    · exact ⟨List.mem_append_left _ (ihl h).1, (ihl h).2⟩
    · exact ⟨List.mem_append_right _ (List.mem_cons_of_mem _ (ihr h).1), (ihr h).2⟩
    · rename_i heq
      obtain rfl := Option.some.inj h
      exact ⟨List.mem_append_right _ List.mem_cons_self, heq⟩

/-- A descent fails only if there is nothing to stop at. -/
theorem descend_eq_none (hg : Guided guide (elems t)) (h : descend guide t = none) :
    ∀ b ∈ elems t, guide b ≠ .eq := by
  induction t with
  | nil => exact fun b hb => absurd hb List.not_mem_nil
  | node a l r ihl ihr =>
    obtain ⟨hl, hr, hright, hleft⟩ := guided_node hg
    intro b hb
    rw [elems_node, List.mem_append, List.mem_cons] at hb
    rw [descend] at h
    split at h
    · rename_i hlt
      rcases hb with hb | rfl | hb
      · exact ihl hl h b hb
      · rw [hlt]
        exact Ordering.noConfusion
      · rw [hright hlt b hb]
        exact Ordering.noConfusion
    · rename_i hgt
      rcases hb with hb | rfl | hb
      · rw [hleft hgt b hb]
        exact Ordering.noConfusion
      · rw [hgt]
        exact Ordering.noConfusion
      · exact ihr hr h b hb
    · cases h

/-- The new element goes between those to its left and those to its right. -/
theorem elems_link (hg : Guided guide (elems t)) (h : link guide x t = some t') :
    ∃ l₁ l₂, elems t = l₁ ++ l₂ ∧ elems t' = l₁ ++ x :: l₂ ∧
      (∀ b ∈ l₁, guide b = .gt) ∧ ∀ b ∈ l₂, guide b = .lt := by
  induction t generalizing t' with
  | nil =>
    obtain rfl := Option.some.inj h
    exact ⟨[], [], rfl, rfl, fun b hb => absurd hb List.not_mem_nil,
      fun b hb => absurd hb List.not_mem_nil⟩
  | node a l r ihl ihr =>
    obtain ⟨hl, hr, hright, hleft⟩ := guided_node hg
    rw [link] at h
    split at h
    · rename_i hlt
      obtain ⟨l', hl', rfl⟩ := Option.map_eq_some_iff.1 h
      obtain ⟨l₁, l₂, he, he', h₁, h₂⟩ := ihl hl hl'
      refine ⟨l₁, l₂ ++ a :: elems r, ?_, ?_, h₁, ?_⟩
      · rw [elems_node, he, List.append_assoc]
      · rw [elems_node, he', List.append_assoc, List.cons_append]
      · intro b hb
        rw [List.mem_append, List.mem_cons] at hb
        rcases hb with hb | rfl | hb
        · exact h₂ b hb
        · exact hlt
        · exact hright hlt b hb
    · rename_i hgt
      obtain ⟨r', hr', rfl⟩ := Option.map_eq_some_iff.1 h
      obtain ⟨l₁, l₂, he, he', h₁, h₂⟩ := ihr hr hr'
      refine ⟨elems l ++ a :: l₁, l₂, ?_, ?_, ?_, h₂⟩
      · rw [elems_node, he, List.append_assoc, List.cons_append]
      · rw [elems_node, he', List.append_assoc, List.cons_append]
      · intro b hb
        rw [List.mem_append, List.mem_cons] at hb
        rcases hb with hb | rfl | hb
        · exact hleft hgt b hb
        · exact hgt
        · exact h₁ b hb
    · cases h

/-- A new element is refused only where the guide stops. -/
theorem link_eq_none (h : link guide x t = none) : ∃ b ∈ elems t, guide b = .eq := by
  induction t with
  | nil => cases h
  | node a l r ihl ihr =>
    rw [link] at h
    split at h
    · obtain ⟨b, hb, heq⟩ := ihl (Option.map_eq_none_iff.1 h)
      exact ⟨b, List.mem_append_left _ hb, heq⟩
    · obtain ⟨b, hb, heq⟩ := ihr (Option.map_eq_none_iff.1 h)
      exact ⟨b, List.mem_append_right _ (List.mem_cons_of_mem _ hb), heq⟩
    · rename_i heq
      exact ⟨a, List.mem_append_right _ List.mem_cons_self, heq⟩

end

/-! ## Changing the shape -/

/-- What a balanced tree does besides descending: it rebalances after a new element was
    linked, and it takes an element out. -/
structure Balancer (α : Type u) [DecidableEq α] where
  fixup : α → BinaryTree α → BinaryTree α
  erase : α → BinaryTree α → BinaryTree α
  elems_fixup : ∀ a t, elems (fixup a t) = elems t
  elems_erase : ∀ a t, elems (erase a t) = (elems t).erase a

/-- The elements of a list as a tree that grows to the right only. -/
def spine : List α → BinaryTree α
  | [] => .nil
  | a :: l => .node a .nil (spine l)

@[simp] theorem elems_spine (l : List α) : elems (spine l) = l := by
  induction l with
  | nil => rfl
  | cons a l ih => rw [spine, elems_node, ih, elems_nil, List.nil_append]

/-- No balancing at all. -/
def Balancer.list [DecidableEq α] : Balancer α where
  fixup _ t := t
  erase a t := spine ((elems t).erase a)
  elems_fixup _ _ := rfl
  elems_erase _ _ := elems_spine _

/-! ## Ranges in order -/

variable (lo hi : α → ℕ)

/-- Ranges from `lo` up to `hi` that follow one another without overlap. -/
def Apart (l : List α) : Prop := l.Pairwise fun a b => hi a ≤ lo b

section
variable {lo hi} {l l₁ l₂ : List α}

theorem Apart.insert {x : α} (h : Apart lo hi (l₁ ++ l₂)) (h₁ : ∀ a ∈ l₁, hi a ≤ lo x)
    (h₂ : ∀ a ∈ l₂, hi x ≤ lo a) : Apart lo hi (l₁ ++ x :: l₂) := by
  obtain ⟨hl, hr, hcross⟩ := List.pairwise_append.1 h
  refine List.pairwise_append.2 ⟨hl, List.pairwise_cons.2 ⟨h₂, hr⟩, fun a ha b hb => ?_⟩
  rcases List.mem_cons.1 hb with rfl | hb
  · exact h₁ a ha
  · exact hcross a ha b hb

theorem Apart.erase [DecidableEq α] (h : Apart lo hi l) (a : α) : Apart lo hi (l.erase a) :=
  h.sublist List.erase_sublist

/-- A range is apart from what is left when it is taken out. -/
theorem Apart.apart_of_erase [DecidableEq α] (h : Apart lo hi l) {a b : α} (ha : a ∈ l)
    (hb : b ∈ l.erase a) : hi b ≤ lo a ∨ hi a ≤ lo b := by
  obtain ⟨l₁, l₂, -, rfl, herase⟩ := List.exists_erase_eq ha
  obtain ⟨-, hr, hcross⟩ := List.pairwise_append.1 h
  rw [herase, List.mem_append] at hb
  rcases hb with hb | hb
  · exact .inl (hcross b hb a List.mem_cons_self)
  · exact .inr ((List.pairwise_cons.1 hr).1 b hb)

/-- A range apart from all others, put where its start belongs. -/
theorem Apart.orderedInsert {x : α} (h : Apart lo hi l) (hpos : ∀ a ∈ l, lo a < hi a)
    (hx : lo x < hi x) (hc : ∀ a ∈ l, hi a ≤ lo x ∨ hi x ≤ lo a) :
    Apart lo hi (l.orderedInsert (fun a b => lo a < lo b) x) := by
  induction l with
  | nil => exact List.pairwise_singleton _ x
  | cons b l ih =>
    obtain ⟨hb, hl⟩ := List.pairwise_cons.1 h
    have hposb := hpos b List.mem_cons_self
    have hcb := hc b List.mem_cons_self
    rw [List.orderedInsert_cons]
    split
    · rename_i hlt
      refine List.pairwise_cons.2 ⟨fun a ha => ?_, h⟩
      rcases List.mem_cons.1 ha with rfl | ha
      · omega
      · have := hb a ha
        omega
    · rename_i hge
      refine List.pairwise_cons.2 ⟨fun a ha => ?_, ih hl
        (fun a ha => hpos a (List.mem_cons_of_mem _ ha))
        fun a ha => hc a (List.mem_cons_of_mem _ ha)⟩
      rcases (List.mem_orderedInsert _).1 ha with rfl | ha
      · omega
      · exact hb a ha

end

end Sm8850.Lib.SearchTree
