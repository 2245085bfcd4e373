/-
  Chained slots: doubly linked chains over a fixed set of slots.

  * `Links`: which slots are occupied, and their two link fields.
  * `Chained`: the local invariant of a hash table with chaining, with two
    ghosts: the base slot a chain starts from (`root`) and a number that grows
    along every chain (`rank`).
  * `insertHead`, `insertTail`, `unlink`, `removeHead`: the link operations,
    each keeping `Chained`.
  * `card_filter_insert`, `card_filter_erase`: one slot changes a count by one.
  * `WellChained`: the global reading (finite duplicate-free paths that cover
    every expansion slot once), which `Chained.wellChained` derives.
-/
import Mathlib

namespace Sm8850.Lib

universe u
variable {ν : Type u}

/-- The occupied slots of a table and their link fields. -/
structure Links (ν : Type u) where
  occ : ν → Prop
  next : ν → ν
  prev : ν → ν

/-- Two views that differ in the link fields of free slots only. -/
structure Links.Agree (L M : Links ν) : Prop where
  occ : ∀ i, L.occ i ↔ M.occ i
  next : ∀ i, L.occ i → L.next i = M.next i
  prev : ∀ i, L.occ i → L.prev i = M.prev i

theorem Links.Agree.refl (L : Links ν) : L.Agree L :=
  ⟨fun _ => Iff.rfl, fun _ _ => rfl, fun _ _ => rfl⟩

theorem Links.Agree.trans {L M N : Links ν} (h : L.Agree M) (k : M.Agree N) : L.Agree N :=
  ⟨fun i => (h.occ i).trans (k.occ i),
    fun i hi => (h.next i hi).trans (k.next i ((h.occ i).1 hi)),
    fun i hi => (h.prev i hi).trans (k.prev i ((h.occ i).1 hi))⟩

theorem Links.Agree.symm {L M : Links ν} (h : L.Agree M) : M.Agree L :=
  ⟨fun i => (h.occ i).symm, fun i hi => (h.next i ((h.occ i).2 hi)).symm,
    fun i hi => (h.prev i ((h.occ i).2 hi)).symm⟩

/-- The chaining invariant, slot by slot.  `null` is the end marker, `base` the
    slots a chain may start from; `root` and `rank` are ghosts. -/
structure Chained (null : ν) (base : ν → Prop) (L : Links ν) (root : ν → ν) (rank : ν → ℕ) :
    Prop where
  null_free : ¬ L.occ null
  next_occ : ∀ i, L.occ i → L.next i ≠ null → L.occ (L.next i)
  next_expn : ∀ i, L.occ i → L.next i ≠ null → ¬ base (L.next i)
  prev_next : ∀ i, L.occ i → L.next i ≠ null → L.prev (L.next i) = i
  root_next : ∀ i, L.occ i → L.next i ≠ null → root (L.next i) = root i
  rank_next : ∀ i, L.occ i → L.next i ≠ null → rank i < rank (L.next i)
  prev_base : ∀ i, L.occ i → base i → L.prev i = null
  root_base : ∀ i, L.occ i → base i → root i = i
  prev_occ : ∀ i, L.occ i → ¬ base i → L.occ (L.prev i)
  next_prev : ∀ i, L.occ i → ¬ base i → L.next (L.prev i) = i

/-! ## Link operations -/

/-- Free the base slot `b`. -/
def Links.removeHead (L : Links ν) (b : ν) : Links ν where
  occ j := j ≠ b ∧ L.occ j
  next := L.next
  prev := L.prev

section Operations
variable [DecidableEq ν]

/-- Occupy the base slot `b` as a chain of its own. -/
def Links.insertHead (null : ν) (L : Links ν) (b : ν) : Links ν where
  occ i := i = b ∨ L.occ i
  next := Function.update L.next b null
  prev := Function.update L.prev b null

/-- Occupy the expansion slot `f` behind `last`. -/
def Links.insertTail (null : ν) (L : Links ν) (last f : ν) : Links ν where
  occ i := i = f ∨ L.occ i
  next := Function.update (Function.update L.next last f) f null
  prev := Function.update L.prev f last

/-- Free the expansion slot `i`, joining its two neighbours. -/
def Links.unlink (L : Links ν) (i : ν) : Links ν where
  occ j := j ≠ i ∧ L.occ j
  next := Function.update L.next (L.prev i) (L.next i)
  prev := Function.update L.prev (L.next i) (L.prev i)

theorem Links.unlink_next (L : Links ν) (i k : ν) :
    (L.unlink i).next k = if k = L.prev i then L.next i else L.next k :=
  Function.update_apply ..

theorem Links.unlink_prev (L : Links ν) (i k : ν) :
    (L.unlink i).prev k = if k = L.next i then L.prev i else L.prev k :=
  Function.update_apply ..

end Operations

section Preservation
variable {null : ν} {base : ν → Prop} {L M : Links ν} {root : ν → ν} {rank : ν → ℕ}

theorem Chained.congr (h : Chained null base L root rank) (e : L.Agree M) :
    Chained null base M root rank := by
  have occ : ∀ {i}, M.occ i → L.occ i := fun {i} hi => (e.occ i).2 hi
  have next : ∀ {i}, M.occ i → M.next i = L.next i := fun {i} hi => (e.next i (occ hi)).symm
  have prev : ∀ {i}, M.occ i → M.prev i = L.prev i := fun {i} hi => (e.prev i (occ hi)).symm
  have next_occ : ∀ i, M.occ i → M.next i ≠ null → M.occ (M.next i) := fun i hi hn => by
    rw [next hi] at hn ⊢
    exact (e.occ _).1 (h.next_occ i (occ hi) hn)
  refine ⟨fun hn => h.null_free (occ hn), next_occ, ?_, ?_, ?_, ?_, ?_, ?_, ?_, ?_⟩
  · intro i hi hn
    rw [next hi] at hn ⊢
    exact h.next_expn i (occ hi) hn
  · intro i hi hn
    rw [prev (next_occ i hi hn)]
    rw [next hi] at hn ⊢
    exact h.prev_next i (occ hi) hn
  · intro i hi hn
    rw [next hi] at hn ⊢
    exact h.root_next i (occ hi) hn
  · intro i hi hn
    rw [next hi] at hn ⊢
    exact h.rank_next i (occ hi) hn
  · exact fun i hi hb => (prev hi).trans (h.prev_base i (occ hi) hb)
  · exact fun i hi hb => h.root_base i (occ hi) hb
  · intro i hi hb
    rw [prev hi]
    exact (e.occ _).1 (h.prev_occ i (occ hi) hb)
  · intro i hi hb
    have hp : M.occ (L.prev i) := (e.occ _).1 (h.prev_occ i (occ hi) hb)
    rw [prev hi, next hp]
    exact h.next_prev i (occ hi) hb

theorem Chained.ne_of_occ {f i : ν} (hf : ¬ L.occ f) (hi : L.occ i) : i ≠ f := by
  rintro rfl
  exact hf hi

theorem Chained.removeHead (h : Chained null base L root rank) {b : ν} (hb : base b)
    (he : L.next b = null) : Chained null base (L.removeHead b) root rank := by
  have hnull := h.null_free
  constructor <;> simp only [Links.removeHead]
  · grind
  · grind [h.next_occ, h.next_expn]
  · grind [h.next_expn]
  · grind [h.prev_next, h.next_occ]
  · grind [h.root_next, h.next_occ]
  · intro j
    have := h.rank_next j
    grind
  · grind [h.prev_base, h.next_expn]
  · grind [h.root_base]
  · grind [h.prev_occ, h.next_prev]
  · grind [h.next_prev, h.prev_occ, h.prev_next]

variable [DecidableEq ν]

theorem Chained.insertHead (h : Chained null base L root rank) {b : ν} (hb : base b)
    (hn : b ≠ null) (hf : ¬ L.occ b) :
    Chained null base (L.insertHead null b) (Function.update root b b) rank := by
  have hnull := h.null_free
  constructor <;> simp only [Links.insertHead, Function.update_apply]
  · grind
  · grind [h.next_occ]
  · grind [h.next_expn]
  · grind [h.prev_next, h.next_expn]
  · grind [h.root_next, h.next_expn]
  · intro i
    have := h.rank_next i
    grind
  · grind [h.prev_base]
  · grind [h.root_base]
  · grind [h.prev_occ]
  · grind [h.next_prev, h.prev_occ]

theorem Chained.insertTail (h : Chained null base L root rank) {last f : ν}
    (hl : L.occ last) (he : L.next last = null) (hb : ¬ base f) (hn : f ≠ null)
    (hf : ¬ L.occ f) :
    Chained null base (L.insertTail null last f) (Function.update root f (root last))
      (Function.update rank f (rank last + 1)) := by
  have hnull := h.null_free
  constructor <;> simp only [Links.insertTail, Function.update_apply]
  · grind
  · grind [h.next_occ]
  · grind [h.next_expn]
  · grind [h.prev_next, h.next_occ]
  · grind [h.root_next, h.next_occ]
  · intro i
    have := h.rank_next i
    grind [h.next_occ]
  · grind [h.prev_base]
  · grind [h.root_base]
  · grind [h.prev_occ]
  · grind [h.next_prev, h.prev_occ]

theorem Chained.unlink (h : Chained null base L root rank) {i : ν} (hi : L.occ i)
    (hb : ¬ base i) : Chained null base (L.unlink i) root rank := by
  have hnull := h.null_free
  have hp := h.prev_occ i hi hb
  have hpn := h.next_prev i hi hb
  have hne : i ≠ null := fun e => hnull (e ▸ hi)
  have hrank : rank (L.prev i) < rank i := by
    have := h.rank_next _ hp (by rw [hpn]; exact hne)
    rwa [hpn] at this
  have hroot : root i = root (L.prev i) := by
    have := h.root_next _ hp (by rw [hpn]; exact hne)
    rwa [hpn] at this
  constructor <;> simp only [Links.unlink, Function.update_apply]
  · grind
  · grind [h.next_occ, h.rank_next, h.prev_next]
  · grind [h.next_expn]
  · intro j
    have := h.prev_next j
    have := h.prev_next i hi
    grind [h.next_occ]
  · grind [h.root_next, h.next_occ]
  · intro j
    have := h.rank_next j
    have := h.rank_next i
    grind [h.next_occ]
  · grind [h.prev_base, h.next_expn]
  · grind [h.root_base]
  · grind [h.prev_occ, h.next_prev]
  · grind [h.next_prev, h.prev_occ, h.prev_next]

end Preservation

/-! ## Chains as paths -/

/-- `l` lists the slots met from `i` along `next` until `null`. -/
def IsPath (null : ν) (next : ν → ν) : ν → List ν → Prop
  | i, [] => i = null
  | i, j :: l => j = i ∧ i ≠ null ∧ IsPath null next (next i) l

/-- **The global reading of a chained table**: from every occupied base slot a
    finite acyclic chain of occupied expansion slots, back links that name the
    predecessor, and every occupied expansion slot on exactly one chain. -/
structure WellChained (null : ν) (base : ν → Prop) (L : Links ν) : Prop where
  null_free : ¬ L.occ null
  chain : ∀ b, L.occ b → base b → ∃ l, IsPath null L.next b l ∧ l.Nodup ∧
    (∀ e ∈ l.tail, L.occ e ∧ ¬ base e) ∧ L.prev b = null ∧ l.IsChain fun i j => L.prev j = i
  covered : ∀ e, L.occ e → ¬ base e →
    ∃! b, (L.occ b ∧ base b) ∧ ∃ l, IsPath null L.next b l ∧ e ∈ l

theorem IsPath.eq_nil_iff {null : ν} {next : ν → ν} {i : ν} {l : List ν}
    (h : IsPath null next i l) : l = [] ↔ i = null := by
  cases l with
  | nil => exact ⟨fun _ => h, fun _ => rfl⟩
  | cons j l => exact ⟨fun e => by simp at e, fun e => absurd e h.2.1⟩

theorem IsPath.self_mem {null : ν} {next : ν → ν} {i : ν} {l : List ν}
    (h : IsPath null next i l) (hi : i ≠ null) : i ∈ l := by
  cases l with
  | nil => exact absurd h hi
  | cons j l => exact h.1 ▸ List.mem_cons_self

theorem IsPath.next_mem {null : ν} {next : ν → ν} {i j : ν} {l : List ν}
    (h : IsPath null next i l) (hj : j ∈ l) (hn : next j ≠ null) : next j ∈ l := by
  induction l generalizing i with
  | nil => simp at hj
  | cons k l ih =>
    obtain ⟨rfl, -, ht⟩ := h
    rcases List.mem_cons.1 hj with rfl | hj
    · exact List.mem_cons_of_mem _ (ht.self_mem hn)
    · exact List.mem_cons_of_mem _ (ih ht hj)

/-- The path from a slot is unique. -/
theorem IsPath.unique {null : ν} {next : ν → ν} {i : ν} {l m : List ν}
    (h : IsPath null next i l) (k : IsPath null next i m) : l = m := by
  induction l generalizing i m with
  | nil => exact (k.eq_nil_iff.2 h).symm
  | cons j l ih =>
    obtain ⟨rfl, hn, ht⟩ := h
    cases m with
    | nil => exact absurd k hn
    | cons j' m => rw [k.1, ih ht k.2.2]

/-- From every slot on a path there is a path, which is not longer. -/
theorem IsPath.suffix {null : ν} {next : ν → ν} {i j : ν} {l : List ν}
    (h : IsPath null next i l) (hj : j ∈ l) :
    ∃ m, IsPath null next j m ∧ m.length ≤ l.length := by
  induction l generalizing i with
  | nil => cases hj
  | cons k l ih =>
    rcases List.mem_cons.1 hj with rfl | hj
    · exact ⟨j :: l, ⟨rfl, h.1 ▸ h.2.1, h.1 ▸ h.2.2⟩, le_rfl⟩
    · obtain ⟨m, hm, hle⟩ := ih h.2.2 hj
      exact ⟨m, hm, Nat.le_succ_of_le hle⟩

/-- A path that ends visits no slot twice. -/
theorem IsPath.nodup {null : ν} {next : ν → ν} {i : ν} {l : List ν}
    (h : IsPath null next i l) : l.Nodup := by
  induction l generalizing i with
  | nil => exact List.nodup_nil
  | cons j l ih =>
    refine List.nodup_cons.2 ⟨fun hj => ?_, ih h.2.2⟩
    obtain ⟨m, hm, hle⟩ := h.2.2.suffix hj
    have hlen := congrArg List.length (h.unique (h.1 ▸ hm))
    rw [List.length_cons] at hlen
    omega

section Global
variable {null : ν} {base : ν → Prop} {L : Links ν} {root : ν → ν} {rank : ν → ℕ}

/-- What a path along occupied slots visits. -/
theorem Chained.path_facts (h : Chained null base L root rank) {i : ν} {l : List ν}
    (hp : IsPath null L.next i l) (hi : i ≠ null → L.occ i) :
    (∀ j ∈ l, L.occ j ∧ root j = root i ∧ rank i ≤ rank j) ∧
      (∀ j ∈ l.tail, ¬ base j) ∧ l.Pairwise (fun a b => rank a < rank b) ∧
      l.IsChain fun a b => L.prev b = a := by
  induction l generalizing i with
  | nil => simp
  | cons k l ih =>
    obtain ⟨rfl, hn, ht⟩ := hp
    have hk := hi hn
    obtain ⟨hocc, hexp, hpw, hch⟩ := ih ht fun he => h.next_occ k hk he
    have hnext : ∀ j ∈ l, L.next k ≠ null := by
      rintro j hj he
      rw [ht.eq_nil_iff.2 he] at hj
      simp at hj
    refine ⟨fun j hj => ?_, fun j hj => ?_, ?_, ?_⟩
    · rcases List.mem_cons.1 hj with rfl | hj
      · exact ⟨hk, rfl, le_rfl⟩
      · obtain ⟨h₁, h₂, h₃⟩ := hocc j hj
        have hne := hnext j hj
        exact ⟨h₁, h₂.trans (h.root_next k hk hne), (h.rank_next k hk hne).le.trans h₃⟩
    · rw [List.tail_cons] at hj
      have hne := hnext j hj
      cases l with
      | nil => simp at hj
      | cons m l =>
        rcases List.mem_cons.1 hj with rfl | hj
        · exact ht.1 ▸ h.next_expn k hk hne
        · exact hexp j hj
    · refine List.pairwise_cons.2 ⟨fun j hj => ?_, hpw⟩
      exact (h.rank_next k hk (hnext j hj)).trans_le (hocc j hj).2.2
    · cases l with
      | nil => simp
      | cons m l =>
        have hne := hnext m List.mem_cons_self
        exact List.isChain_cons_cons.2 ⟨ht.1 ▸ h.prev_next k hk hne, hch⟩

theorem Chained.path_nodup (h : Chained null base L root rank) {i : ν} {l : List ν}
    (hp : IsPath null L.next i l) (hi : i ≠ null → L.occ i) : l.Nodup :=
  (h.path_facts hp hi).2.2.1.imp fun hlt he => by rw [he] at hlt; exact lt_irrefl _ hlt

/-- A path exists from every occupied slot when finitely many slots are occupied. -/
theorem Chained.exists_path (h : Chained null base L root rank) {S : Finset ν}
    (hS : ∀ i, L.occ i → i ∈ S) {i : ν} (hi : L.occ i) : ∃ l, IsPath null L.next i l := by
  classical
  -- induction on the number of slots of higher rank
  induction hm : (S.filter fun j => rank i < rank j).card using Nat.strong_induction_on
    generalizing i with
  | _ m ih =>
    have hne : i ≠ null := fun e => h.null_free (e ▸ hi)
    by_cases hn : L.next i = null
    · exact ⟨[i], rfl, hne, hn⟩
    have hocc := h.next_occ i hi hn
    have hlt := h.rank_next i hi hn
    have hcard : (S.filter fun j => rank (L.next i) < rank j).card < m := by
      rw [← hm]
      refine Finset.card_lt_card (Finset.ssubset_iff_of_subset ?_ |>.2 ⟨L.next i, ?_, ?_⟩)
      · intro j hj
        rw [Finset.mem_filter] at hj ⊢
        exact ⟨hj.1, hlt.trans hj.2⟩
      · exact Finset.mem_filter.2 ⟨hS _ hocc, hlt⟩
      · simp
    obtain ⟨l, hl⟩ := ih _ hcard hocc rfl
    exact ⟨i :: l, rfl, hne, hl⟩

/-- Every occupied slot lies on the path from its root. -/
theorem Chained.exists_root_path (h : Chained null base L root rank) {S : Finset ν}
    (hS : ∀ i, L.occ i → i ∈ S) {i : ν} (hi : L.occ i) :
    L.occ (root i) ∧ base (root i) ∧ ∃ l, IsPath null L.next (root i) l ∧ i ∈ l := by
  induction hm : rank i using Nat.strong_induction_on generalizing i with
  | _ m ih =>
    have hne : i ≠ null := fun e => h.null_free (e ▸ hi)
    by_cases hb : base i
    · rw [h.root_base i hi hb]
      obtain ⟨l, hl⟩ := h.exists_path hS hi
      exact ⟨hi, hb, l, hl, hl.self_mem hne⟩
    have hp := h.prev_occ i hi hb
    have hnp := h.next_prev i hi hb
    have hnn : L.next (L.prev i) ≠ null := by rw [hnp]; exact hne
    have hlt := h.rank_next _ hp hnn
    rw [hnp, hm] at hlt
    have hroot : root i = root (L.prev i) := by
      have := h.root_next _ hp hnn
      rwa [hnp] at this
    obtain ⟨h₁, h₂, l, hl, hmem⟩ := ih _ hlt hp rfl
    rw [hroot]
    have hi' := hl.next_mem hmem hnn
    rw [hnp] at hi'
    exact ⟨h₁, h₂, l, hl, hi'⟩

/-- **The local invariant gives the global one.** -/
theorem Chained.wellChained (h : Chained null base L root rank) {S : Finset ν}
    (hS : ∀ i, L.occ i → i ∈ S) : WellChained null base L := by
  refine ⟨h.null_free, fun b hb hbase => ?_, fun e he hexp => ?_⟩
  · obtain ⟨l, hl⟩ := h.exists_path hS hb
    obtain ⟨hocc, hexp, -, hch⟩ := h.path_facts hl fun _ => hb
    refine ⟨l, hl, h.path_nodup hl fun _ => hb, fun e he => ?_, h.prev_base b hb hbase, hch⟩
    exact ⟨(hocc e (List.mem_of_mem_tail he)).1, hexp e he⟩
  · obtain ⟨h₁, h₂, l, hl, hmem⟩ := h.exists_root_path hS he
    refine ⟨root e, ⟨⟨h₁, h₂⟩, l, hl, hmem⟩, ?_⟩
    rintro b ⟨⟨hb, hbase⟩, m, hm, hem⟩
    rw [((h.path_facts hm fun _ => hb).1 e hem).2.1, h.root_base b hb hbase]

end Global

/-! ## Counting occupied slots -/

section Count
variable {S : Finset ν} {p q : ν → Prop} [DecidablePred p] [DecidablePred q] {i : ν}

theorem card_filter_insert (hi : i ∈ S) (hp : ¬ p i) (hq : q i) (h : ∀ j, j ≠ i → (q j ↔ p j)) :
    (S.filter q).card = (S.filter p).card + 1 := by
  classical
  have hins : S.filter q = insert i (S.filter p) := by
    ext j
    by_cases hj : j = i
    · subst hj
      simp [hi, hq]
    · simp [hj, h j hj]
  rw [hins, Finset.card_insert_of_notMem (by simp [hp])]

theorem card_filter_erase (hi : i ∈ S) (hp : p i) (hq : ¬ q i) (h : ∀ j, j ≠ i → (q j ↔ p j)) :
    (S.filter q).card + 1 = (S.filter p).card :=
  (card_filter_insert hi hq hp fun j hj => (h j hj).symm).symm

/-- A change outside `S` does not count. -/
theorem card_filter_off (hi : i ∉ S) (h : ∀ j, j ≠ i → (q j ↔ p j)) :
    (S.filter q).card = (S.filter p).card := by
  refine congrArg Finset.card (Finset.filter_congr fun j hj => h j ?_)
  rintro rfl
  exact hi hj

end Count

end Sm8850.Lib
