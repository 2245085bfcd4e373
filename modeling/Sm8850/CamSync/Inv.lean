/-
  What every interleaving of the row-locked sections keeps, as long as each
  section meets the fence it means.

  * `RowInv`: the links in the rows lead to groups that still wait for the
    child, and a group has one `remaining` for each child it waits for.
  * `SignalInv`: so do the links that signaling threads have taken, and no two
    threads signal one fence.
  * `MergeInv`: a merging thread holds the lock of its row, and the children
    still to visit are not among those it has.
  * One lemma for each kind of section; `Inv.fade` is for those that touch no
    link, or only drop some.
-/
import Sm8850.CamSync.Sections

namespace Sm8850.CamSync

variable {w w' : World} {t t' i c idx : ℕ} {k l : Link} {row : Row} {status : FenceState}

/-! ## The invariant -/

/-- The fence has been created. -/
def World.Born (w : World) (k : Link) : Prop :=
  k.gen < (w.rows k.syncId).gen ∨
    k.gen = (w.rows k.syncId).gen ∧ ((w.rows k.syncId).bit = true ∨ (w.rows k.syncId).locked = true)

/-- The parent `l` waits for `k`, unless its row has been given back. -/
def World.Awaits (w : World) (l k : Link) : Prop :=
  l.gen ≤ (w.rows l.syncId).gen ∧ (l.gen = (w.rows l.syncId).gen → k ∈ w.waiting l)

/-- The links in the rows and the count of each group. -/
structure RowInv (w : World) : Prop where
  fresh : ∀ l, ¬ w.Born l → w.waiting l = [] ∧ w.kids l = [] ∧ w.final l = none
  live : ∀ i, (w.rows i).state ≠ .invalid → (w.rows i).bit = true ∨ (w.rows i).locked = true
  noFinal : ∀ i, (w.rows i).state = .active → w.final (w.self i) = none
  noParents : ∀ i, (w.rows i).state = .invalid ∨ (w.rows i).type = .group →
    (w.rows i).parentsList = []
  count : ∀ i, ((w.rows i).locked = true → (w.rows i).state ≠ .invalid) →
    (w.rows i).remaining = (w.waiting (w.self i)).length
  waitingNodup : ∀ l, (w.waiting l).Nodup
  waitingKids : ∀ l, w.waiting l ⊆ w.kids l
  rowNodup : ∀ i, (w.rows i).parentsList.Nodup
  rowLink : ∀ i, ∀ l ∈ (w.rows i).parentsList, w.Awaits l (w.self i)

/-- The links that signaling threads have taken with them. -/
structure SignalInv (w : World) : Prop where
  thrNodup : ∀ t fence status parents, w.thr t = .signalParents fence status parents →
    parents.Nodup
  thrLink : ∀ t fence status parents, w.thr t = .signalParents fence status parents →
    ∀ l ∈ parents, w.Awaits l fence
  taken : ∀ t fence status parents, w.thr t = .signalParents fence status parents →
    fence.gen = (w.rows fence.syncId).gen → (w.rows fence.syncId).parentsList = []
  carries : ∀ t status, (w.thr t).carries = some status → status.signaled = true
  owner : ∀ t fence, (w.thr t).owner = some fence → w.final fence ≠ none
  ownerInj : ∀ t t' fence, (w.thr t).owner = some fence → (w.thr t').owner = some fence → t = t'

/-- The rows that merging threads have locked. -/
structure MergeInv (w : World) : Prop where
  checking : ∀ t objs todo, w.thr t = .mergeCheck objs todo → objs.Nodup
  merging : ∀ t idx objs todo, w.thr t = .mergeChildren idx objs todo →
    (w.rows idx).locked = true ∧ (w.rows idx).bit = true ∧ (w.rows idx).type = .group ∧
      (w.rows idx).state ≠ .invalid ∧ todo.Nodup ∧ ∀ k ∈ w.kids (w.self idx), k.syncId ∉ todo
  undoing : ∀ t idx todo, w.thr t = .mergeUndo idx todo →
    (w.rows idx).locked = true ∧ (w.rows idx).state = .invalid
  mergerInj : ∀ t t' idx, (w.thr t).merger = some idx → (w.thr t').merger = some idx → t = t'

/-- **What every interleaving keeps.** -/
structure Inv (w : World) : Prop extends RowInv w, SignalInv w, MergeInv w

theorem inv_init (eventq : Bool) : Inv (World.init eventq) := by
  constructor <;> constructor <;> intros <;>
    simp_all [World.init, Row.zero, Task.owner, Task.carries, Task.merger]
  all_goals grind

/-! ## Frames -/

/-- The row keeps what a merge that holds its lock reads. -/
def Row.SameHeld (r r' : Row) : Prop :=
  r'.locked = true ∧ r'.bit = r.bit ∧ r'.type = r.type ∧ r'.state = r.state ∧ r'.gen = r.gen

/-- Threads that go on with the same signal keep their links. -/
theorem SignalInv.keep (h : SignalInv w)
    (ht : ∀ t, w'.thr t = w.thr t ∨ (w'.thr t).owner = none)
    (ha : ∀ l k, w.Awaits l k → w'.Awaits l k)
    (hp : ∀ k, w.final k ≠ none → k.gen = (w'.rows k.syncId).gen →
      k.gen = (w.rows k.syncId).gen ∧
        ((w.rows k.syncId).parentsList = [] → (w'.rows k.syncId).parentsList = []))
    (hf : ∀ k, w.final k ≠ none → w'.final k ≠ none) : SignalInv w' := by
  have hs : ∀ t f s p, w'.thr t = .signalParents f s p → w.thr t = .signalParents f s p :=
    fun t f s p he => by grind [Task.owner]
  have ho : ∀ t f, (w'.thr t).owner = some f → (w.thr t).owner = some f := fun t f he => by grind
  constructor
  · exact fun t f s p he => h.thrNodup t f s p (hs t f s p he)
  · exact fun t f s p he l hl => ha l f (h.thrLink t f s p (hs t f s p he) l hl)
  · intro t f s p he hg
    have he := hs t f s p he
    obtain ⟨hg', hp'⟩ := hp f (h.owner t f (by rw [he]; rfl)) hg
    exact hp' (h.taken t f s p he hg')
  · intro t s he
    rcases ht t with ht | ht
    · exact h.carries t s (ht ▸ he)
    · cases hk : w'.thr t <;> simp_all [Task.owner, Task.carries]
  · exact fun t f he => hf f (h.owner t f (ho t f he))
  · exact fun t t' f he he' => h.ownerInj t t' f (ho t f he) (ho t' f he')

/-- Merges go on where the rows they hold are left alone. -/
theorem MergeInv.keep (h : MergeInv w)
    (ht : ∀ t, w'.thr t = w.thr t ∨ (w'.thr t).merger = none ∧
      ∀ objs todo, w'.thr t = .mergeCheck objs todo → objs.Nodup)
    (hr : ∀ i, (w.rows i).locked = true → (w.rows i).SameHeld (w'.rows i))
    (hk : ∀ i, (w.rows i).locked = true → w'.kids (w.self i) = w.kids (w.self i)) :
    MergeInv w' := by
  have hs : ∀ i, (w.rows i).locked = true → w'.self i = w.self i := fun i hl => by
    grind [World.self, Row.SameHeld]
  constructor
  · grind [h.checking]
  · intro t idx objs todo he
    have := h.merging t idx objs todo (by grind [Task.merger])
    grind [Row.SameHeld]
  · intro t idx todo he
    have := h.undoing t idx todo (by grind [Task.merger])
    grind [Row.SameHeld]
  · grind [h.mergerInj]

/-- One section of the merge that holds `idx`. -/
theorem MergeInv.advance (h : MergeInv w) (hm : (w.thr t).merger = some idx)
    (ht : ∀ t', t' ≠ t → w'.thr t' = w.thr t')
    (hr : ∀ i, i ≠ idx → (w.rows i).locked = true → (w.rows i).SameHeld (w'.rows i))
    (hk : ∀ i, i ≠ idx → (w.rows i).locked = true → w'.kids (w.self i) = w.kids (w.self i))
    (hc : ∀ objs todo, w'.thr t ≠ .mergeCheck objs todo)
    (hn : ∀ objs todo, w'.thr t = .mergeChildren idx objs todo →
      (w'.rows idx).locked = true ∧ (w'.rows idx).bit = true ∧ (w'.rows idx).type = .group ∧
        (w'.rows idx).state ≠ .invalid ∧ todo.Nodup ∧ ∀ k ∈ w'.kids (w'.self idx), k.syncId ∉ todo)
    (hu : ∀ todo, w'.thr t = .mergeUndo idx todo →
      (w'.rows idx).locked = true ∧ (w'.rows idx).state = .invalid)
    (hm' : ∀ i, (w'.thr t).merger = some i → i = idx) : MergeInv w' := by
  have hs : ∀ i, i ≠ idx → (w.rows i).locked = true → w'.self i = w.self i := fun i hi hl => by
    grind [World.self, Row.SameHeld]
  -- the other merges hold other rows
  have hother : ∀ t' i, t' ≠ t → (w.thr t').merger = some i → i ≠ idx := fun t' i hne he hi =>
    hne (h.mergerInj t' t idx (hi ▸ he) hm)
  constructor
  · intro t' objs todo he
    by_cases hte : t' = t
    · exact absurd (hte ▸ he) (hc objs todo)
    · exact h.checking t' objs todo (ht t' hte ▸ he)
  · intro t' i objs todo he
    by_cases hte : t' = t
    · subst hte
      obtain rfl := hm' i (by rw [he]; rfl)
      exact hn objs todo he
    · rw [ht t' hte] at he
      have hi := hother t' i hte (by rw [he]; rfl)
      have := h.merging t' i objs todo he
      grind [Row.SameHeld]
  · intro t' i todo he
    by_cases hte : t' = t
    · subst hte
      obtain rfl := hm' i (by rw [he]; rfl)
      exact hu todo he
    · rw [ht t' hte] at he
      have hi := hother t' i hte (by rw [he]; rfl)
      have := h.undoing t' i todo he
      grind [Row.SameHeld]
  · intro t' t'' i he he'
    grind [h.mergerInj]

/-! ## Sections that leave the links alone -/

/-- The row keeps what the invariant reads, or loses links, or is being
    destroyed. -/
structure Row.Fades (r r' : Row) : Prop where
  type : r'.type = r.type
  remaining : r'.remaining = r.remaining
  bit : r'.bit = r.bit
  locked : r'.locked = r.locked
  gen : r'.gen = r.gen
  parents : r'.parentsList.Sublist r.parentsList
  state : r'.state = r.state ∨ r.locked = false ∧ r'.state = .invalid ∧ r'.parentsList = []

theorem Row.Fades.sameHeld {r r' : Row} (h : r.Fades r') (hl : r.locked = true) :
    r.SameHeld r' := by
  grind [Row.Fades, Row.SameHeld]

section
variable (h : Inv w) (hr : ∀ i, (w.rows i).Fades (w'.rows i)) (hw : ∀ l, w'.waiting l = w.waiting l)
  (hk : ∀ l, w'.kids l = w.kids l) (hf : ∀ l, w'.final l = w.final l)
include h hr hw hk hf

theorem Inv.fadeRows : RowInv w' := by
  have hs : ∀ i, w'.self i = w.self i := fun i => by simp [World.self, (hr i).gen]
  have hb : ∀ l, w'.Born l ↔ w.Born l := fun l => by
    simp [World.Born, (hr _).gen, (hr _).bit, (hr _).locked]
  have ha : ∀ l k, w'.Awaits l k ↔ w.Awaits l k := fun l k => by
    simp [World.Awaits, (hr _).gen, hw]
  constructor
  · intro l hl; rw [hw, hk, hf]; exact h.fresh l ((hb l).not.1 hl)
  · grind [h.live, Row.Fades]
  · grind [h.noFinal, Row.Fades]
  · grind [h.noParents, Row.Fades]
  · grind [h.count, Row.Fades]
  · grind [h.waitingNodup]
  · grind [h.waitingKids]
  · intro i; exact (h.rowNodup i).sublist (hr i).parents
  · intro i l hl; rw [hs, ha]; exact h.rowLink i l ((hr i).parents.subset hl)

omit hk in
theorem Inv.fadeSignals (ht : ∀ t, w'.thr t = w.thr t ∨ (w'.thr t).owner = none) :
    SignalInv w' := by
  refine h.toSignalInv.keep ht ?_ ?_ ?_
  · intro l k ha
    simpa [World.Awaits, (hr _).gen, hw] using ha
  · intro k _ hg
    refine ⟨hg.trans (hr _).gen, fun hp => ?_⟩
    have := (hr k.syncId).parents
    rwa [hp, List.sublist_nil] at this
  · exact fun k hn => hf k ▸ hn

/-- The thread takes no new part in a signal or a merge. -/
theorem Inv.fade (ht : ∀ t, w'.thr t = w.thr t ∨ (w'.thr t).owner = none ∧
    (w'.thr t).merger = none ∧ ∀ objs todo, w'.thr t = .mergeCheck objs todo → objs.Nodup) :
    Inv w' where
  toRowInv := h.fadeRows hr hw hk hf
  toSignalInv := h.fadeSignals hr hw hf fun t => (ht t).imp id And.left
  toMergeInv := h.toMergeInv.keep (fun t => (ht t).imp id And.right) (fun i => (hr i).sameHeld)
    fun _ _ => hk _

end

/-! ## New rows -/

/-- A thread that has checked its objects begins its merge in the row. -/
def Task.Merges (i : ℕ) (row : Row) (task task' : Task) : Prop :=
  task' = task ∨ ∃ objs, task = .mergeCheck objs [] ∧ task' = .mergeChildren i objs objs ∧
    row.locked = true ∧ row.type = .group

theorem Inv.newRow (h : Inv w) (hf : w.Free i) (hg : (w'.rows i).gen = (w.rows i).gen)
    (hb : (w'.rows i).bit = true) (hst : (w'.rows i).state = .active)
    (hr : (w'.rows i).remaining = 0) (hp : (w'.rows i).parentsList = [])
    (hj : ∀ j, j ≠ i → w'.rows j = w.rows j)
    (ht : ∀ t, (w.thr t).Merges i (w'.rows i) (w'.thr t))
    (ht' : ∀ t t', (w'.thr t).merger = some i → (w'.thr t').merger = some i → t = t')
    (hw : ∀ l, w'.waiting l = w.waiting l)
    (hk : ∀ l, w'.kids l = w.kids l) (hfin : ∀ l, w'.final l = w.final l) : Inv w' := by
  obtain ⟨⟨-, -, hl⟩, hb'⟩ := hf
  have hs : ∀ j, w'.self j = w.self j := fun j => by grind [World.self]
  have hn : ¬ w.Born (w.self i) := by simp [World.Born, World.self, hl, hb']
  have hbo : ∀ l, w.Born l → w'.Born l := fun l => by grind [World.Born]
  obtain ⟨hw', hk', hfin'⟩ := h.fresh _ hn
  have ha : ∀ l k, w.Awaits l k → w'.Awaits l k := fun l k => by grind [World.Awaits]
  refine { toRowInv := ?_, toSignalInv := ?_, toMergeInv := ?_ }
  · constructor
    · grind [h.fresh]
    · grind [h.live]
    · grind [h.noFinal]
    · grind [h.noParents]
    · grind [h.count]
    · grind [h.waitingNodup]
    · grind [h.waitingKids]
    · grind [h.rowNodup]
    · grind [h.rowLink]
  · refine h.toSignalInv.keep (fun t => ?_) ha (fun k hk' hg' => ?_) (fun k => by simp [hfin])
    · grind [Task.Merges, Task.owner]
    · grind
  · constructor
    · grind [h.checking, Task.Merges]
    · grind [h.merging, h.checking, Task.Merges]
    · grind [h.undoing, Task.Merges]
    · grind [h.mergerInj, Task.Merges, Task.merger]

/-! ## Merges -/

section
variable {objs todo : List ℕ}

/-- A step of a merge in the row `idx` alone. -/
structure MergeStep (w w' : World) (t idx : ℕ) : Prop where
  bit : (w'.rows idx).bit = (w.rows idx).bit ∨ (w'.rows idx).state = .invalid
  type : (w'.rows idx).type = (w.rows idx).type
  gen : (w'.rows idx).gen = (w.rows idx).gen
  parents : (w'.rows idx).parentsList = (w.rows idx).parentsList
  state : (w'.rows idx).state = (w.rows idx).state ∨ (w'.rows idx).state ≠ .active
  remaining : (w'.rows idx).state ≠ .invalid → (w'.rows idx).remaining = (w.rows idx).remaining
  held : (w'.rows idx).state = .invalid → (w'.rows idx).locked = true
  rows : ∀ j, j ≠ idx → w'.rows j = w.rows j
  waiting : ∀ l, w'.waiting l = w.waiting l
  kids : ∀ l, l ≠ w.self idx → w'.kids l = w.kids l
  idxKids : w.kids (w.self idx) ⊆ w'.kids (w.self idx)
  final : ∀ l, l ≠ w.self idx → w'.final l = w.final l
  idxFinal : w.final (w.self idx) ≠ none → w'.final (w.self idx) ≠ none
  noFinal : (w'.rows idx).state = .active → w'.final (w.self idx) = none
  thr : ∀ t', t' ≠ t → w'.thr t' = w.thr t'
  owner : (w'.thr t).owner = none

theorem Inv.mergeStep (h : Inv w) (hs : MergeStep w w' t idx) (hl : (w.rows idx).locked = true)
    (hg : (w.rows idx).state = .invalid ∨ (w.rows idx).type = .group)
    (hlive : (w'.rows idx).state ≠ .invalid →
      (w.rows idx).state ≠ .invalid ∧ (w'.rows idx).bit = true) : RowInv w' ∧ SignalInv w' := by
  obtain ⟨hbit, htype, hgen, hpar, hst, hrem, hheld, hj, hw, hk, hk', hf, hf', hnf, ht, hown⟩ := hs
  have hself : ∀ j, w'.self j = w.self j := fun j => by grind [World.self]
  have hbi : w.Born (w.self idx) := .inr ⟨rfl, .inr hl⟩
  have hb : ∀ l, w.Born l → w'.Born l := fun l => by grind [World.Born]
  have hb' : ∀ l, ¬ w.Born l → l ≠ w.self idx := fun l hn he => hn (he ▸ hbi)
  have ha : ∀ l k, w.Awaits l k → w'.Awaits l k := fun l k => by grind [World.Awaits]
  refine ⟨?_, h.toSignalInv.keep (fun t' => ?_) ha (fun k _ hg' => ?_) fun k hn => ?_⟩
  · constructor
    · grind [h.fresh]
    · grind [h.live]
    · intro i hi
      by_cases hii : i = idx
      · grind
      · rw [hself, hf _ fun he => hii (congrArg Link.syncId he)]
        exact h.noFinal i (hj i hii ▸ hi)
    · grind [h.noParents]
    · intro i hi
      have := h.count i
      by_cases hii : i = idx
      · subst hii
        have hst' : (w'.rows i).state ≠ .invalid := fun he => hi (hheld he) he
        rw [hrem hst', hw, hself]
        exact this fun _ => (hlive hst').1
      · rw [hj i hii] at hi ⊢
        rw [hw, hself]
        exact this hi
    · grind [h.waitingNodup]
    · intro l
      by_cases hl' : l = w.self idx
      · rw [hw, hl']; exact List.Subset.trans (h.waitingKids _) hk'
      · rw [hw, hk l hl']; exact h.waitingKids l
    · grind [h.rowNodup]
    · grind [h.rowLink]
  · by_cases he : t' = t
    · exact .inr (he ▸ hown)
    · exact .inl (ht t' he)
  · grind
  · by_cases he : k = w.self idx
    · exact he ▸ hf' (he ▸ hn)
    · exact hf k he ▸ hn

/-- The child is linked to the group, which waits for it. -/
theorem Inv.link (h : Inv w) (htask : w.thr t = .mergeChildren idx objs (c :: todo))
    (hop : w.Open c)
    (hst : (w.rows c).state = .active) (htype : (w.rows c).type ≠ .group)
    (hidx : (w.rows idx).SameHeld (w'.rows idx))
    (hrem : (w'.rows idx).remaining = (w.rows idx).remaining + 1)
    (hpar : (w'.rows idx).parentsList = (w.rows idx).parentsList)
    (hc : w'.rows c = { w.rows c with parentsList := (w.rows c).parentsList ++ [w.self idx] })
    (hj : ∀ j, j ≠ idx → j ≠ c → w'.rows j = w.rows j)
    (ht : w'.thr t = .mergeChildren idx objs todo) (ht' : ∀ t', t' ≠ t → w'.thr t' = w.thr t')
    (hw : w'.waiting (w.self idx) = w.waiting (w.self idx) ++ [w.self c])
    (hw' : ∀ l, l ≠ w.self idx → w'.waiting l = w.waiting l)
    (hk : w'.kids (w.self idx) = w.kids (w.self idx) ++ [w.self c])
    (hk' : ∀ l, l ≠ w.self idx → w'.kids l = w.kids l)
    (hf : ∀ l, w'.final l = w.final l) : Inv w' := by
  obtain ⟨hlock, hbit, hgroup, hidxst, hnd, hdis⟩ := h.merging t idx objs _ htask
  obtain ⟨hi1, hi2, hi3, hi4, hi5⟩ := hidx
  have hne : c ≠ idx := by grind [World.Open]
  have hnew : w.self c ∉ w.waiting (w.self idx) := fun hm =>
    hdis _ (h.waitingKids _ hm) (by simp)
  have hfin : w.final (w.self c) = none := h.noFinal c hst
  have hbit' : (w.rows c).bit = true ∨ (w.rows c).locked = true := h.live c (by simp [hst])
  have hs : ∀ j, w'.self j = w.self j := fun j => by grind [World.self]
  have hb : ∀ l, w'.Born l ↔ w.Born l := fun l => by grind [World.Born]
  have hbi : w.Born (w.self idx) := by grind [World.Born]
  have ha : ∀ l k, w.Awaits l k → w'.Awaits l k := fun l k => by
    by_cases hl : l = w.self idx <;> grind [World.Awaits]
  have hac : w'.Awaits (w.self idx) (w.self c) := by grind [World.Awaits]
  have hrow := h.rowLink c
  refine { toRowInv := ?_, toSignalInv := ?_, toMergeInv := ?_ }
  · constructor
    · grind [h.fresh]
    · grind [h.live]
    · grind [h.noFinal]
    · grind [h.noParents]
    · grind [h.count]
    · intro l
      by_cases hl : l = w.self idx
      · rw [hl, hw]
        exact (h.waitingNodup _).append (List.nodup_singleton _) (by simpa using hnew)
      · rw [hw' l hl]; exact h.waitingNodup l
    · intro l
      by_cases hl : l = w.self idx
      · rw [hl, hw, hk]
        exact List.append_subset.2 ⟨List.subset_append_of_subset_left _ (h.waitingKids _),
          List.subset_append_right _ _⟩
      · rw [hw' l hl, hk' l hl]; exact h.waitingKids l
    · grind [h.rowNodup, World.Awaits]
    · grind [h.rowLink]
  · refine h.toSignalInv.keep (fun t' => ?_) ha (fun k hn hg => ?_) fun k => by simp [hf]
    · grind [Task.owner]
    · -- the child is active, so no thread signals it
      have hkc : k ≠ w.self c := fun he => hn (he ▸ hfin)
      have hkc' : k.syncId ≠ c := fun he => hkc (by
        rw [← w.self_eq (l := k) (by grind), he])
      grind
  · refine h.toMergeInv.advance (show _ = some idx by rw [htask]; rfl) ht' (fun i hi hl => ?_)
      (fun i hi hl => ?_) (fun _ _ => by simp [ht]) (fun objs' todo' he => ?_)
      (fun _ => by simp [ht])
      (fun i hi => by rw [ht] at hi; exact (Option.some.inj hi).symm)
    · have : i ≠ c := fun he => by grind [World.Open]
      rw [hj i hi this]
      exact ⟨hl, rfl, rfl, rfl, rfl⟩
    · exact hk' _ fun he => hi (congrArg Link.syncId he)
    · obtain ⟨rfl, rfl⟩ : objs = objs' ∧ todo = todo' := by simpa [ht] using he
      grind

end

/-! ## Signals -/

/-- The child is marked with the status; its parents are still to come. -/
theorem Inv.mark (h : Inv w) (hop : w.Open i) (hst : (w.rows i).state = .active)
    (hsig : status.signaled = true) (htype : (w.rows i).type ≠ .group) (htask : w.thr t = .idle)
    (hi : w'.rows i = { w.rows i with state := status, refCnt := (w'.rows i).refCnt })
    (hj : ∀ j, j ≠ i → w'.rows j = w.rows j)
    (ht : w'.thr t = .signalSynx (w.self i) status) (ht' : ∀ t', t' ≠ t → w'.thr t' = w.thr t')
    (hw : ∀ l, w'.waiting l = w.waiting l) (hk : ∀ l, w'.kids l = w.kids l)
    (hf : w'.final (w.self i) = some status) (hf' : ∀ l, l ≠ w.self i → w'.final l = w.final l) :
    Inv w' := by
  have hs : ∀ j, w'.self j = w.self j := fun j => by grind [World.self]
  have hb : ∀ l, w'.Born l ↔ w.Born l := fun l => by grind [World.Born]
  have hbi : w.Born (w.self i) := .inr ⟨rfl, h.live i (by simp [hst])⟩
  have ha : ∀ l k, w.Awaits l k → w'.Awaits l k := fun l k => by grind [World.Awaits]
  have hfin : w.final (w.self i) = none := h.noFinal i hst
  have hst' : status ≠ .active ∧ status ≠ .invalid := by
    cases status <;> simp_all [FenceState.signaled]
  -- the fence was active, so no other thread signals it
  have hno : ∀ t' f, (w.thr t').owner = some f → f ≠ w.self i := fun t' f ho he =>
    h.owner t' f ho (he ▸ hfin)
  have hfn : ∀ l, w.final l ≠ none → w'.final l ≠ none := fun l hn => by
    by_cases hl : l = w.self i <;> grind
  refine { toRowInv := ?_, toSignalInv := ?_, toMergeInv := ?_ }
  · constructor
    · intro l hl
      have hl' : l ≠ w.self i := fun he => hl ((hb l).2 (he ▸ hbi))
      rw [hw, hk, hf' l hl']
      exact h.fresh l fun hbl => hl ((hb l).2 hbl)
    · grind [h.live]
    · intro j hj'
      by_cases hji : j = i
      · subst hji; grind
      · rw [hs, hf' _ (by simpa using hji)]
        exact h.noFinal j (hj j hji ▸ hj')
    · grind [h.noParents]
    · intro j hlj
      have := h.count j
      by_cases hji : j = i
      · subst hji; grind [World.Open]
      · grind
    · grind [h.waitingNodup]
    · grind [h.waitingKids]
    · grind [h.rowNodup]
    · grind [h.rowLink]
  · constructor
    · grind [h.thrNodup]
    · grind [h.thrLink]
    · grind [h.taken]
    · intro t' s he
      by_cases hte : t' = t
      · rw [hte, ht] at he
        exact Option.some.inj he ▸ hsig
      · exact h.carries t' s (ht' t' hte ▸ he)
    · intro t' f ho
      by_cases hte : t' = t
      · subst hte
        obtain rfl : w.self i = f := by simpa [ht, Task.owner] using ho
        simp [hf]
      · exact hfn f (h.owner t' f (ht' t' hte ▸ ho))
    · intro t' t'' f ho ho'
      by_cases hte : t' = t <;> by_cases hte' : t'' = t
      · rw [hte, hte']
      · rw [hte, ht] at ho
        exact absurd (Option.some.inj ho).symm (hno t'' f (ht' t'' hte' ▸ ho'))
      · rw [hte', ht] at ho'
        exact absurd (Option.some.inj ho').symm (hno t' f (ht' t' hte ▸ ho))
      · exact h.ownerInj t' t'' f (ht' t' hte ▸ ho) (ht' t'' hte' ▸ ho')
  · refine h.toMergeInv.keep (fun t' => ?_) (fun j hl => ?_) fun _ _ => hk _
    · by_cases hte : t' = t
      · exact .inr ⟨by rw [hte, ht]; rfl, fun _ _ => by simp [hte, ht]⟩
      · exact .inl (ht' t' hte)
    · rw [hj j (by grind [World.Open])]
      exact ⟨hl, rfl, rfl, rfl, rfl⟩

/-- The parents of the child go over to the thread. -/
theorem Inv.splice {fence : Link} (h : Inv w) (htask : w.thr t = .signalSynx fence status)
    (hop : w.Open fence.syncId) (hg : (w.rows fence.syncId).gen = fence.gen)
    (hi : (w.rows fence.syncId).Fades (w'.rows fence.syncId))
    (hp : (w'.rows fence.syncId).parentsList = [])
    (hj : ∀ j, j ≠ fence.syncId → w'.rows j = w.rows j)
    (ht : w'.thr t = nextParents fence status (w.rows fence.syncId).parentsList)
    (ht' : ∀ t', t' ≠ t → w'.thr t' = w.thr t') (hw : ∀ l, w'.waiting l = w.waiting l)
    (hk : ∀ l, w'.kids l = w.kids l) (hf : ∀ l, w'.final l = w.final l) : Inv w' := by
  have hr : ∀ j, (w.rows j).Fades (w'.rows j) := fun j => by
    by_cases hji : j = fence.syncId
    · exact hji ▸ hi
    · rw [hj j hji]
      exact ⟨rfl, rfl, rfl, rfl, rfl, List.Sublist.refl _, .inl rfl⟩
  have ha : ∀ l k, w.Awaits l k → w'.Awaits l k := fun l k ha => by
    simpa [World.Awaits, (hr _).gen, hw] using ha
  have hself : w.self fence.syncId = fence := w.self_eq hg.symm
  have hown : (w.thr t).owner = some fence := by rw [htask]; rfl
  have hnp : ∀ f s p, w'.thr t = .signalParents f s p →
      f = fence ∧ p = (w.rows fence.syncId).parentsList := fun f s p he => by
    rw [ht, nextParents] at he
    split_ifs at he
    · cases he; exact ⟨rfl, rfl⟩
  have hown' : ∀ t' f, (w'.thr t').owner = some f → (w.thr t').owner = some f := fun t' f ho => by
    by_cases hte : t' = t
    · subst hte
      rw [ht, nextParents] at ho
      split_ifs at ho
      · cases ho
      · exact hown.trans ho
    · exact ht' t' hte ▸ ho
  refine { toRowInv := h.fadeRows hr hw hk hf, toSignalInv := ?_, toMergeInv := ?_ }
  · constructor
    · intro t' f s p he
      by_cases hte : t' = t
      · obtain ⟨-, rfl⟩ := hnp f s p (hte ▸ he)
        exact h.rowNodup _
      · exact h.thrNodup t' f s p (ht' t' hte ▸ he)
    · intro t' f s p he l hl
      by_cases hte : t' = t
      · obtain ⟨rfl, rfl⟩ := hnp f s p (hte ▸ he)
        exact ha _ _ (hself ▸ h.rowLink _ l hl)
      · exact ha _ _ (h.thrLink t' f s p (ht' t' hte ▸ he) l hl)
    · intro t' f s p he hg'
      by_cases hte : t' = t
      · obtain ⟨rfl, -⟩ := hnp f s p (hte ▸ he)
        exact hp
      · have := h.taken t' f s p (ht' t' hte ▸ he) (hg'.trans (hr _).gen)
        have hsub := (hr f.syncId).parents
        rwa [this, List.sublist_nil] at hsub
    · intro t' s he
      by_cases hte : t' = t
      · rw [hte] at he
        refine h.carries t s ?_
        rw [ht, nextParents] at he
        split_ifs at he
        · cases he
        · rw [htask]; exact he
      · exact h.carries t' s (ht' t' hte ▸ he)
    · exact fun t' f ho => hf f ▸ h.owner t' f (hown' t' f ho)
    · exact fun t' t'' f ho ho' => h.ownerInj t' t'' f (hown' t' f ho) (hown' t'' f ho')
  · refine h.toMergeInv.keep (fun t' => ?_) (fun j => (hr j).sameHeld) fun _ _ => hk _
    by_cases hte : t' = t
    · refine .inr ⟨?_, fun _ _ => ?_⟩ <;> rw [hte, ht, nextParents] <;>
        split_ifs <;> simp [Task.merger]
    · exact .inl (ht' t' hte)

/-- A parent is visited: it no longer waits for the child. -/
theorem Inv.visit {fence : Link} {parents : List Link} (h : Inv w)
    (htask : w.thr t = .signalParents fence status (l :: parents)) (hop : w.Open l.syncId)
    (hg : (w.rows l.syncId).gen = l.gen) (hi : (w'.rows l.syncId).bit = (w.rows l.syncId).bit)
    (hi' : (w'.rows l.syncId).locked = false) (hig : (w'.rows l.syncId).gen = l.gen)
    (hip : (w'.rows l.syncId).parentsList = (w.rows l.syncId).parentsList)
    (hit : (w'.rows l.syncId).type = (w.rows l.syncId).type)
    (hr : (w'.rows l.syncId).remaining + 1 = (w.rows l.syncId).remaining)
    (hst : (w'.rows l.syncId).state ≠ .active)
    (hst' : (w'.rows l.syncId).state = .invalid ↔ (w.rows l.syncId).state = .invalid)
    (hj : ∀ j, j ≠ l.syncId → w'.rows j = w.rows j)
    (ht : w'.thr t = nextParents fence status parents) (ht' : ∀ t', t' ≠ t → w'.thr t' = w.thr t')
    (hw : w'.waiting l = (w.waiting l).erase fence) (hw' : ∀ m, m ≠ l → w'.waiting m = w.waiting m)
    (hk : ∀ m, w'.kids m = w.kids m) (hf : ∀ m, m ≠ l → w'.final m = w.final m)
    (hf' : w.final l ≠ none → w'.final l ≠ none) : Inv w' := by
  have hself : w.self l.syncId = l := w.self_eq hg.symm
  have hwait : fence ∈ w.waiting l :=
    (h.thrLink t _ _ _ htask l (List.mem_cons_self ..)).2 hg.symm
  have hnd := h.thrNodup t _ _ _ htask
  have hborn : w.Born l := by_contra fun hn => by simp [(h.fresh l hn).1] at hwait
  have hs : ∀ j, w'.self j = w.self j := fun j => by grind [World.self]
  have hb : ∀ m, w'.Born m ↔ w.Born m := fun m => by grind [World.Born, World.Open]
  have hown : (w.thr t).owner = some fence := by rw [htask]; rfl
  have hne : ∀ j, (w.rows j).parentsList ≠ [] → w.self j ≠ fence := fun j hp he =>
    hp (by have := h.taken t _ _ _ htask; grind)
  -- links on behalf of other fences, and links to other groups, are not affected
  have ha : ∀ m k, m ≠ l ∨ k ≠ fence → w.Awaits m k → w'.Awaits m k := by
    intro m k hmk hm
    refine ⟨by grind [World.Awaits], fun he => ?_⟩
    have hkm := hm.2 (by grind)
    by_cases hml : m = l
    · subst hml
      rw [hw]
      exact (List.mem_erase_of_ne (hmk.resolve_left (· rfl))).2 hkm
    · exact hw' m hml ▸ hkm
  have hnp : ∀ f s p, w'.thr t = .signalParents f s p → f = fence ∧ p = parents :=
      fun f s p he => by
    rw [ht, nextParents] at he
    split_ifs at he
    · cases he; exact ⟨rfl, rfl⟩
  have hown' : ∀ t' f, (w'.thr t').owner = some f → (w.thr t').owner = some f := fun t' f ho => by
    by_cases hte : t' = t
    · subst hte
      rw [ht, nextParents] at ho
      split_ifs at ho
      · cases ho
      · exact hown.trans ho
    · exact ht' t' hte ▸ ho
  have hpar : ∀ j, (w'.rows j).parentsList = (w.rows j).parentsList := fun j => by grind
  have hgen : ∀ j, (w'.rows j).gen = (w.rows j).gen := fun j => by grind
  refine { toRowInv := ?_, toSignalInv := ?_, toMergeInv := ?_ }
  · constructor
    · intro m hm
      have hm' : ¬ w.Born m := fun hbm => hm ((hb m).2 hbm)
      have hml : m ≠ l := fun he => hm' (he ▸ hborn)
      rw [hw' m hml, hk, hf m hml]
      exact h.fresh m hm'
    · grind [h.live, World.Open]
    · intro j hst''
      have hjl : j ≠ l.syncId := fun he => hst (he ▸ hst'')
      rw [hs, hf _ fun he => hjl (congrArg Link.syncId he)]
      exact h.noFinal j (hj j hjl ▸ hst'')
    · intro j hdead
      rw [hpar]
      refine h.noParents j ?_
      by_cases hjl : j = l.syncId
      · subst hjl; exact hdead.imp hst'.1 (hit ▸ ·)
      · exact hj j hjl ▸ hdead
    · intro j hlj
      by_cases hjl : j = l.syncId
      · subst hjl
        have := h.count l.syncId fun hl => by simp [hop.2.2] at hl
        rw [hs, hself, hw, List.length_erase_of_mem hwait]
        rw [hself] at this
        omega
      · rw [hs, hw' _ fun he => hjl (congrArg Link.syncId he), hj j hjl]
        exact h.count j (hj j hjl ▸ hlj)
    · intro m
      by_cases hml : m = l
      · rw [hml, hw]; exact (h.waitingNodup l).erase _
      · rw [hw' m hml]; exact h.waitingNodup m
    · intro m
      rw [hk]
      by_cases hml : m = l
      · rw [hml, hw]; exact List.Subset.trans (List.erase_subset ..) (h.waitingKids l)
      · rw [hw' m hml]; exact h.waitingKids m
    · exact fun j => hpar j ▸ h.rowNodup j
    · intro j m hm
      rw [hpar] at hm
      rw [hs]
      exact ha _ _ (.inr (hne j (List.ne_nil_of_mem hm))) (h.rowLink j m hm)
  · constructor
    · intro t' f s p he
      by_cases hte : t' = t
      · obtain ⟨-, rfl⟩ := hnp f s p (hte ▸ he)
        exact hnd.of_cons
      · exact h.thrNodup t' f s p (ht' t' hte ▸ he)
    · intro t' f s p he m hm
      by_cases hte : t' = t
      · obtain ⟨rfl, rfl⟩ := hnp f s p (hte ▸ he)
        have hml : m ≠ l := fun hml => (List.nodup_cons.1 hnd).1 (hml ▸ hm)
        exact ha _ _ (.inl hml) (h.thrLink t _ _ _ htask m (List.mem_cons_of_mem _ hm))
      · have he := ht' t' hte ▸ he
        have hff : f ≠ fence := fun hff =>
          hte (h.ownerInj t' t fence (by rw [he, ← hff]; rfl) hown)
        exact ha _ _ (.inr hff) (h.thrLink t' f s p he m hm)
    · intro t' f s p he hgf
      rw [hpar]
      rw [hgen] at hgf
      by_cases hte : t' = t
      · obtain ⟨rfl, -⟩ := hnp f s p (hte ▸ he)
        exact h.taken t _ _ _ htask hgf
      · exact h.taken t' f s p (ht' t' hte ▸ he) hgf
    · intro t' s he
      by_cases hte : t' = t
      · rw [hte] at he
        refine h.carries t s ?_
        rw [ht, nextParents] at he
        split_ifs at he
        · cases he
        · rw [htask]; exact he
      · exact h.carries t' s (ht' t' hte ▸ he)
    · intro t' f ho
      have hn := h.owner t' f (hown' t' f ho)
      by_cases hfl : f = l
      · exact hfl ▸ hf' (hfl ▸ hn)
      · exact hf f hfl ▸ hn
    · exact fun t' t'' f ho ho' => h.ownerInj t' t'' f (hown' t' f ho) (hown' t'' f ho')
  · refine h.toMergeInv.keep (fun t' => ?_) (fun j hl => ?_) fun _ _ => hk _
    · by_cases hte : t' = t
      · refine .inr ⟨?_, fun _ _ => ?_⟩ <;> rw [hte, ht, nextParents] <;> split_ifs <;>
          simp [Task.merger]
      · exact .inl (ht' t' hte)
    · rw [hj j fun he => by simp [he, hop.2.2] at hl]
      exact ⟨hl, rfl, rfl, rfl, rfl⟩

/-- A parent that a signal visits waits for somebody. -/
theorem Inv.remaining_pos {fence : Link} {parents : List Link} (h : Inv w)
    (htask : w.thr t = .signalParents fence status (l :: parents)) (hop : w.Open l.syncId)
    (hg : (w.rows l.syncId).gen = l.gen) : 0 < (w.rows l.syncId).remaining := by
  rw [h.count l.syncId fun hl => by simp [hop.2.2] at hl, w.self_eq hg.symm]
  exact List.length_pos_of_mem ((h.thrLink t _ _ _ htask l (List.mem_cons_self ..)).2 hg.symm)

/-! ## The end of a destroy -/

/-- A row is given back. -/
theorem Inv.giveBack (h : Inv w) (hop : w.Open i) (hi : w'.rows i = camSyncDeinitRow (w.rows i))
    (hj : ∀ j, j ≠ i → w'.rows j = w.rows j)
    (ht : ∀ t, w'.thr t = w.thr t ∨ w'.thr t = .idle) (hw : ∀ l, w'.waiting l = w.waiting l)
    (hk : ∀ l, w'.kids l = w.kids l) (hf : ∀ l, w'.final l = w.final l) : Inv w' := by
  have hs : ∀ j, j ≠ i → w'.self j = w.self j := fun j hji => by grind [World.self]
  have hb : ∀ l, w.Born l → w'.Born l := fun l hl => by grind [World.Born, camSyncDeinitRow]
  have ha : ∀ l k, w.Awaits l k → w'.Awaits l k := fun l k hl => by
    grind [World.Awaits, camSyncDeinitRow]
  have hnew : w.waiting (w'.self i) = [] := (h.fresh _ (by
    simp [World.Born, hi, camSyncDeinitRow])).1
  have hfresh := h.fresh
  refine { toRowInv := ?_, toSignalInv := ?_, toMergeInv := ?_ }
  · constructor
    · grind
    · grind [h.live, camSyncDeinitRow]
    · grind [h.noFinal, camSyncDeinitRow]
    · grind [h.noParents, camSyncDeinitRow]
    · intro j hlj
      by_cases hji : j = i
      · subst hji; simp [hw, hnew, hi, camSyncDeinitRow]
      · rw [hs j hji, hw, hj j hji]
        exact h.count j (hj j hji ▸ hlj)
    · grind [h.waitingNodup]
    · grind [h.waitingKids]
    · grind [h.rowNodup, camSyncDeinitRow]
    · grind [h.rowLink, camSyncDeinitRow]
  · refine h.toSignalInv.keep (fun t => ?_) ha (fun k hn hg => ?_) fun k => by simp [hf]
    · exact (ht t).imp id fun he => by rw [he]; rfl
    · have hk : w.Born k := by_contra fun hb => hn (h.fresh k hb).2.2
      grind [World.Born, camSyncDeinitRow]
  · refine h.toMergeInv.keep (fun t => ?_) (fun j hl => ?_) fun _ _ => hk _
    · exact (ht t).imp id fun he => ⟨by rw [he]; rfl, fun _ _ => by simp [he]⟩
    · rw [hj j fun he => by simp [he, hop.2.2] at hl]
      exact ⟨hl, rfl, rfl, rfl, rfl⟩

/-- The end of the child's section. -/
theorem Inv.finish {fence : Link} (h : Inv w) (htask : w.thr t = .signalSynx fence status)
    (hop : w.Open fence.syncId) (hc : (w.rows fence.syncId).gen = fence.gen ∨
      (w.rows fence.syncId).state = .invalid) : Inv (signalFinish w t fence status) := by
  have hj : ∀ j, j ≠ fence.syncId → (signalFinish w t fence status).rows j = w.rows j :=
    fun j hji => signalFinish_row_ne w t fence status hji
  have ht' : ∀ t', t' ≠ t → (signalFinish w t fence status).thr t' = w.thr t' :=
    fun t' hte => by simp [signalFinish_thr, hte]
  have ht : (signalFinish w t fence status).thr t =
      nextParents fence status (w.rows fence.syncId).parentsList := by
    simp [signalFinish_thr]
  have hfade : (w.rows fence.syncId).Fades ((signalFinish w t fence status).rows fence.syncId) := by
    rw [signalFinish_row]
    exact ⟨by simp, by simp, by simp, by simp, by simp, by simp, .inl (by simp)⟩
  by_cases hg : (w.rows fence.syncId).gen = fence.gen
  · exact h.splice htask hop hg hfade (by rw [signalFinish_row]) hj ht ht' (by simp) (by simp)
      (by simp)
  · -- the fence has been destroyed and its row is free: there is nothing to take
    have hp := h.noParents fence.syncId (.inl (hc.resolve_left hg))
    refine h.fade (fun j => ?_) (by simp) (by simp) (by simp) (fun t' => ?_)
    · by_cases hji : j = fence.syncId
      · exact hji ▸ hfade
      · rw [hj j hji]
        exact ⟨rfl, rfl, rfl, rfl, rfl, List.Sublist.refl _, .inl rfl⟩
    · by_cases hte : t' = t
      · refine .inr ?_
        rw [hte, ht, hp, nextParents, if_pos rfl]
        exact ⟨rfl, rfl, fun _ _ => by simp⟩
      · exact .inl (ht' t' hte)

theorem Inv.parent {fence : Link} {parents : List Link} (h : Inv w)
    (htask : w.thr t = .signalParents fence status (l :: parents)) (hop : w.Open l.syncId)
    (hg : (w.rows l.syncId).gen = l.gen) :
    Inv ((signalParent w fence status l).setTask t (nextParents fence status parents)) := by
  have hr := signalParent_row w fence status l
  have hself : w.self l.syncId = l := w.self_eq hg.symm
  have hsig := h.carries t status (by rw [htask]; rfl)
  have hpos := h.remaining_pos htask hop hg
  have hst : parentState (w.rows l.syncId).state status ≠ .active := by
    intro ha
    rw [parentState] at ha
    split_ifs at ha with hs
    · simp [ha, FenceState.failed] at hs
    · simp [ha, FenceState.signaled] at hsig
  have hst' : parentState (w.rows l.syncId).state status = .invalid ↔
      (w.rows l.syncId).state = .invalid := by
    rw [parentState]
    split_ifs with hs
    · rfl
    · refine ⟨fun ha => ?_, fun ha => absurd (.inl ha) hs⟩
      simp [ha, FenceState.signaled] at hsig
  refine h.visit htask hop hg ?_ ?_ ?_ ?_ ?_ ?_ ?_ ?_ ?_ ?_ ?_ ?_ ?_ ?_ ?_ ?_
  · simp [hr]
  · simp [hr, hop.2.2]
  · simp [hr, hg]
  · simp [hr]
  · simp [hr]
  · simpa [hr] using dec32_add_one hpos
  · simpa [hr] using hst
  · simpa [hr] using hst'
  · exact fun j hj => signalParent_row_ne w fence status l hj
  · simp
  · exact fun t' hte => by simp [hte]
  · simp [hself]
  · exact fun m hm => by simp [hself, hm]
  · simp
  · intro m hm
    simp only [World.setTask_frame, signalParent_final, hself]
    split_ifs
    · exact Function.update_of_ne hm ..
    · rfl
  · intro hn
    simp only [World.setTask_frame, signalParent_final, hself]
    split_ifs
    · simp
    · exact hn

/-! ## Every section -/

theorem Row.Fades.refl (r : Row) : r.Fades r :=
  ⟨rfl, rfl, rfl, rfl, rfl, List.Sublist.refl _, .inl rfl⟩

/-- A section that changes one row, which fades, and lets its thread go on
    outside signals and merges. -/
theorem Inv.fadeRow (h : Inv w) (hr : (w.rows i).Fades row) (task : Task) (ho : task.owner = none)
    (hm : task.merger = none) (hc : ∀ objs todo, task ≠ .mergeCheck objs todo) :
    Inv ((w.setRow i row).setTask t task) := by
  refine h.fade (fun j => ?_) (fun _ => rfl) (fun _ => rfl) (fun _ => rfl) fun t' => ?_
  · by_cases hji : j = i
    · subst hji; simpa using hr
    · simpa [hji] using Row.Fades.refl _
  · by_cases hte : t' = t
    · subst hte
      exact .inr ⟨by simpa using ho, by simpa using hm, fun objs todo he => by simp [hc] at he⟩
    · exact .inl (by simp [hte])

/-- A section that changes one row, which fades. -/
theorem Inv.touch (h : Inv w) (hr : (w.rows i).Fades row) : Inv (w.setRow i row) := by
  refine h.fade (fun j => ?_) (fun _ => rfl) (fun _ => rfl) (fun _ => rfl) fun _ => .inl rfl
  by_cases hji : j = i
  · subst hji; simpa using hr
  · simpa [hji] using Row.Fades.refl _

/-- A section that changes nothing and lets its thread go on outside signals and
    merges. -/
theorem Inv.goOn (h : Inv w) (task : Task) (ho : task.owner = none) (hm : task.merger = none)
    (hc : ∀ objs todo, task ≠ .mergeCheck objs todo) : Inv (w.setTask t task) := by
  refine h.fade (fun _ => Row.Fades.refl _) (fun _ => rfl) (fun _ => rfl) (fun _ => rfl)
    fun t' => ?_
  by_cases hte : t' = t
  · subst hte
    exact .inr ⟨by simpa using ho, by simpa using hm, fun objs todo he => by simp [hc] at he⟩
  · exact .inl (by simp [hte])

/-- A section that only writes the registrations and the log. -/
theorem Inv.books (h : Inv w) (hr : w'.rows = w.rows) (ht : w'.thr = w.thr)
    (hw : w'.waiting = w.waiting) (hk : w'.kids = w.kids) (hf : w'.final = w.final) : Inv w' :=
  h.fade (fun _ => hr ▸ Row.Fades.refl _) (fun _ => by rw [hw]) (fun _ => by rw [hk])
    (fun _ => by rw [hf]) fun _ => .inl (by rw [ht])

theorem Inv.exec_create (h : Inv w) (ha : w.Free i) (synx : Bool) :
    Inv ((Op.create i synx).exec w) := by
  have hi : ((Op.create i synx).exec w).rows i =
      { camSyncInitRow { w.rows i with bit := true } .indv with synx := synx } :=
    Function.update_self ..
  exact h.newRow ha (by rw [hi]; rfl) (by rw [hi]; rfl) (by rw [hi]; rfl) (by rw [hi]; rfl)
    (by rw [hi]; rfl) (fun j hj => Function.update_of_ne hj ..) (fun _ => .inl rfl)
    (fun t t' => h.mergerInj t t' i) (fun _ => rfl) (fun _ => rfl) (fun _ => rfl)

/-- The row of a merge is locked. -/
theorem Inv.merger_locked (h : Inv w) (hm : (w.thr t).merger = some i) :
    (w.rows i).locked = true := by
  cases he : w.thr t with
  | mergeChildren idx objs todo =>
    obtain rfl : idx = i := by simpa [he, Task.merger] using hm
    exact (h.merging t _ _ _ he).1
  | mergeUndo idx todo =>
    obtain rfl : idx = i := by simpa [he, Task.merger] using hm
    exact (h.undoing t _ _ he).1
  | _ => simp [he, Task.merger] at hm

theorem Inv.exec_mergeInit (h : Inv w) {objs : List ℕ} (ht : w.thr t = .mergeCheck objs [])
    (ha : w.Free i) : Inv ((Op.mergeInit t i).exec w) := by
  have he : (Op.mergeInit t i).exec w =
      (w.setRow i (camSyncInitRow { w.rows i with bit := true, locked := true } .group)).setTask t
        (.mergeChildren i objs objs) := by simp [Op.exec, ht]
  have hi : ((Op.mergeInit t i).exec w).rows i =
      camSyncInitRow { w.rows i with bit := true, locked := true } .group := by simp [he]
  have hother : ∀ t', (((Op.mergeInit t i).exec w).thr t').merger = some i → t' = t := by
    intro t' hm
    by_contra hte
    have := h.merger_locked (t := t') (i := i) (by simpa [he, hte] using hm)
    simp [ha.1.2.2] at this
  refine h.newRow ha (by rw [hi]; rfl) (by rw [hi]; rfl) (by rw [hi]; rfl) (by rw [hi]; rfl)
    (by rw [hi]; rfl) (fun j hj => by simp [he, hj]) (fun t' => ?_)
    (fun t' t'' hm hm' => (hother t' hm).trans (hother t'' hm').symm) (fun l => by simp [he])
    (fun l => by simp [he]) (fun l => by simp [he])
  by_cases hte : t' = t
  · subst hte
    exact .inr ⟨objs, ht, by simp [he], by rw [hi]; rfl, by rw [hi]; rfl⟩
  · exact .inl (by simp [he, hte])

/-- The merge goes on in its row. -/
theorem Inv.mergeRow (h : Inv w) (hm : (w.thr t).merger = some idx) (hs : MergeStep w w' t idx)
    (hg : (w.rows idx).state = .invalid ∨ (w.rows idx).type = .group)
    (hlive : (w'.rows idx).state ≠ .invalid →
      (w.rows idx).state ≠ .invalid ∧ (w'.rows idx).bit = true)
    (hc : ∀ objs todo, w'.thr t ≠ .mergeCheck objs todo)
    (hn : ∀ objs todo, w'.thr t = .mergeChildren idx objs todo →
      (w'.rows idx).locked = true ∧ (w'.rows idx).bit = true ∧ (w'.rows idx).type = .group ∧
        (w'.rows idx).state ≠ .invalid ∧ todo.Nodup ∧ ∀ k ∈ w'.kids (w'.self idx), k.syncId ∉ todo)
    (hu : ∀ todo, w'.thr t = .mergeUndo idx todo →
      (w'.rows idx).locked = true ∧ (w'.rows idx).state = .invalid)
    (hm' : ∀ i, (w'.thr t).merger = some i → i = idx) : Inv w' := by
  obtain ⟨hrows, hsignals⟩ := h.mergeStep hs (h.merger_locked hm) hg hlive
  refine { toRowInv := hrows, toSignalInv := hsignals, toMergeInv := ?_ }
  refine h.toMergeInv.advance hm hs.thr (fun i hi hl => ?_) (fun i hi _ => ?_) hc hn hu hm'
  · rw [hs.rows i hi]; exact ⟨hl, rfl, rfl, rfl, rfl⟩
  · exact hs.kids _ (by simpa using hi)

section
variable {objs todo : List ℕ} (h : Inv w) (ht : w.thr t = .mergeChildren idx objs (c :: todo))
include h ht

theorem Inv.mergeFails (hf : MergeFails w w' t idx) : Inv w' := by
  obtain ⟨hlock, hbit, hgroup, hidxst, hnd, hdis⟩ := h.merging t idx objs _ ht
  obtain ⟨rem, ch, hr⟩ := hf.row
  obtain ⟨done, hd⟩ := hf.thr
  refine h.mergeRow (by rw [ht]; rfl) ⟨?_, ?_, ?_, ?_, ?_, ?_, ?_, hf.rows, hf.waiting,
    fun l _ => hf.kids l, ?_, fun l _ => hf.final l, ?_, ?_, hf.thr_ne, ?_⟩
    (.inr hgroup) ?_ ?_ ?_ ?_ ?_ <;>
    simp +contextual [hr, hd, hlock, hf.kids, hf.final, Task.owner, Task.merger]

theorem Inv.mergeSees (hs : MergeSees w w' t idx objs todo c) : Inv w' := by
  obtain ⟨hlock, hbit, hgroup, hidxst, hnd, hdis⟩ := h.merging t idx objs _ ht
  have hst : (w'.rows idx).state = (w.rows idx).state ∨
      (w'.rows idx).state ≠ .active ∧ (w'.rows idx).state ≠ .invalid := by
    rw [hs.row]
    cases hc : (w.rows c).state <;> simp [FenceState.failed]
  have hself : w'.self idx = w.self idx := by simp [World.self, hs.row]
  have hnf : (w'.rows idx).state = .active → w.final (w.self idx) = none := fun he =>
    h.noFinal idx (by rcases hst with hst | hst; exacts [hst ▸ he, absurd he hst.1])
  have hi : (w'.rows idx).state ≠ .invalid := by
    rcases hst with hst | hst; exacts [hst ▸ hidxst, hst.2]
  refine h.mergeRow (by rw [ht]; rfl) ⟨?_, ?_, ?_, ?_, hst.imp id And.left, ?_,
    fun he => absurd he hi,
    hs.rows, hs.waiting, hs.kids, ?_, fun l _ => hs.final l, ?_, ?_, hs.thr_ne, ?_⟩ (.inr hgroup)
    (fun _ => ⟨hidxst, ?_⟩) ?_ ?_ ?_ ?_
  · simp [hs.row]
  · simp [hs.row]
  · simp [hs.row]
  · simp [hs.row]
  · simp [hs.row]
  · simp [hs.idxKids]
  · simp [hs.final]
  · exact fun he => hs.final _ ▸ hnf he
  · simp [hs.thr, Task.owner]
  · simp [hs.row, hbit]
  · simp [hs.thr]
  · intro objs' todo' he
    obtain ⟨rfl, rfl⟩ : objs = objs' ∧ todo = todo' := by simpa [hs.thr] using he
    refine ⟨by simp [hs.row, hlock], by simp [hs.row, hbit], by simp [hs.row, hgroup],
      hi, hnd.of_cons,
      fun k hk => ?_⟩
    rw [hself, hs.idxKids, List.mem_append, List.mem_singleton] at hk
    rcases hk with hk | rfl
    · exact fun hm => hdis k hk (List.mem_cons_of_mem _ hm)
    · exact (List.nodup_cons.1 hnd).1
  · simp [hs.thr]
  · simp [hs.thr, Task.merger]

theorem Inv.mergeLinks (hop : w.Open c) (hs : MergeLinks w w' t idx objs todo c) : Inv w' := by
  obtain ⟨hlock, -⟩ := h.merging t idx objs _ ht
  obtain ⟨ch, hr⟩ := hs.row
  exact h.link ht hop hs.child hs.type (by rw [hr]; exact ⟨hlock, rfl, rfl, rfl, rfl⟩)
    (by rw [hr]) (by rw [hr]) hs.childRow hs.rows hs.thr hs.thr_ne hs.idxWaiting hs.waiting
    hs.idxKids hs.kids hs.final

theorem Inv.exec_mergeChild (alloc : Bool × Bool) (ha : w.Open c) :
    Inv (mergeChild w t idx objs todo c alloc) := by
  have hne : c ≠ idx := fun he => by
    have := (h.merging t idx objs _ ht).1
    simp [← he, ha.2.2] at this
  rcases mergeChild_cases w t hne objs todo alloc with hm | hm | hm
  · exact h.mergeFails ht hm
  · exact h.mergeSees ht hm
  · exact h.mergeLinks ht ha hm

end

theorem Inv.exec_mergeEnd {objs : List ℕ} (h : Inv w) (ht : w.thr t = .mergeChildren idx objs []) :
    Inv (mergeEnd w t idx) := by
  obtain ⟨hlock, hbit, hgroup, hidxst, hnd, hdis⟩ := h.merging t idx objs _ ht
  have hs := mergeEnds w t idx
  generalize mergeEnd w t idx = w' at hs
  have hst : (w'.rows idx).state = (w.rows idx).state ∨ (w'.rows idx).state ≠ .active := by
    rw [hs.row]
    exact (endState_cases _).imp id fun he => by simp [he]
  have hi : (w'.rows idx).state ≠ .invalid := by
    rw [hs.row]
    rcases endState_cases (w.rows idx) with he | he <;> simp [he, hidxst]
  refine h.mergeRow (by rw [ht]; rfl) ⟨?_, ?_, ?_, ?_, hst, ?_, fun he => absurd he hi, hs.rows,
    hs.waiting, fun l _ => hs.kids l, ?_, hs.final, ?_, fun he => ?_, hs.thr_ne, ?_⟩ (.inr hgroup)
    (fun _ => ⟨hidxst, ?_⟩) ?_ ?_ ?_ ?_
  · simp [hs.row]
  · simp [hs.row]
  · simp [hs.row]
  · simp [hs.row]
  · simp [hs.row]
  · simp [hs.kids]
  · rw [hs.idxFinal]
    split_ifs
    · exact fun _ => by simp
    · exact id
  · -- the group is active, so children remain
    have hes : endState (w.rows idx) = .active := by rw [hs.row] at he; exact he
    have hr : (w.rows idx).remaining ≠ 0 := fun hr => by
      rw [endState] at hes
      cases hst' : (w.rows idx).state <;> simp_all [FenceState.failed]
    rw [hs.idxFinal, if_neg hr]
    rcases endState_cases (w.rows idx) with he' | he'
    · exact h.noFinal idx (he' ▸ hes)
    · simp [he'] at hes
  · simp [hs.thr, Task.owner]
  · simp [hs.row, hbit]
  all_goals simp [hs.thr, Task.merger]

theorem Inv.exec_mergeUndo {todo : List ℕ} (h : Inv w)
    (ht : w.thr t = .mergeUndo idx (c :: todo)) :
    Inv ((w.setRow c
      { w.rows c with parentsList := cleanupOne (w.rows c).parentsList idx }).setTask t
        (.mergeUndo idx todo)) := by
  have hfade : ∀ j, (w.rows j).Fades ((w.setRow c { w.rows c with
      parentsList := cleanupOne (w.rows c).parentsList idx }).rows j) := fun j => by
    by_cases hjc : j = c
    · subst hjc
      simpa using ⟨rfl, rfl, rfl, rfl, rfl, List.eraseP_sublist, .inl rfl⟩
    · simpa [hjc] using Row.Fades.refl _
  have hu := h.undoing t _ _ ht
  refine
    { toRowInv := h.fadeRows hfade (fun _ => rfl) (fun _ => rfl) fun _ => rfl
      toSignalInv := h.fadeSignals hfade (fun _ => rfl) (fun _ => rfl) fun t' => ?_
      toMergeInv := h.toMergeInv.advance (t := t) (show _ = some idx by rw [ht]; rfl)
        (fun t' hte => by simp [hte]) (fun i _ => (hfade i).sameHeld) (fun _ _ _ => rfl)
        (by simp) (by simp) (fun _ _ => ?_) (by simp [Task.merger]) }
  · by_cases hte : t' = t
    · exact .inr (by simp [hte, Task.owner])
    · exact .inl (by simp [hte])
  · have := (hfade idx).sameHeld hu.1
    exact ⟨this.1, this.2.2.2.1.trans hu.2⟩

theorem Inv.exec_mergeFail (h : Inv w) (ht : w.thr t = .mergeUndo idx []) :
    Inv ((w.setRow idx { w.rows idx with childrenList := [], bit := false }).setTask t .idle) := by
  obtain ⟨hlock, hst⟩ := h.undoing t idx _ ht
  refine h.mergeRow (by rw [ht]; rfl) ⟨?_, ?_, ?_, ?_, ?_, ?_, ?_, ?_, fun _ => rfl, fun _ _ => rfl,
    List.Subset.refl _, fun _ _ => rfl, id, ?_, ?_, ?_⟩ (.inl hst) ?_ ?_ ?_ ?_ ?_ <;>
    simp +contextual [hlock, hst, Task.owner, Task.merger]

theorem Inv.exec_mark (h : Inv w) (hop : w.Open i) (hst : (w.rows i).state = .active)
    (hsig : status.signaled = true) (htype : (w.rows i).type ≠ .group) (ht : w.thr t = .idle) :
    Inv (marked w t i status) :=
  h.mark hop hst hsig htype ht (by simp [marked]) (fun j hj => by simp [marked, hj])
    (by simp [marked]) (fun t' hte => by simp [marked, hte]) (fun _ => rfl) (fun _ => rfl)
    (by simp [marked, World.self])
    fun l hl => Function.update_of_ne (by simpa [World.self] using hl) ..

theorem Inv.exec_signal (h : Inv w) (hop : w.Open i) (ht : w.thr t = .idle) (status : FenceState) :
    Inv (camSyncSignal w t i status) := by
  rcases camSyncSignal_cases w t i status with he | he | ⟨hst, htype, hsig, he⟩
  · rwa [he]
  · rw [he]
    exact h.touch ⟨rfl, rfl, rfl, rfl, rfl, List.Sublist.refl _, .inl rfl⟩
  have hm := h.exec_mark hop hst hsig htype ht
  rcases he with he | he
  · rwa [he]
  · rw [he]
    refine hm.finish (by simp [marked]) ?_ (.inl (by simp [marked]))
    simpa [World.Open, marked] using hop

theorem Inv.exec (h : Inv w) (op : Op) (ha : op.Allowed w) (hc : op.Current w) :
    Inv (op.exec w) := by
  cases op with
  | create i synx => exact h.exec_create ha synx
  | mergeStart t objs =>
    refine h.fade (fun _ => Row.Fades.refl _) (fun _ => rfl) (fun _ => rfl) (fun _ => rfl)
      fun t' => ?_
    by_cases hte : t' = t
    · refine .inr ?_
      simp only [Op.exec, World.setTask_frame, hte, Function.update_self]
      refine ⟨rfl, rfl, fun objs' todo he => ?_⟩
      obtain ⟨rfl, -⟩ : objs = objs' ∧ objs = todo := by simpa using he
      exact ha.2.2
    · exact .inl (by simp [Op.exec, hte])
  | mergeCheck t =>
    obtain ⟨objs, c, todo, ht, ho⟩ := ha
    have hnd := h.checking t _ _ ht
    simp only [Op.exec, ht]
    split_ifs
    · refine h.fade (fun _ => Row.Fades.refl _) (fun _ => rfl) (fun _ => rfl) (fun _ => rfl)
        fun t' => ?_
      by_cases hte : t' = t
      · refine .inr ?_
        simp only [World.setTask_frame, hte, Function.update_self]
        exact ⟨rfl, rfl, fun objs' todo' he => by
          obtain ⟨rfl, -⟩ : objs = objs' ∧ todo = todo' := by simpa using he
          exact hnd⟩
      · exact .inl (by simp [hte])
    · refine h.fade (fun _ => Row.Fades.refl _) (fun _ => rfl) (fun _ => rfl) (fun _ => rfl)
        fun t' => ?_
      by_cases hte : t' = t
      · exact .inr (by simp [hte, Task.owner, Task.merger])
      · exact .inl (by simp [hte])
  | mergeInit t i =>
    obtain ⟨⟨objs, ht⟩, hf⟩ := ha
    exact h.exec_mergeInit ht hf
  | mergeChild t alloc =>
    obtain ⟨idx, objs, c, todo, ht, ho⟩ := ha
    simp only [Op.exec, ht]
    exact h.exec_mergeChild ht alloc ho
  | mergeEnd t =>
    obtain ⟨idx, objs, ht⟩ := ha
    simp only [Op.exec, ht]
    exact h.exec_mergeEnd ht
  | mergeUndo t =>
    obtain ⟨idx, c, todo, ht, -⟩ := ha
    simp only [Op.exec, ht]
    exact h.exec_mergeUndo ht
  | mergeFail t =>
    obtain ⟨idx, ht⟩ := ha
    simp only [Op.exec, ht]
    exact h.exec_mergeFail ht
  | signal t i status => exact h.exec_signal ha.2 ha.1 status
  | signalResume t =>
    obtain ⟨fence, status, ht, ho⟩ := ha
    simp only [Op.exec, ht]
    exact h.finish ht ho (by simpa [Op.Current, ht] using hc)
  | signalParent t =>
    obtain ⟨fence, status, l, parents, ht, ho⟩ := ha
    simp only [Op.exec, ht]
    exact h.parent ht ho (by simpa [Op.Current, ht] using hc)
  | destroy t i =>
    simp only [Op.exec]
    split_ifs
    · exact h
    · refine h.fadeRow ?_ _ rfl rfl (by simp)
      exact ⟨rfl, rfl, rfl, rfl, rfl, List.nil_sublist _, .inr ⟨ha.2.2.2, rfl, rfl⟩⟩
  | destroyChild t =>
    obtain ⟨i, c, children, parents, ht, ho⟩ := ha
    simp only [Op.exec, ht]
    split_ifs
    · exact h.goOn _ rfl rfl (by simp)
    · refine h.fadeRow ?_ _ rfl rfl (by simp)
      exact ⟨rfl, rfl, rfl, rfl, rfl, List.eraseP_sublist, .inl rfl⟩
  | destroyParent t =>
    obtain ⟨i, p, parents, ht, ho⟩ := ha
    simp only [Op.exec, ht]
    split_ifs
    · exact h.goOn _ rfl rfl (by simp)
    · refine h.fadeRow ?_ _ rfl rfl (by simp)
      exact ⟨rfl, rfl, rfl, rfl, rfl, List.Sublist.refl _, .inl rfl⟩
  | destroyEnd t =>
    obtain ⟨i, ht, ho⟩ := ha
    simp only [Op.exec, ht]
    refine h.giveBack ho (by simp) (fun j hj => by simp [hj]) (fun t' => ?_) (fun _ => rfl)
      (fun _ => rfl) fun _ => rfl
    by_cases hte : t' = t
    · exact .inr (by simp [hte])
    · exact .inl (by simp [hte])
  | getRef i =>
    simp only [Op.exec]
    split_ifs
    · exact h.touch ⟨rfl, rfl, rfl, rfl, rfl, List.Sublist.refl _, .inl rfl⟩
    · exact h
  | putRef i => exact h.touch ⟨rfl, rfl, rfl, rfl, rfl, List.Sublist.refl _, .inl rfl⟩
  | registerCallback i func data =>
    simp only [Op.exec, camSyncRegisterCallback]
    split_ifs
    · exact h
    · exact h.books rfl rfl rfl rfl rfl
    · refine (h.touch (i := i) ?_).books rfl rfl rfl rfl rfl
      exact ⟨rfl, rfl, rfl, rfl, rfl, List.Sublist.refl _, .inl rfl⟩
  | deregisterCallback i func data =>
    simp only [Op.exec, camSyncDeregisterCallback]
    split_ifs
    · exact h
    · refine (h.touch (i := i) ?_).books rfl rfl rfl rfl rfl
      exact ⟨rfl, rfl, rfl, rfl, rfl, List.Sublist.refl _, .inl rfl⟩
  | registerPayload i words =>
    simp only [Op.exec, camSyncHandleRegisterUserPayload]
    split_ifs
    · exact h
    · exact h.books rfl rfl rfl rfl rfl
    · exact h
    · refine (h.touch (i := i) ?_).books rfl rfl rfl rfl rfl
      exact ⟨rfl, rfl, rfl, rfl, rfl, List.Sublist.refl _, .inl rfl⟩
  | deregisterPayload i words =>
    simp only [Op.exec, camSyncHandleDeregisterUserPayload]
    split_ifs
    · exact h
    · refine (h.touch (i := i) ?_).books rfl rfl rfl rfl rfl
      exact ⟨rfl, rfl, rfl, rfl, rfl, List.Sublist.refl _, .inl rfl⟩

theorem inv_reachable {C : World → Op → Prop} (hC : ∀ w op, C w op → op.Current w) {eventq : Bool}
    (h : ReachableUnder C eventq w) : Inv w := by
  induction h with
  | init => exact inv_init eventq
  | step h op ha hc ih => exact ih.exec op ha (hC _ _ hc)

end Sm8850.CamSync
