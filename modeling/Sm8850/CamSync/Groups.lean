/-
  The count and the final state of a group.

  * `GroupInv`: a child that a live group waits for has a link to it, in its row
    or with the thread that signals it; a group completes with its last child,
    and its state says whether one of the children it has heard of failed.
  * `Op.KeepsChildren` is the condition on a destroy: no live group still waits
    for the fence.
  * **`group_counts`**: `remaining` is the number of children that are neither
    signaled nor destroyed, and of those whose signal is on its way; the group
    completes when it is 0, with success exactly when all its children did.
  * **`destroyed_child`**: destroying a child leaves its group waiting for good.
-/
import Sm8850.CamSync.SignalRuns

namespace Sm8850.CamSync

variable {w w' : World} {t t' i c idx : ℕ} {k l : Link} {row : Row} {status : FenceState}
  {kept : Prop}

/-- The row of the link still has its fence, and it is not being destroyed. -/
def World.Alive (w : World) (l : Link) : Prop :=
  (w.rows l.syncId).gen = l.gen ∧ (w.rows l.syncId).state ≠ .invalid

/-- The signal of `k` still has to reach `l`: the link is in the row of `k`, or
    a thread has taken it. -/
def World.Reaches (w : World) (k l : Link) : Prop :=
  (∃ i, w.self i = k ∧ l ∈ (w.rows i).parentsList) ∨
    ∃ t status parents, w.thr t = .signalParents k status parents ∧ l ∈ parents

/-- The row a thread is destroying. -/
def Task.dying : Task → Option ℕ
  | .destroyLinks i _ _ => some i
  | _ => none

/-- **Groups and their children.**  The last links of the children are claimed
    only where no child is destroyed (`kept`). -/
structure GroupInv (kept : Prop) (w : World) : Prop where
  activesKids : ∀ l, w.actives l ⊆ w.kids l
  waitingActives : ∀ l, w.waiting l ⊆ w.actives l
  activesNodup : ∀ l, (w.actives l).Nodup
  reached : ∀ l, ∀ k ∈ w.kids l, k ∉ w.waiting l → w.final k ≠ none
  single : ∀ i, (w.rows i).type ≠ .group → (w.rows i).state ≠ .invalid →
    (w.rows i).state ≠ .active → w.final (w.self i) = some (w.rows i).state
  groupWaits : ∀ i, (w.rows i).type = .group → (w.rows i).state ≠ .invalid →
    (w.rows i).locked = true ∨ w.waiting (w.self i) ≠ [] →
    w.final (w.self i) = none ∧ (w.rows i).signaled = false
  groupDone : ∀ i, (w.rows i).type = .group → (w.rows i).state ≠ .invalid →
    (w.rows i).locked = false → w.waiting (w.self i) = [] →
    w.final (w.self i) = some (w.rows i).state ∧ (w.rows i).signaled = true ∧
      (w.rows i).state ≠ .active ∧ (w.rows i).callbackList = [] ∧
      (w.eventq = true → (w.rows i).userPayloadList = [])
  held : ∀ i, (w.rows i).locked = true → (w.rows i).state ≠ .invalid →
    (w.rows i).callbackList = [] ∧ (w.rows i).userPayloadList = []
  kidsGroup : ∀ i, w.kids (w.self i) ≠ [] → (w.rows i).type = .group
  failed : ∀ i, (w.rows i).type = .group → (w.rows i).state.failed = true →
    ∃ k ∈ w.kids (w.self i), ∃ status, w.final k = some status ∧ status.failed = true
  fine : ∀ i, (w.rows i).type = .group → (w.rows i).state ≠ .invalid →
    (w.rows i).state.failed = false → ∀ k ∈ w.kids (w.self i), k ∉ w.waiting (w.self i) →
    w.final k = some .signaledSuccess
  carried : ∀ t fence status, (w.thr t).owner = some fence → (w.thr t).carries = some status →
    w.final fence = some status
  ownerSingle : ∀ t fence, (w.thr t).owner = some fence →
    (w.rows fence.syncId).gen = fence.gen → (w.rows fence.syncId).state ≠ .invalid →
    (w.rows fence.syncId).type ≠ .group
  reach : kept → ∀ l, w.Alive l → ∀ k ∈ w.waiting l, w.Reaches k l
  window : ∀ i, (w.rows i).state ≠ .active → (w.rows i).parentsList ≠ [] →
    ∃ t status, w.thr t = .signalSynx (w.self i) status
  dying : ∀ t i, (w.thr t).dying = some i →
    (w.rows i).state = .invalid ∧ (w.rows i).bit = true ∧ (w.rows i).locked = false
  dyingInj : ∀ t t' i, (w.thr t).dying = some i → (w.thr t').dying = some i → t = t'

theorem groupInv_init (kept : Prop) (eventq : Bool) : GroupInv kept (World.init eventq) := by
  constructor <;> intros <;>
    simp_all [World.init, Row.zero, Task.owner, Task.dying, World.Alive, FenceState.failed]
  all_goals grind

/-! ## Sections that leave groups alone -/

/-- What a section keeps of a row, unless it makes it invalid. -/
structure RowRests (kept : Prop) (w w' : World) (i : ℕ) : Prop where
  gen : (w'.rows i).gen = (w.rows i).gen
  type : (w'.rows i).type = (w.rows i).type
  live : (w'.rows i).state ≠ .invalid → (w'.rows i).type = (w.rows i).type ∧
    (w'.rows i).state = (w.rows i).state ∧ (w'.rows i).locked = (w.rows i).locked ∧
    (w'.rows i).signaled = (w.rows i).signaled
  held : (w.rows i).locked = true → (w'.rows i).state ≠ .invalid →
    (w'.rows i).callbackList = (w.rows i).callbackList ∧
      (w'.rows i).userPayloadList = (w.rows i).userPayloadList
  callbacks : (w'.rows i).state ≠ .invalid → (w.rows i).callbackList = [] →
    (w.rows i).state ≠ .active → (w.rows i).remaining = 0 → (w'.rows i).callbackList = []
  payloads : (w'.rows i).state ≠ .invalid → (w.rows i).userPayloadList = [] →
    (w.rows i).state ≠ .active → (w'.rows i).userPayloadList = []
  parents : (w'.rows i).parentsList.Sublist (w.rows i).parentsList
  dropped : kept → ∀ l ∈ (w.rows i).parentsList, w'.Alive l → l ∈ (w'.rows i).parentsList
  dead : (w.rows i).state = .invalid → (w'.rows i).state = .invalid
  dying : (w.rows i).state = .invalid → (w.rows i).bit = true → (w.rows i).locked = false →
    (w'.rows i).bit = true ∧ (w'.rows i).locked = false

theorem RowRests.of_eq (he : w'.rows i = w.rows i) : RowRests kept w w' i := by
  constructor <;> simp +contextual [he]

theorem GroupInv.rest (hi : Inv w) (h : GroupInv kept w) (hi' : Inv w')
    (hr : ∀ i, RowRests kept w w' i)
    (he : w'.eventq = w.eventq)
    (hw : ∀ l, w'.waiting l = w.waiting l) (ha : ∀ l, w'.actives l = w.actives l)
    (hk : ∀ l, w'.kids l = w.kids l) (hf : ∀ l, w'.final l = w.final l)
    (ht : ∀ t, w'.thr t = w.thr t ∨ (w.thr t).owner = none ∧ (w'.thr t).owner = none)
    (hd : ∀ t i, (w'.thr t).dying = some i → (w.thr t).dying = some i ∨
      (w.rows i).state ≠ .invalid ∧ (w'.rows i).state = .invalid ∧ (w'.rows i).bit = true ∧
        (w'.rows i).locked = false)
    (hd' : ∀ t t' i, (w'.thr t).dying = some i → (w.thr t).dying ≠ some i →
      (w'.thr t').dying = some i → t' = t) : GroupInv kept w' := by
  have hs : ∀ i, w'.self i = w.self i := fun i => by simp [World.self, (hr i).gen]
  have hal : ∀ l, w'.Alive l → w.Alive l := fun l hl =>
    ⟨(hr _).gen ▸ hl.1, fun he => hl.2 ((hr _).dead he)⟩
  constructor
  · exact fun l => hk l ▸ ha l ▸ h.activesKids l
  · exact fun l => hw l ▸ ha l ▸ h.waitingActives l
  · exact fun l => ha l ▸ h.activesNodup l
  · exact fun l k hk' hn => hf k ▸ h.reached l k (hk l ▸ hk') (hw l ▸ hn)
  · intro i htype hst hst'
    have hl := (hr i).live hst
    rw [hs, hf, hl.2.1]
    exact h.single i (hl.1 ▸ htype) (hl.2.1 ▸ hst) (hl.2.1 ▸ hst')
  · intro i htype hst hwait
    have hl := (hr i).live hst
    rw [hs, hf, hl.2.2.2]
    exact h.groupWaits i (hl.1 ▸ htype) (hl.2.1 ▸ hst) (hl.2.2.1 ▸ hw _ ▸ hs i ▸ hwait)
  · intro i htype hst hlock hwait
    have hl := (hr i).live hst
    rw [hs, hw] at hwait
    obtain ⟨h1, h2, h3, h4, h5⟩ :=
      h.groupDone i (hl.1 ▸ htype) (hl.2.1 ▸ hst) (hl.2.2.1 ▸ hlock) hwait
    have hrem : (w.rows i).remaining = 0 := by
      rw [hi.count i fun he => by simp [← hl.2.2.1, hlock] at he, hwait]; rfl
    rw [hs, hf, hl.2.1, hl.2.2.2, he]
    exact ⟨h1, h2, h3, (hr i).callbacks hst h4 h3 hrem, fun hq => (hr i).payloads hst (h5 hq) h3⟩
  · intro i hlock hst
    have hl := (hr i).live hst
    have hlock := hl.2.2.1 ▸ hlock
    obtain ⟨h1, h2⟩ := h.held i hlock (hl.2.1 ▸ hst)
    rw [((hr i).held hlock hst).1, ((hr i).held hlock hst).2]
    exact ⟨h1, h2⟩
  · exact fun i hne => (hr i).type.trans (h.kidsGroup i (hs i ▸ hk _ ▸ hne))
  · intro i htype hfail
    have hst : (w'.rows i).state ≠ .invalid := fun he => by simp [he, FenceState.failed] at hfail
    have hl := (hr i).live hst
    obtain ⟨k, hk', st, hkf, hst'⟩ := h.failed i (hl.1 ▸ htype) (hl.2.1 ▸ hfail)
    exact ⟨k, by rw [hs, hk]; exact hk', st, by rw [hf]; exact hkf, hst'⟩
  · intro i htype hst hfail k hk' hn
    have hl := (hr i).live hst
    rw [hs, hk] at hk'
    rw [hs, hw] at hn
    rw [hf]
    exact h.fine i (hl.1 ▸ htype) (hl.2.1 ▸ hst) (hl.2.1 ▸ hfail) k hk' hn
  · intro t f st ho hc
    rcases ht t with ht | ht
    · exact hf f ▸ h.carried t f st (ht ▸ ho) (ht ▸ hc)
    · simp [ht.2] at ho
  · intro t f ho hg hst
    rw [((hr _).live hst).1]
    rcases ht t with ht | ht
    · exact h.ownerSingle t f (ht ▸ ho) ((hr _).gen ▸ hg) fun he => hst ((hr _).dead he)
    · simp [ht.2] at ho
  · intro hkept l hl k hk'
    rcases h.reach hkept l (hal l hl) k (hw l ▸ hk') with ⟨i, hi', hl'⟩ | ⟨t, st, ps, ht', hl'⟩
    · exact .inl ⟨i, (hs i).trans hi', (hr i).dropped hkept l hl' hl⟩
    · refine .inr ⟨t, st, ps, ?_, hl'⟩
      rcases ht t with ht | ht
      · exact ht.trans ht'
      · simp [ht', Task.owner] at ht
  · intro i hst hp
    have hst' : (w'.rows i).state ≠ .invalid := fun he => hp (hi'.noParents i (.inl he))
    have hp' : (w.rows i).parentsList ≠ [] := fun he => hp (by
      have := (hr i).parents; rwa [he, List.sublist_nil] at this)
    obtain ⟨t, st, ht'⟩ := h.window i ((hr i).live hst' |>.2.1 ▸ hst) hp'
    refine ⟨t, st, ?_⟩
    rcases ht t with ht | ht
    · rw [ht, ht', hs]
    · simp [ht', Task.owner] at ht
  · intro t i hdy
    rcases hd t i hdy with hd | hd
    · have := h.dying t i hd
      exact ⟨(hr i).dead this.1, (hr i).dying this.1 this.2.1 this.2.2⟩
    · exact hd.2
  · intro t t' i hdy hdy'
    by_cases hold : (w.thr t).dying = some i
    · by_cases hold' : (w.thr t').dying = some i
      · exact h.dyingInj t t' i hold hold'
      · exact hd' t' t i hdy' hold' hdy
    · exact (hd' t t' i hdy hold hdy').symm

/-! ## New rows -/

theorem GroupInv.newRow (hi : Inv w) (h : GroupInv kept w) (hf : w.Free i)
    (hg : (w'.rows i).gen = (w.rows i).gen) (hst : (w'.rows i).state = .active)
    (hsig : (w'.rows i).signaled = false) (hcb : (w'.rows i).callbackList = [])
    (hpl : (w'.rows i).userPayloadList = [])
    (hgroup : (w'.rows i).type = .group → (w'.rows i).locked = true)
    (hj : ∀ j, j ≠ i → w'.rows j = w.rows j) (he : w'.eventq = w.eventq)
    (ht : ∀ t, w'.thr t = w.thr t ∨
      (w.thr t).owner = none ∧ (w'.thr t).owner = none ∧ (w'.thr t).dying = none)
    (hw : ∀ l, w'.waiting l = w.waiting l) (ha : ∀ l, w'.actives l = w.actives l)
    (hk : ∀ l, w'.kids l = w.kids l) (hfin : ∀ l, w'.final l = w.final l) : GroupInv kept w' := by
  obtain ⟨⟨-, -, hl⟩, hb⟩ := hf
  have hs : ∀ j, w'.self j = w.self j := fun j => by grind [World.self]
  have hn : ¬ w.Born (w.self i) := by simp [World.Born, World.self, hl, hb]
  obtain ⟨hw0, hk0, hf0⟩ := hi.fresh _ hn
  have hal : ∀ l, w'.Alive l → l = w.self i ∨ w.Alive l := fun l hl => by
    by_cases hli : l.syncId = i
    · exact .inl (by rw [← hli]; exact (w.self_eq (by grind [World.Alive])).symm)
    · exact .inr (by grind [World.Alive])
  have hd : ∀ t j, (w'.thr t).dying = some j → (w.thr t).dying = some j ∧ j ≠ i := by
    intro t j hdy
    have hold : (w.thr t).dying = some j := by grind
    refine ⟨hold, fun hji => ?_⟩
    have := (h.dying t j hold).2.1
    simp [hji, hb] at this
  constructor
  · exact fun l => hk l ▸ ha l ▸ h.activesKids l
  · exact fun l => hw l ▸ ha l ▸ h.waitingActives l
  · exact fun l => ha l ▸ h.activesNodup l
  · exact fun l k hk' hn => hfin k ▸ h.reached l k (hk l ▸ hk') (hw l ▸ hn)
  · grind [h.single]
  · grind [h.groupWaits]
  · grind [h.groupDone]
  · grind [h.held]
  · grind [h.kidsGroup]
  · grind [h.failed, FenceState.failed]
  · grind [h.fine]
  · grind [h.carried]
  · intro t f ho hg' hst'
    have ho' : (w.thr t).owner = some f := by grind
    have hfi : f.syncId ≠ i := fun hfi => hi.owner t f ho' (by
      have : w.self f.syncId = f := w.self_eq (by grind)
      rw [← this, hfi]; exact hf0)
    have := h.ownerSingle t f ho'
    grind
  · intro hkept l hl' k hk'
    rw [hw] at hk'
    rcases hal l hl' with rfl | hl'
    · simp [hw0] at hk'
    rcases h.reach hkept l hl' k hk' with ⟨j, hj', hlj⟩ | ⟨t, st, ps, ht', hl''⟩
    · have hji : j ≠ i := fun hji => by
        have hp' := hi.noParents i (.inl (by_contra fun hst' => by
          have := hi.live i hst'; simp [hl, hb] at this))
        simp [hji, hp'] at hlj
      exact .inl ⟨j, (hs j).trans hj', (hj j hji).symm ▸ hlj⟩
    · refine .inr ⟨t, st, ps, ?_, hl''⟩
      rcases ht t with ht | ht
      · exact ht.trans ht'
      · simp [ht', Task.owner] at ht
  · intro j hst' hpj
    by_cases hji : j = i
    · exact absurd (hji ▸ hst) hst'
    · rw [hj j hji] at hst' hpj
      obtain ⟨t, st, ht'⟩ := h.window j hst' hpj
      refine ⟨t, st, ?_⟩
      rcases ht t with ht | ht
      · rw [ht, ht', hs]
      · simp [ht', Task.owner] at ht
  · intro t j hdy
    obtain ⟨hold, hji⟩ := hd t j hdy
    rw [hj j hji]
    exact h.dying t j hold
  · exact fun t t' j hdy hdy' => h.dyingInj t t' j (hd t j hdy).1 (hd t' j hdy').1

/-! ## Merges -/

section
variable {objs todo : List ℕ} (hi : Inv w) (h : GroupInv kept w)
include hi h

theorem GroupInv.mergeFails (hi' : Inv w') (ht : (w.thr t).merger = some idx)
    (hs : MergeFails w w' t idx) (he : w'.eventq = w.eventq) : GroupInv kept w' := by
  obtain ⟨rem, ch, hr⟩ := hs.row
  obtain ⟨done, hd⟩ := hs.thr
  have hlock := hi.merger_locked ht
  have hown : (w.thr t).owner = none := by
    cases ht' : w.thr t <;> simp_all [Task.owner, Task.merger]
  have hdy : ∀ t' i, (w'.thr t').dying = some i → (w.thr t').dying = some i := fun t' i hdy => by
    by_cases hte : t' = t
    · simp [hte, hd, Task.dying] at hdy
    · exact hs.thr_ne t' hte ▸ hdy
  refine h.rest hi hi' (fun i => ?_) he hs.waiting hs.actives hs.kids hs.final (fun t' => ?_)
    (fun t' i hdy' => .inl (hdy t' i hdy')) fun t' t'' i hdy' hn _ => absurd (hdy t' i hdy') hn
  · by_cases hii : i = idx
    · subst hii
      constructor <;> simp +contextual [hr, hlock]
    · exact .of_eq (hs.rows i hii)
  · by_cases hte : t' = t
    · exact .inr ⟨hte ▸ hown, by rw [hte, hd]; rfl⟩
    · exact .inl (hs.thr_ne t' hte)

end

/-- A section of the group in the row `g`: other rows keep what groups read, and
    may be linked to it while they are active. -/
structure GroupChange (w w' : World) (g : ℕ) : Prop where
  gen : (w'.rows g).gen = (w.rows g).gen
  type : (w'.rows g).type = (w.rows g).type
  gone : (w.rows g).state = .invalid → (w'.rows g).state = .invalid
  parents : (w'.rows g).parentsList = (w.rows g).parentsList
  bit : (w'.rows g).bit = (w.rows g).bit
  locked : (w.rows g).locked = false → (w'.rows g).locked = false
  rows : ∀ j, j ≠ g → ∃ parents, w'.rows j = { w.rows j with parentsList := parents } ∧
    ((w.rows j).state ≠ .active → parents = (w.rows j).parentsList)
  eventq : w'.eventq = w.eventq
  waiting : ∀ l, l ≠ w.self g → w'.waiting l = w.waiting l
  actives : ∀ l, l ≠ w.self g → w'.actives l = w.actives l
  kids : ∀ l, l ≠ w.self g → w'.kids l = w.kids l
  final : ∀ l, l ≠ w.self g ∨ w.final l ≠ none → w'.final l = w.final l
  reaches : ∀ l k, l ≠ w.self g → w.Reaches k l → w'.Reaches k l
  owner : ∀ t fence, (w'.thr t).owner = some fence →
    (w.thr t).owner = some fence ∧ (w'.thr t).carries = (w.thr t).carries
  synx : ∀ t fence status, w.thr t = .signalSynx fence status → w'.thr t = .signalSynx fence status
  dying : ∀ t i, (w'.thr t).dying = some i → (w.thr t).dying = some i

theorem GroupInv.change {g : ℕ} (hi : Inv w) (h : GroupInv kept w) (hc : GroupChange w w' g)
    (hgroup : (w.rows g).type = .group)
    (hak : w'.actives (w.self g) ⊆ w'.kids (w.self g))
    (hwa : w'.waiting (w.self g) ⊆ w'.actives (w.self g))
    (hnd : (w'.actives (w.self g)).Nodup)
    (hreached : ∀ k ∈ w'.kids (w.self g), k ∉ w'.waiting (w.self g) → w'.final k ≠ none)
    (hwaits : (w'.rows g).state ≠ .invalid →
      (w'.rows g).locked = true ∨ w'.waiting (w.self g) ≠ [] →
      w'.final (w.self g) = none ∧ (w'.rows g).signaled = false)
    (hdone : (w'.rows g).state ≠ .invalid → (w'.rows g).locked = false →
      w'.waiting (w.self g) = [] → w'.final (w.self g) = some (w'.rows g).state ∧
      (w'.rows g).signaled = true ∧ (w'.rows g).state ≠ .active ∧ (w'.rows g).callbackList = [] ∧
      (w'.eventq = true → (w'.rows g).userPayloadList = []))
    (hheld : (w'.rows g).locked = true → (w'.rows g).state ≠ .invalid →
      (w'.rows g).callbackList = [] ∧ (w'.rows g).userPayloadList = [])
    (hfailed : (w'.rows g).state.failed = true →
      ∃ k ∈ w'.kids (w.self g), ∃ status, w'.final k = some status ∧ status.failed = true)
    (hfine : (w'.rows g).state ≠ .invalid → (w'.rows g).state.failed = false →
      ∀ k ∈ w'.kids (w.self g), k ∉ w'.waiting (w.self g) → w'.final k = some .signaledSuccess)
    (hreach : kept → w'.Alive (w.self g) → ∀ k ∈ w'.waiting (w.self g), w'.Reaches k (w.self g)) :
    GroupInv kept w' := by
  have hrow : ∀ j, j ≠ g → (w'.rows j).type = (w.rows j).type ∧
      (w'.rows j).state = (w.rows j).state ∧ (w'.rows j).locked = (w.rows j).locked ∧
      (w'.rows j).signaled = (w.rows j).signaled ∧
      (w'.rows j).callbackList = (w.rows j).callbackList ∧
      (w'.rows j).userPayloadList = (w.rows j).userPayloadList ∧
      (w'.rows j).bit = (w.rows j).bit ∧ (w'.rows j).gen = (w.rows j).gen := fun j hj => by
    obtain ⟨ps, he, -⟩ := hc.rows j hj
    simp [he]
  have hs : ∀ j, w'.self j = w.self j := fun j => by
    by_cases hj : j = g
    · simp [World.self, hj, hc.gen]
    · simp [World.self, (hrow j hj).2.2.2.2.2.2.2]
  have hne : ∀ j, j ≠ g → w.self j ≠ w.self g := fun j hj => by simpa using hj
  have hmono : ∀ k, w.final k ≠ none → w'.final k = w.final k := fun k hk => hc.final k (.inr hk)
  constructor
  · intro l
    by_cases hl : l = w.self g
    · exact hl ▸ hak
    · rw [hc.actives l hl, hc.kids l hl]; exact h.activesKids l
  · intro l
    by_cases hl : l = w.self g
    · exact hl ▸ hwa
    · rw [hc.waiting l hl, hc.actives l hl]; exact h.waitingActives l
  · intro l
    by_cases hl : l = w.self g
    · exact hl ▸ hnd
    · rw [hc.actives l hl]; exact h.activesNodup l
  · intro l k hk hn
    by_cases hl : l = w.self g
    · subst hl; exact hreached k hk hn
    · rw [hc.kids l hl] at hk
      rw [hc.waiting l hl] at hn
      have := h.reached l k hk hn
      rwa [hmono k this]
  · intro j htype hst hst'
    have hj : j ≠ g := fun hj => htype (hj ▸ hc.type ▸ hgroup)
    obtain ⟨h1, h2, -⟩ := hrow j hj
    rw [hs, hc.final _ (.inl (hne j hj)), h2]
    exact h.single j (h1 ▸ htype) (h2 ▸ hst) (h2 ▸ hst')
  · intro j htype hst hwait
    by_cases hj : j = g
    · subst hj; rw [hs] at hwait ⊢; exact hwaits hst hwait
    · obtain ⟨h1, h2, h3, h4, -⟩ := hrow j hj
      rw [hs, hc.waiting _ (hne j hj), h3] at hwait
      rw [hs, hc.final _ (.inl (hne j hj)), h4]
      exact h.groupWaits j (h1 ▸ htype) (h2 ▸ hst) hwait
  · intro j htype hst hlock hwait
    by_cases hj : j = g
    · subst hj; rw [hs] at hwait ⊢; exact hdone hst hlock hwait
    · obtain ⟨h1, h2, h3, h4, h5, h6, -⟩ := hrow j hj
      rw [hs, hc.waiting _ (hne j hj)] at hwait
      rw [hs, hc.final _ (.inl (hne j hj)), h2, h4, h5, h6, hc.eventq]
      exact h.groupDone j (h1 ▸ htype) (h2 ▸ hst) (h3 ▸ hlock) hwait
  · intro j hlock hst
    by_cases hj : j = g
    · subst hj; exact hheld hlock hst
    · obtain ⟨h1, h2, h3, h4, h5, h6, -⟩ := hrow j hj
      rw [h5, h6]
      exact h.held j (h3 ▸ hlock) (h2 ▸ hst)
  · intro j hk
    by_cases hj : j = g
    · exact hj ▸ hc.type ▸ hgroup
    · rw [hs, hc.kids _ (hne j hj)] at hk
      rw [(hrow j hj).1]
      exact h.kidsGroup j hk
  · intro j htype hfail
    by_cases hj : j = g
    · subst hj; rw [hs]; exact hfailed hfail
    · obtain ⟨h1, h2, -⟩ := hrow j hj
      obtain ⟨k, hk, st, hkf, hst⟩ := h.failed j (h1 ▸ htype) (h2 ▸ hfail)
      rw [hs, hc.kids _ (hne j hj)]
      exact ⟨k, hk, st, by rw [hmono k (by simp [hkf]), hkf], hst⟩
  · intro j htype hst hfail k hk hn
    by_cases hj : j = g
    · subst hj; rw [hs] at hk hn; exact hfine hst hfail k hk hn
    · obtain ⟨h1, h2, -⟩ := hrow j hj
      rw [hs, hc.kids _ (hne j hj)] at hk
      rw [hs, hc.waiting _ (hne j hj)] at hn
      have hf := h.fine j (h1 ▸ htype) (h2 ▸ hst) (h2 ▸ hfail) k hk hn
      rw [hmono k (by simp [hf]), hf]
  · intro t f st ho hca
    obtain ⟨ho', hca'⟩ := hc.owner t f ho
    have hf := h.carried t f st ho' (hca' ▸ hca)
    rw [hmono f (by simp [hf]), hf]
  · intro t f ho hg hst
    have ho' := (hc.owner t f ho).1
    by_cases hj : f.syncId = g
    · have := h.ownerSingle t f ho' (by rw [← hg, hj, hc.gen])
        fun he => hst (hj ▸ hc.gone (hj ▸ he))
      exact absurd (hj ▸ hgroup) this
    · obtain ⟨h1, h2, -, -, -, -, -, h8⟩ := hrow _ hj
      rw [h1]
      exact h.ownerSingle t f ho' (h8 ▸ hg) (h2 ▸ hst)
  · intro hkept l hl k hk
    by_cases hlg : l = w.self g
    · subst hlg; exact hreach hkept hl k hk
    · rw [hc.waiting l hlg] at hk
      refine hc.reaches l k hlg (h.reach hkept l ?_ k hk)
      by_cases hj : l.syncId = g
      · exact absurd (by rw [← hj]; exact (w.self_eq (by rw [← hl.1, hj, hc.gen])).symm) hlg
      · obtain ⟨-, h2, -, -, -, -, -, h8⟩ := hrow _ hj
        exact ⟨h8 ▸ hl.1, h2 ▸ hl.2⟩
  · intro j hst hp
    by_cases hj : j = g
    · refine absurd ?_ hp
      rw [hj, hc.parents]
      exact hi.noParents g (.inr hgroup)
    · obtain ⟨ps, he, hps⟩ := hc.rows j hj
      have hst' : (w.rows j).state ≠ .active := by rw [he] at hst; exact hst
      have hp' : (w.rows j).parentsList ≠ [] := by rw [he, hps hst'] at hp; exact hp
      obtain ⟨t, st, ht⟩ := h.window j hst' hp'
      exact ⟨t, st, hs j ▸ hc.synx t _ st ht⟩
  · intro t j hdy
    obtain ⟨h1, h2, h3⟩ := h.dying t j (hc.dying t j hdy)
    by_cases hj : j = g
    · subst hj
      exact ⟨hc.gone h1, hc.bit ▸ h2, hc.locked h3⟩
    · obtain ⟨-, h5, h6, -, -, -, h7, -⟩ := hrow j hj
      exact ⟨h5 ▸ h1, h7 ▸ h2, h6 ▸ h3⟩
  · exact fun t t' j hdy hdy' => h.dyingInj t t' j (hc.dying t j hdy) (hc.dying t' j hdy')

/-- A section of a merge leaves the other threads alone. -/
structure MergeThreads (w w' : World) (t : ℕ) : Prop where
  owner : ∀ t fence, (w'.thr t).owner = some fence →
    (w.thr t).owner = some fence ∧ (w'.thr t).carries = (w.thr t).carries
  synx : ∀ t fence status, w.thr t = .signalSynx fence status → w'.thr t = .signalSynx fence status
  parents : ∀ t fence status parents, w.thr t = .signalParents fence status parents →
    w'.thr t = .signalParents fence status parents
  dying : ∀ t i, (w'.thr t).dying = some i → (w.thr t).dying = some i

theorem mergeThreads {task : Task} (ht : (w.thr t).merger = some idx) (hnew : w'.thr t = task)
    (ht' : ∀ t', t' ≠ t → w'.thr t' = w.thr t') (ho : task.owner = none) (hd : task.dying = none) :
    MergeThreads w w' t := by
  constructor
  · intro t' f he
    by_cases hte : t' = t
    · simp [hte, hnew, ho] at he
    · rw [ht' t' hte] at he ⊢
      exact ⟨he, rfl⟩
  · intro t' f st he
    have hte : t' ≠ t := fun hte => by rw [hte] at he; rw [he] at ht; cases ht
    rwa [ht' t' hte]
  · intro t' f st ps he
    have hte : t' ≠ t := fun hte => by rw [hte] at he; rw [he] at ht; cases ht
    rwa [ht' t' hte]
  · intro t' i he
    by_cases hte : t' = t
    · simp [hte, hnew, hd] at he
    · rwa [ht' t' hte] at he

theorem Reaches.mono (ht : MergeThreads w w' t) (hs : ∀ j, w'.self j = w.self j)
    (hp : ∀ j, (w.rows j).parentsList ⊆ (w'.rows j).parentsList) (hr : w.Reaches k l) :
    w'.Reaches k l := by
  rcases hr with ⟨i, hi, hl⟩ | ⟨t', st, ps, he, hl⟩
  · exact .inl ⟨i, (hs i).trans hi, hp i hl⟩
  · exact .inr ⟨t', st, ps, ht.parents t' k st ps he, hl⟩

section
variable {objs todo : List ℕ} (hi : Inv w) (h : GroupInv kept w)
include hi h

theorem GroupInv.mergeSees (ht : w.thr t = .mergeChildren idx objs (c :: todo))
    (hs : MergeSees w w' t idx objs todo c) (he : w'.eventq = w.eventq) : GroupInv kept w' := by
  obtain ⟨hlock, hbit, hgroup, hidxst, hnd, hdis⟩ := hi.merging t idx objs _ ht
  have hthr := mergeThreads (by rw [ht]; rfl) hs.thr hs.thr_ne rfl rfl
  have hself : ∀ j, w'.self j = w.self j := fun j => by
    by_cases hj : j = idx
    · subst hj; simp [World.self, hs.row]
    · simp [World.self, hs.rows j hj]
  have hcs := FenceState.signaled_iff.1 hs.child
  have hc : w.final (w.self c) = some (w.rows c).state := h.single c hs.type hcs.1 hcs.2
  have hpar : ∀ j, (w'.rows j).parentsList = (w.rows j).parentsList := fun j => by
    by_cases hj : j = idx
    · subst hj; simp [hs.row]
    · rw [hs.rows j hj]
  have hreaches : ∀ l k, w.Reaches k l → w'.Reaches k l := fun l k =>
    Reaches.mono hthr hself fun j => hpar j ▸ List.Subset.refl _
  have hst : (w'.rows idx).state = if (w.rows c).state.failed then (w.rows c).state
      else (w.rows idx).state := by rw [hs.row]
  refine h.change hi (g := idx)
    { gen := by rw [hs.row]
      type := by rw [hs.row]
      gone := fun he => absurd he hidxst
      parents := hpar idx
      bit := by rw [hs.row]
      locked := fun he => by simp [hlock] at he
      rows := fun j hj => ⟨_, by rw [hs.rows j hj], fun _ => rfl⟩
      eventq := he
      waiting := fun l _ => hs.waiting l
      actives := fun l _ => hs.actives l
      kids := hs.kids
      final := fun l _ => hs.final l
      reaches := fun l k _ => hreaches l k
      owner := hthr.owner
      synx := hthr.synx
      dying := hthr.dying } hgroup ?_ ?_ ?_ ?_ ?_ ?_ ?_ ?_ ?_ ?_
  · rw [hs.actives, hs.idxKids]
    exact List.subset_append_of_subset_left _ (h.activesKids _)
  · rw [hs.waiting, hs.actives]; exact h.waitingActives _
  · rw [hs.actives]; exact h.activesNodup _
  · intro k hk hn
    rw [hs.idxKids, List.mem_append, List.mem_singleton] at hk
    rw [hs.waiting] at hn
    rw [hs.final]
    rcases hk with hk | rfl
    · exact h.reached _ k hk hn
    · simp [hc]
  · intro _ _
    rw [hs.final, hs.row]
    exact h.groupWaits idx hgroup hidxst (.inl hlock)
  · intro _ hl
    rw [hs.row] at hl
    simp [hlock] at hl
  · intro _ _
    rw [hs.row]
    exact h.held idx hlock hidxst
  · intro hf
    rw [hst] at hf
    rw [hs.idxKids]
    by_cases hcf : (w.rows c).state.failed = true
    · exact ⟨w.self c, by simp, _, by rw [hs.final, hc], hcf⟩
    · rw [if_neg hcf] at hf
      obtain ⟨k, hk, st, hkf, hst'⟩ := h.failed idx hgroup hf
      exact ⟨k, List.mem_append_left _ hk, st, by rw [hs.final, hkf], hst'⟩
  · intro _ hf k hk hn
    rw [hst] at hf
    have hcf : (w.rows c).state.failed = false := by
      by_contra hcf
      simp only [Bool.not_eq_false] at hcf
      simp [hcf] at hf
    rw [hcf] at hf
    rw [hs.idxKids, List.mem_append, List.mem_singleton] at hk
    rw [hs.waiting] at hn
    rw [hs.final]
    rcases hk with hk | rfl
    · exact h.fine idx hgroup hidxst hf k hk hn
    · rw [hc, FenceState.eq_success hcs.1 hcs.2 hcf]
  · intro hkept _ k hk
    rw [hs.waiting] at hk
    exact hreaches _ k (h.reach hkept _ ⟨rfl, hidxst⟩ k hk)

theorem GroupInv.mergeLinks (ht : w.thr t = .mergeChildren idx objs (c :: todo)) (hop : w.Open c)
    (hs : MergeLinks w w' t idx objs todo c) (he : w'.eventq = w.eventq) : GroupInv kept w' := by
  obtain ⟨hlock, hbit, hgroup, hidxst, hnd, hdis⟩ := hi.merging t idx objs _ ht
  have hthr := mergeThreads (by rw [ht]; rfl) hs.thr hs.thr_ne rfl rfl
  obtain ⟨ch, hrow⟩ := hs.row
  have hne : c ≠ idx := fun he => by simp [← he, hop.2.2] at hlock
  have hself : ∀ j, w'.self j = w.self j := fun j => by
    by_cases hj : j = idx
    · subst hj; simp [World.self, hrow]
    · by_cases hjc : j = c
      · subst hjc; simp [World.self, hs.childRow]
      · simp [World.self, hs.rows j hj hjc]
  have hpar : ∀ j, (w.rows j).parentsList ⊆ (w'.rows j).parentsList := fun j => by
    by_cases hj : j = idx
    · subst hj; simp [hrow]
    · by_cases hjc : j = c
      · subst hjc; simp [hs.childRow]
      · simp [hs.rows j hj hjc]
  have hreaches : ∀ l k, w.Reaches k l → w'.Reaches k l := fun l k => Reaches.mono hthr hself hpar
  have hnew : w.self c ∉ w.actives (w.self idx) := fun hm =>
    hdis _ (h.activesKids _ hm) (by simp)
  refine h.change hi (g := idx)
    { gen := by rw [hrow]
      type := by rw [hrow]
      gone := fun he => absurd he hidxst
      parents := by rw [hrow]
      bit := by rw [hrow]
      locked := fun he => by simp [hlock] at he
      rows := fun j hj => ?_
      eventq := he
      waiting := hs.waiting
      actives := hs.actives
      kids := hs.kids
      final := fun l _ => hs.final l
      reaches := fun l k _ => hreaches l k
      owner := hthr.owner
      synx := hthr.synx
      dying := hthr.dying } hgroup ?_ ?_ ?_ ?_ ?_ ?_ ?_ ?_ ?_ ?_
  · by_cases hjc : j = c
    · subst hjc
      exact ⟨_, hs.childRow, fun hst => absurd hs.child hst⟩
    · exact ⟨_, by rw [hs.rows j hj hjc], fun _ => rfl⟩
  · rw [hs.idxActives, hs.idxKids]
    exact List.append_subset.2 ⟨List.subset_append_of_subset_left _ (h.activesKids _),
      List.subset_append_right _ _⟩
  · rw [hs.idxWaiting, hs.idxActives]
    exact List.append_subset.2 ⟨List.subset_append_of_subset_left _ (h.waitingActives _),
      List.subset_append_right _ _⟩
  · rw [hs.idxActives]
    exact (h.activesNodup _).append (List.nodup_singleton _) (by simpa using hnew)
  · intro k hk hn
    rw [hs.idxKids, List.mem_append] at hk
    rw [hs.idxWaiting, List.mem_append, not_or] at hn
    rw [hs.final]
    exact h.reached _ k (hk.resolve_right hn.2) hn.1
  · intro _ _
    rw [hs.final, hrow]
    exact h.groupWaits idx hgroup hidxst (.inl hlock)
  · intro _ hl
    rw [hrow] at hl
    simp [hlock] at hl
  · intro _ _
    rw [hrow]
    exact h.held idx hlock hidxst
  · intro hf
    rw [hrow] at hf
    obtain ⟨k, hk, st, hkf, hst'⟩ := h.failed idx hgroup hf
    exact ⟨k, by rw [hs.idxKids]; exact List.mem_append_left _ hk, st, by rw [hs.final, hkf], hst'⟩
  · intro _ hf k hk hn
    rw [hrow] at hf
    rw [hs.idxKids, List.mem_append] at hk
    rw [hs.idxWaiting, List.mem_append, not_or] at hn
    rw [hs.final]
    exact h.fine idx hgroup hidxst hf k (hk.resolve_right hn.2) hn.1
  · intro hkept _ k hk
    rw [hs.idxWaiting, List.mem_append, List.mem_singleton] at hk
    rcases hk with hk | rfl
    · exact hreaches _ k (h.reach hkept _ ⟨rfl, hidxst⟩ k hk)
    · exact .inl ⟨c, hself c, by simp [hs.childRow]⟩

theorem GroupInv.mergeEnds (ht : w.thr t = .mergeChildren idx objs [])
    (hs : MergeEnds w w' t idx) (he : w'.eventq = w.eventq) : GroupInv kept w' := by
  obtain ⟨hlock, hbit, hgroup, hidxst, hnd, hdis⟩ := hi.merging t idx objs _ ht
  have hthr := mergeThreads (by rw [ht]; rfl) hs.thr hs.thr_ne rfl rfl
  have hself : ∀ j, w'.self j = w.self j := fun j => by
    by_cases hj : j = idx
    · subst hj; simp [World.self, hs.row]
    · simp [World.self, hs.rows j hj]
  have hpar : ∀ j, (w'.rows j).parentsList = (w.rows j).parentsList := fun j => by
    by_cases hj : j = idx
    · subst hj; simp [hs.row]
    · rw [hs.rows j hj]
  have hreaches : ∀ l k, w.Reaches k l → w'.Reaches k l := fun l k =>
    Reaches.mono hthr hself fun j => hpar j ▸ List.Subset.refl _
  obtain ⟨hfin, hsig⟩ := h.groupWaits idx hgroup hidxst (.inl hlock)
  have hcount := hi.count idx fun _ => hidxst
  have hmono : ∀ k, w.final k ≠ none → w'.final k = w.final k := fun k hk =>
    hs.final k fun he => hk (he ▸ hfin)
  have hst : (w'.rows idx).state = endState (w.rows idx) := by rw [hs.row]
  have hfailst : (endState (w.rows idx)).failed = (w.rows idx).state.failed := by
    rw [endState]
    split_ifs with hc
    · rw [hc.2]; rfl
    · rfl
  refine h.change hi (g := idx)
    { gen := by rw [hs.row]
      type := by rw [hs.row]
      gone := fun he => absurd he hidxst
      parents := hpar idx
      bit := by rw [hs.row]
      locked := fun _ => by rw [hs.row]
      rows := fun j hj => ⟨_, by rw [hs.rows j hj], fun _ => rfl⟩
      eventq := he
      waiting := fun l _ => hs.waiting l
      actives := fun l _ => hs.actives l
      kids := fun l _ => hs.kids l
      final := fun l hl => hl.elim (hs.final l) (hmono l)
      reaches := fun l k _ => hreaches l k
      owner := hthr.owner
      synx := hthr.synx
      dying := hthr.dying } hgroup ?_ ?_ ?_ ?_ ?_ ?_ ?_ ?_ ?_ ?_
  · rw [hs.actives, hs.kids]; exact h.activesKids _
  · rw [hs.waiting, hs.actives]; exact h.waitingActives _
  · rw [hs.actives]; exact h.activesNodup _
  · intro k hk hn
    rw [hs.kids] at hk
    rw [hs.waiting] at hn
    have := h.reached _ k hk hn
    rwa [hmono k this]
  · intro _ hw
    have hne : (w.rows idx).remaining ≠ 0 := by
      rw [hs.row, hs.waiting] at hw
      rw [hcount]
      rcases hw with hw | hw
      · cases hw
      · exact fun he => hw (List.length_eq_zero_iff.1 he)
    rw [hs.idxFinal, if_neg hne, hs.row]
    exact ⟨hfin, by simp [hne, hsig]⟩
  · intro _ _ hw
    rw [hs.waiting] at hw
    have hz : (w.rows idx).remaining = 0 := by rw [hcount, hw]; rfl
    obtain ⟨h1, h2⟩ := h.held idx hlock hidxst
    rw [hs.idxFinal, if_pos hz, hst]
    refine ⟨rfl, by simp [hs.row, hz], fun ha => ?_, by simp [hs.row, h1],
      fun _ => by simp [hs.row, h2]⟩
    rw [endState] at ha
    split_ifs at ha with hc
    exact hc ⟨hz, by rw [ha]; rfl⟩
  · intro hl
    rw [hs.row] at hl
    cases hl
  · intro hf
    rw [hst, hfailst] at hf
    obtain ⟨k, hk, st, hkf, hst'⟩ := h.failed idx hgroup hf
    exact ⟨k, by rw [hs.kids]; exact hk, st, by rw [hmono k (by simp [hkf]), hkf], hst'⟩
  · intro _ hf k hk hn
    rw [hst, hfailst] at hf
    rw [hs.kids] at hk
    rw [hs.waiting] at hn
    have := h.fine idx hgroup hidxst hf k hk hn
    rw [hmono k (by simp [this]), this]
  · intro hkept _ k hk
    rw [hs.waiting] at hk
    exact hreaches _ k (h.reach hkept _ ⟨rfl, hidxst⟩ k hk)

end

/-! ## Signals -/

theorem nextParents_owner {fence f : Link} {parents : List Link}
    (h : (nextParents fence status parents).owner = some f) : f = fence ∧
      (nextParents fence status parents).carries = some status ∧ parents ≠ [] := by
  rw [nextParents] at h ⊢
  split_ifs at h ⊢ with hp
  · cases h
  · exact ⟨(Option.some.inj h).symm, rfl, hp⟩

theorem nextParents_dying (fence : Link) (status : FenceState) (parents : List Link) :
    (nextParents fence status parents).dying = none := by
  rw [nextParents]
  split_ifs <;> rfl

theorem GroupInv.parent {fence : Link} {parents : List Link} (hi : Inv w) (h : GroupInv kept w)
    (ht : w.thr t = .signalParents fence status (l :: parents)) (hop : w.Open l.syncId)
    (hg : (w.rows l.syncId).gen = l.gen) (hs : w'.rows l.syncId =
      visited w.eventq status (w.rows l.syncId)) (hj : ∀ j, j ≠ l.syncId → w'.rows j = w.rows j)
    (he : w'.eventq = w.eventq) (hw : w'.waiting l = (w.waiting l).erase fence)
    (hw' : ∀ m, m ≠ l → w'.waiting m = w.waiting m) (hak : w'.actives = w.actives)
    (hk : w'.kids = w.kids) (hfl : w'.final l = if (w.rows l.syncId).state ≠ .invalid ∧
      dec32 (w.rows l.syncId).remaining = 0 then
        some (parentState (w.rows l.syncId).state status) else w.final l)
    (hf : ∀ m, m ≠ l → w'.final m = w.final m)
    (htn : w'.thr t = nextParents fence status parents)
    (htn' : ∀ t', t' ≠ t → w'.thr t' = w.thr t') : GroupInv kept w' := by
  have hself : w.self l.syncId = l := w.self_eq hg.symm
  have hwait : fence ∈ w.waiting l :=
    (hi.thrLink t _ _ _ ht l (List.mem_cons_self ..)).2 hg.symm
  have hkid : fence ∈ w.kids l := hi.waitingKids l hwait
  have hgroup : (w.rows l.syncId).type = .group :=
    h.kidsGroup l.syncId (by rw [hself]; exact List.ne_nil_of_mem hkid)
  have hfence : w.final fence = some status :=
    h.carried t fence status (by rw [ht]; rfl) (by rw [ht]; rfl)
  have hsig := FenceState.signaled_iff.1 (hi.carries t status (by rw [ht]; rfl))
  have hcount := hi.count l.syncId fun hl => by simp [hop.2.2] at hl
  have hrem := dec32_add_one (hi.remaining_pos ht hop hg)
  rw [hself] at hcount
  have hnd := hi.thrNodup t _ _ _ ht
  have hlen := List.length_erase_of_mem hwait
  -- while the group waits for the child it has not completed
  have hold : (w.rows l.syncId).state ≠ .invalid →
      w.final l = none ∧ (w.rows l.syncId).signaled = false := fun hst => by
    have := h.groupWaits l.syncId hgroup hst (.inr (by rw [hself]; exact List.ne_nil_of_mem hwait))
    rwa [hself] at this
  have hmono : ∀ m, w.final m ≠ none → w'.final m = w.final m := fun m hm => by
    by_cases hml : m = l
    · subst hml
      rw [hfl]
      split_ifs with hc
      · exact absurd (hold hc.1).1 hm
      · rfl
    · exact hf m hml
  have hz : dec32 (w.rows l.syncId).remaining = 0 ↔ w'.waiting l = [] := by
    rw [hw, ← List.length_eq_zero_iff, hlen]
    omega
  have hst' : (w'.rows l.syncId).state = parentState (w.rows l.syncId).state status := by
    rw [hs]; simp
  have hdead : (w.rows l.syncId).state = .invalid ↔ (w'.rows l.syncId).state = .invalid := by
    rw [hst', parentState]
    split_ifs with hc
    · rfl
    · exact ⟨fun hc' => absurd (.inl hc') hc, fun hc' => absurd hc' hsig.1⟩
  have hreaches : ∀ m k, m ≠ l ∨ k ≠ fence → w.Reaches k m → w'.Reaches k m := by
    rintro m k hmk (⟨j, hjk, hjm⟩ | ⟨t', st, ps, ht', hm⟩)
    · refine .inl ⟨j, ?_, ?_⟩
      · by_cases hjl : j = l.syncId
        · simpa [World.self, hjl, hs] using hjk
        · simpa [World.self, hj j hjl] using hjk
      · by_cases hjl : j = l.syncId
        · simpa [hjl, hs] using hjm
        · simpa [hj j hjl] using hjm
    · by_cases hte : t' = t
      · obtain ⟨rfl, rfl, rfl⟩ : fence = k ∧ status = st ∧ l :: parents = ps := by
          rw [hte, ht] at ht'; simpa using ht'
        have hml : m ≠ l := hmk.resolve_right (· rfl)
        have hm' : m ∈ parents := (List.mem_cons.1 hm).resolve_left hml
        exact .inr ⟨t, status, parents, by rw [htn, nextParents, if_neg (List.ne_nil_of_mem hm')],
          hm'⟩
      · exact .inr ⟨t', st, ps, (htn' t' hte).trans ht', hm⟩
  refine h.change hi (g := l.syncId)
    { gen := by rw [hs]; simp
      type := by rw [hs]; simp
      gone := hdead.1
      parents := by rw [hs]; simp
      bit := by rw [hs]; simp
      locked := fun hl => by rw [hs]; simpa using hl
      rows := fun j hjl => ⟨_, by rw [hj j hjl], fun _ => rfl⟩
      eventq := he
      waiting := hself ▸ hw'
      actives := fun m _ => by rw [hak]
      kids := fun m _ => by rw [hk]
      final := fun m hm => hm.elim (fun hml => hf m (hself ▸ hml)) (hmono m)
      reaches := fun m k hm => hreaches m k (.inl (hself ▸ hm))
      owner := fun t' f ho => ?_
      synx := fun t' f st ht' => ?_
      dying := fun t' i hdy => ?_ } hgroup ?_ ?_ ?_ ?_ ?_ ?_ ?_ ?_ ?_ ?_
  · by_cases hte : t' = t
    · rw [hte, htn] at ho
      obtain ⟨rfl, hc, -⟩ := nextParents_owner ho
      rw [hte, htn, hc, ht]
      exact ⟨rfl, rfl⟩
    · rw [htn' t' hte] at ho ⊢
      exact ⟨ho, rfl⟩
  · have hte : t' ≠ t := fun hte => by simp [hte, ht] at ht'
    exact (htn' t' hte).trans ht'
  · by_cases hte : t' = t
    · simp [hte, htn, nextParents_dying] at hdy
    · exact htn' t' hte ▸ hdy
  · rw [hself, hak, hk]; exact h.activesKids l
  · rw [hself, hw, hak]; exact List.Subset.trans (List.erase_subset ..) (h.waitingActives l)
  · rw [hself, hak]; exact h.activesNodup l
  · rw [hself]
    intro k hkk hn
    rw [hk] at hkk
    by_cases hkf : k = fence
    · rw [hkf, hmono fence (by simp [hfence]), hfence]; simp
    · have hn' : k ∉ w.waiting l := fun hm => hn (by
        rw [hw]; exact (List.mem_erase_of_ne hkf).2 hm)
      have := h.reached l k hkk hn'
      rwa [hmono k this]
  · rw [hself]
    intro hst hwt
    have hne : dec32 (w.rows l.syncId).remaining ≠ 0 := fun hc => by
      rcases hwt with hl | hwt
      · simp [hs, hop.2.2] at hl
      · exact hwt (hz.1 hc)
    rw [hfl, if_neg fun hc => hne hc.2, hs, visited]
    simp only [if_neg hne]
    exact hold (hdead.not.2 hst)
  · rw [hself]
    intro hst _ hwt
    have hc : dec32 (w.rows l.syncId).remaining = 0 := hz.2 hwt
    have hst0 := hdead.not.2 hst
    have hps : parentState (w.rows l.syncId).state status ≠ .invalid := hst' ▸ hst
    rw [hfl, if_pos ⟨hst0, hc⟩, hst', hs, visited]
    simp only [if_pos hc, dispatched, if_neg hps]
    refine ⟨trivial, trivial, fun ha => ?_, trivial, fun hq => by rw [he] at hq; simp [hq]⟩
    rw [parentState] at ha
    split_ifs at ha with hcc
    · rcases hcc with hcc | hcc
      · exact hst0 hcc
      · simp [ha, FenceState.failed] at hcc
    · exact hsig.2 ha
  · intro hl
    simp [hs, hop.2.2] at hl
  · intro hfail
    rw [hst', parentState] at hfail
    rw [hself, hk]
    split_ifs at hfail with hc
    · obtain ⟨k, hkk, st, hkf, hst⟩ := h.failed l.syncId hgroup hfail
      exact ⟨k, hself ▸ hkk, st, by rw [hmono k (by simp [hkf]), hkf], hst⟩
    · exact ⟨fence, hkid, status, by rw [hmono fence (by simp [hfence]), hfence], hfail⟩
  · rw [hself]
    intro hst hfail k hkk hn
    have hst0 := hdead.not.2 hst
    rw [hk] at hkk
    rw [hst', parentState] at hfail
    split_ifs at hfail with hc
    · exact absurd (hc.resolve_left hst0) (by simp [hfail])
    · have hsuc : status = .signaledSuccess := FenceState.eq_success hsig.1 hsig.2 hfail
      by_cases hkf : k = fence
      · rw [hkf, hmono fence (by simp [hfence]), hfence, hsuc]
      · have hn' : k ∉ w.waiting l := fun hm => hn (by
          rw [hw]; exact (List.mem_erase_of_ne hkf).2 hm)
        have hnf : (w.rows l.syncId).state.failed = false := by
          have := not_or.1 hc
          simpa using this.2
        have := h.fine l.syncId hgroup hst0 hnf k (hself.symm ▸ hkk) (hself.symm ▸ hn')
        rw [hmono k (by simp [this]), this]
  · rw [hself]
    intro hkept hal k hkk
    rw [hw] at hkk
    have hkf : k ≠ fence := fun hkf => (hi.waitingNodup l).not_mem_erase (hkf ▸ hkk)
    refine hreaches l k (.inr hkf)
      (h.reach hkept l ⟨hg, hdead.not.2 hal.2⟩ k (List.mem_of_mem_erase hkk))

theorem GroupInv.mark (hi : Inv w) (h : GroupInv kept w) (hop : w.Open i)
    (hst : (w.rows i).state = .active) (hsig : status.signaled = true)
    (htype : (w.rows i).type ≠ .group) (ht : w.thr t = .idle)  :
    GroupInv kept (marked w t i status) := by
  have hfin : w.final (w.self i) = none := hi.noFinal i hst
  have hsg := FenceState.signaled_iff.1 hsig
  have hrow : (marked w t i status).rows i =
      { w.rows i with state := status, refCnt := (w.rows i).refCnt - 1 } := by simp [marked]
  have hj : ∀ j, j ≠ i → (marked w t i status).rows j = w.rows j := fun j hj => by simp [marked, hj]
  have hs : ∀ j, (marked w t i status).self j = w.self j := fun j => by
    by_cases hji : j = i
    · subst hji; simp [World.self, hrow]
    · simp [World.self, hj j hji]
  have hff : (marked w t i status).final = Function.update w.final (w.self i) (some status) := by
    simp [marked, World.self]
  have hmono : ∀ k, w.final k ≠ none → (marked w t i status).final k = w.final k := fun k hk => by
    rw [hff]; exact Function.update_of_ne (fun he : k = _ => hk (he ▸ hfin)) ..
  have hne : ∀ j, j ≠ i → (marked w t i status).final (w.self j) = w.final (w.self j) :=
    fun j hji => by rw [hff]; exact Function.update_of_ne (by simpa using hji) ..
  have htn : (marked w t i status).thr t = .signalSynx (w.self i) status := by simp [marked]
  have htn' : ∀ t', t' ≠ t → (marked w t i status).thr t' = w.thr t' := fun t' hte => by
    simp [marked, hte]
  -- only the row of the fence changes, and it is not a group
  have hgrp : ∀ j, ((marked w t i status).rows j).type = .group → j ≠ i := fun j hg he => by
    rw [he, hrow] at hg; exact htype hg
  constructor
  · exact h.activesKids
  · exact h.waitingActives
  · exact h.activesNodup
  · intro l k hk hn
    have := h.reached l k hk hn
    rwa [hmono k this]
  · intro j hjt hjs hja
    by_cases hji : j = i
    · subst hji; simp [hs, hff, hrow]
    · rw [hj j hji] at hjt hjs hja ⊢
      rw [hs, hne j hji]
      exact h.single j hjt hjs hja
  · intro j hg hjs hw
    have hji := hgrp j hg
    rw [hj j hji] at hg hjs hw ⊢
    rw [hs] at hw ⊢
    rw [hne j hji]
    exact h.groupWaits j hg hjs hw
  · intro j hg hjs hl hw
    have hji := hgrp j hg
    rw [hj j hji] at hg hjs hl ⊢
    rw [hs] at hw ⊢
    rw [hne j hji]
    exact h.groupDone j hg hjs hl hw
  · intro j hl hjs
    have hji : j ≠ i := fun he => by simp [he, hrow, hop.2.2] at hl
    rw [hj j hji] at hl hjs ⊢
    exact h.held j hl hjs
  · intro j hk
    rw [hs] at hk
    have hg := h.kidsGroup j hk
    rwa [hj j fun he => htype (he ▸ hg)]
  · intro j hg hf
    have hji := hgrp j hg
    rw [hj j hji] at hg hf
    obtain ⟨k, hk, st, hkf, hst'⟩ := h.failed j hg hf
    exact ⟨k, by rw [hs]; exact hk, st, by rw [hmono k (by simp [hkf]), hkf], hst'⟩
  · intro j hg hjs hf k hk hn
    have hji := hgrp j hg
    rw [hj j hji] at hg hjs hf
    rw [hs] at hk hn
    have := h.fine j hg hjs hf k hk hn
    rw [hmono k (by simp [this]), this]
  · intro t' f st ho hc
    by_cases hte : t' = t
    · rw [hte, htn] at ho hc
      obtain rfl := Option.some.inj ho
      obtain rfl := Option.some.inj hc
      simp [hff]
    · rw [htn' t' hte] at ho hc
      have := h.carried t' f st ho hc
      rw [hmono f (by simp [this]), this]
  · intro t' f ho hg hjs
    by_cases hte : t' = t
    · rw [hte, htn] at ho
      obtain rfl := Option.some.inj ho
      rw [World.self_syncId, hrow]
      exact htype
    · rw [htn' t' hte] at ho
      by_cases hfi : f.syncId = i
      · rw [hfi, hrow]; exact htype
      · rw [hj _ hfi] at hg hjs ⊢
        exact h.ownerSingle t' f ho hg hjs
  · intro hkept l hl k hk
    have hl' : w.Alive l := by
      by_cases hli : l.syncId = i
      · exact ⟨by have := hl.1; rw [hli, hrow] at this; rw [hli]; exact this, by simp [hli, hst]⟩
      · exact ⟨hj _ hli ▸ hl.1, hj _ hli ▸ hl.2⟩
    rcases h.reach hkept l hl' k hk with ⟨j, hjk, hjl⟩ | ⟨t', st, ps, ht', hlp⟩
    · refine .inl ⟨j, (hs j).trans hjk, ?_⟩
      by_cases hji : j = i
      · subst hji; rw [hrow]; exact hjl
      · rwa [hj j hji]
    · have hte : t' ≠ t := fun hte => by simp [hte, ht] at ht'
      exact .inr ⟨t', st, ps, (htn' t' hte).trans ht', hlp⟩
  · intro j hjs hp
    by_cases hji : j = i
    · exact ⟨t, status, by rw [hs, hji]; exact htn⟩
    · rw [hj j hji] at hjs hp
      obtain ⟨t', st, ht'⟩ := h.window j hjs hp
      have hte : t' ≠ t := fun hte => by simp [hte, ht] at ht'
      exact ⟨t', st, by rw [hs]; exact (htn' t' hte).trans ht'⟩
  · intro t' j hdy
    have hte : t' ≠ t := fun hte => by simp [hte, htn, Task.dying] at hdy
    rw [htn' t' hte] at hdy
    have hd := h.dying t' j hdy
    have hji : j ≠ i := fun he => by simp [he, hst] at hd
    rwa [hj j hji]
  · intro t' t'' j hdy hdy'
    have hte : t' ≠ t := fun hte => by simp [hte, htn, Task.dying] at hdy
    have hte' : t'' ≠ t := fun hte => by simp [hte, htn, Task.dying] at hdy'
    rw [htn' t' hte] at hdy
    rw [htn' t'' hte'] at hdy'
    exact h.dyingInj t' t'' j hdy hdy'

theorem GroupInv.finish {fence : Link} (hi : Inv w) (h : GroupInv kept w)
    (ht : w.thr t = .signalSynx fence status) (hop : w.Open fence.syncId)
    (hc : (w.rows fence.syncId).gen = fence.gen ∨ (w.rows fence.syncId).state = .invalid) :
    GroupInv kept (signalFinish w t fence status) := by
  have hrow := signalFinish_row w t fence status
  have hj : ∀ j, j ≠ fence.syncId → (signalFinish w t fence status).rows j = w.rows j :=
    fun j hj => signalFinish_row_ne w t fence status hj
  have htn : (signalFinish w t fence status).thr t =
      nextParents fence status (w.rows fence.syncId).parentsList := by simp [signalFinish_thr]
  have htn' : ∀ t', t' ≠ t → (signalFinish w t fence status).thr t' = w.thr t' :=
    fun t' hte => by simp [signalFinish_thr, hte]
  have hs : ∀ j, (signalFinish w t fence status).self j = w.self j := fun j => by
    by_cases hji : j = fence.syncId
    · simp [World.self, hji, hrow]
    · simp [World.self, hj j hji]
  have hcore : ∀ j, ((signalFinish w t fence status).rows j).type = (w.rows j).type ∧
      ((signalFinish w t fence status).rows j).state = (w.rows j).state ∧
      ((signalFinish w t fence status).rows j).locked = (w.rows j).locked ∧
      ((signalFinish w t fence status).rows j).bit = (w.rows j).bit ∧
      ((signalFinish w t fence status).rows j).gen = (w.rows j).gen := fun j => by
    by_cases hji : j = fence.syncId
    · simp [hji, hrow]
    · simp [hj j hji]
  -- the row is not a live group
  have hsingle : ∀ j, (w.rows j).type = .group → (w.rows j).state ≠ .invalid →
      j ≠ fence.syncId := by
    rintro j hg hst rfl
    rcases hc with hc | hc
    · exact h.ownerSingle t fence (by rw [ht]; rfl) hc hst hg
    · exact hst hc
  have hown : ∀ t' f, ((signalFinish w t fence status).thr t').owner = some f →
      (w.thr t').owner = some f ∧
        ((signalFinish w t fence status).thr t').carries = (w.thr t').carries := fun t' f ho => by
    by_cases hte : t' = t
    · rw [hte, htn] at ho
      obtain ⟨rfl, hca, -⟩ := nextParents_owner ho
      rw [hte, htn, hca, ht]
      exact ⟨rfl, rfl⟩
    · rw [htn' t' hte] at ho ⊢
      exact ⟨ho, rfl⟩
  have hdy : ∀ t' i, ((signalFinish w t fence status).thr t').dying = some i →
      (w.thr t').dying = some i := fun t' i hdy => by
    by_cases hte : t' = t
    · simp [hte, htn, nextParents_dying] at hdy
    · exact htn' t' hte ▸ hdy
  constructor
  · simpa using h.activesKids
  · simpa using h.waitingActives
  · simpa using h.activesNodup
  · simpa using h.reached
  · intro j hjt hjs hja
    obtain ⟨h1, h2, -⟩ := hcore j
    rw [hs, h2]
    simpa using h.single j (h1 ▸ hjt) (h2 ▸ hjs) (h2 ▸ hja)
  · intro j hg hjs hw
    obtain ⟨h1, h2, -⟩ := hcore j
    have hji := hsingle j (h1 ▸ hg) (h2 ▸ hjs)
    rw [hj j hji] at hg hjs hw ⊢
    rw [hs] at hw ⊢
    simpa using h.groupWaits j hg hjs (by simpa using hw)
  · intro j hg hjs hl hw
    obtain ⟨h1, h2, -⟩ := hcore j
    have hji := hsingle j (h1 ▸ hg) (h2 ▸ hjs)
    rw [hj j hji] at hg hjs hl ⊢
    rw [hs] at hw ⊢
    simpa using h.groupDone j hg hjs hl (by simpa using hw)
  · intro j hl hjs
    obtain ⟨-, h2, h3, -⟩ := hcore j
    have hji : j ≠ fence.syncId := fun he => by
      rw [h3, he, hop.2.2] at hl; cases hl
    rw [hj j hji] at hl hjs ⊢
    exact h.held j hl hjs
  · intro j hk
    rw [(hcore j).1]
    rw [hs] at hk
    exact h.kidsGroup j (by simpa using hk)
  · intro j hg hf
    obtain ⟨h1, h2, -⟩ := hcore j
    simpa [hs] using h.failed j (h1 ▸ hg) (h2 ▸ hf)
  · intro j hg hjs hf k hk hn
    obtain ⟨h1, h2, -⟩ := hcore j
    rw [hs] at hk hn
    simpa using h.fine j (h1 ▸ hg) (h2 ▸ hjs) (h2 ▸ hf) k (by simpa using hk) (by simpa using hn)
  · intro t' f st ho hca
    obtain ⟨ho', hca'⟩ := hown t' f ho
    simpa using h.carried t' f st ho' (hca' ▸ hca)
  · intro t' f ho hg hjs
    obtain ⟨h1, h2, -, -, h5⟩ := hcore f.syncId
    rw [h1]
    exact h.ownerSingle t' f (hown t' f ho).1 (h5 ▸ hg) (h2 ▸ hjs)
  · intro hkept l hl k hk
    obtain ⟨-, h2, -, -, h5⟩ := hcore l.syncId
    rcases h.reach hkept l ⟨h5 ▸ hl.1, h2 ▸ hl.2⟩ k (by simpa using hk) with
      ⟨j, hjk, hjl⟩ | ⟨t', st, ps, ht', hlp⟩
    · by_cases hji : j = fence.syncId
      · -- the thread takes the link with it
        have hp : (w.rows fence.syncId).parentsList ≠ [] := hji ▸ List.ne_nil_of_mem hjl
        have hg : (w.rows fence.syncId).gen = fence.gen := hc.resolve_right fun hst =>
          hp (hi.noParents _ (.inl hst))
        obtain rfl : fence = k := by rw [← hjk, hji]; exact (w.self_eq hg.symm).symm
        exact .inr ⟨t, status, _, by rw [htn, nextParents, if_neg hp], hji ▸ hjl⟩
      · exact .inl ⟨j, (hs j).trans hjk, by rwa [hj j hji]⟩
    · have hte : t' ≠ t := fun hte => by simp [hte, ht] at ht'
      exact .inr ⟨t', st, ps, (htn' t' hte).trans ht', hlp⟩
  · intro j hjs hp
    have hji : j ≠ fence.syncId := fun he => by simp [he, hrow] at hp
    rw [hj j hji] at hjs hp
    obtain ⟨t', st, ht'⟩ := h.window j hjs hp
    have hte : t' ≠ t := fun hte => by
      rw [hte, ht] at ht'
      simp only [Task.signalSynx.injEq] at ht'
      exact hji (by rw [ht'.1]; rfl)
    exact ⟨t', st, by rw [hs]; exact (htn' t' hte).trans ht'⟩
  · intro t' j hd
    obtain ⟨h1, h2, h3⟩ := h.dying t' j (hdy t' j hd)
    obtain ⟨-, h5, h6, h7, -⟩ := hcore j
    exact ⟨h5 ▸ h1, h7 ▸ h2, h6 ▸ h3⟩
  · exact fun t' t'' j hd hd' => h.dyingInj t' t'' j (hdy t' j hd) (hdy t'' j hd')

/-! ## The end of a destroy -/

theorem GroupInv.giveBack (hi : Inv w) (h : GroupInv kept w)
    (ht : w.thr t = .destroyLinks i [] []) :
    GroupInv kept ((w.setRow i (camSyncDeinitRow (w.rows i))).setTask t .idle) := by
  obtain ⟨hst, hbit, hlock⟩ := h.dying t i (by rw [ht]; rfl)
  have hpar := hi.noParents i (.inl hst)
  generalize hw' : (w.setRow i (camSyncDeinitRow (w.rows i))).setTask t .idle = w'
  have hrow : w'.rows i = camSyncDeinitRow (w.rows i) := by simp [← hw']
  have hj : ∀ j, j ≠ i → w'.rows j = w.rows j := fun j hj => by simp [← hw', hj]
  have hs : ∀ j, j ≠ i → w'.self j = w.self j := fun j hji => by simp [World.self, hj j hji]
  have htn : w'.thr t = .idle := by simp [← hw']
  have htn' : ∀ t', t' ≠ t → w'.thr t' = w.thr t' := fun t' hte => by simp [← hw', hte]
  have hwt : w'.waiting = w.waiting := by simp [← hw']
  have hak : w'.actives = w.actives := by simp [← hw']
  have hk : w'.kids = w.kids := by simp [← hw']
  have hf : w'.final = w.final := by simp [← hw']
  have he : w'.eventq = w.eventq := by simp [← hw']
  -- the row is a free row now
  have hlive : ∀ j, (w'.rows j).state ≠ .invalid → j ≠ i := fun j hjs hji => by
    rw [hji, hrow] at hjs; exact hjs rfl
  have hown : ∀ t' f, (w'.thr t').owner = some f → (w.thr t').owner = some f ∧
      (w'.thr t').carries = (w.thr t').carries := fun t' f ho => by
    by_cases hte : t' = t
    · simp [hte, htn, Task.owner] at ho
    · rw [htn' t' hte] at ho ⊢; exact ⟨ho, rfl⟩
  have hold : ∀ t' f st ps, w.thr t' = .signalParents f st ps →
      w'.thr t' = .signalParents f st ps :=
    fun t' f st ps he => by
      have hte : t' ≠ t := fun hte => by simp [hte, ht] at he
      rw [htn' t' hte, he]
  have hdy : ∀ t' j, (w'.thr t').dying = some j → (w.thr t').dying = some j ∧ j ≠ i := by
    intro t' j hdy
    have hte : t' ≠ t := fun hte => by simp [hte, htn, Task.dying] at hdy
    rw [htn' t' hte] at hdy
    exact ⟨hdy, fun hji => hte (h.dyingInj t' t i (hji ▸ hdy) (by rw [ht]; rfl))⟩
  constructor
  · exact hak ▸ hk ▸ h.activesKids
  · exact hak ▸ hwt ▸ h.waitingActives
  · exact hak ▸ h.activesNodup
  · exact hk ▸ hwt ▸ hf ▸ h.reached
  · intro j hjt hjs hja
    have hji := hlive j hjs
    rw [hs j hji, hf]
    rw [hj j hji] at hjt hjs hja ⊢
    exact h.single j hjt hjs hja
  · intro j hg hjs hw
    have hji := hlive j hjs
    rw [hs j hji, hf]
    rw [hs j hji, hwt] at hw
    rw [hj j hji] at hg hjs hw ⊢
    exact h.groupWaits j hg hjs hw
  · intro j hg hjs hl hw
    have hji := hlive j hjs
    rw [hs j hji, hf, he]
    rw [hs j hji, hwt] at hw
    rw [hj j hji] at hg hjs hl ⊢
    exact h.groupDone j hg hjs hl hw
  · intro j hl hjs
    have hji := hlive j hjs
    rw [hj j hji] at hl hjs ⊢
    exact h.held j hl hjs
  · intro j hkj
    by_cases hji : j = i
    · have hn : ¬ w.Born (w'.self i) := by simp [World.Born, hrow, camSyncDeinitRow]
      simp [hji, hk, (hi.fresh _ hn).2.1] at hkj
    · rw [hs j hji, hk] at hkj
      rw [hj j hji]
      exact h.kidsGroup j hkj
  · intro j hg hfl
    have hji : j ≠ i := hlive j fun he => by simp [he, FenceState.failed] at hfl
    rw [hs j hji, hk, hf]
    rw [hj j hji] at hg hfl
    exact h.failed j hg hfl
  · intro j hg hjs hfl
    have hji := hlive j hjs
    rw [hs j hji, hk, hwt, hf]
    rw [hj j hji] at hg hjs hfl
    exact h.fine j hg hjs hfl
  · intro t' f st ho hca
    obtain ⟨ho', hca'⟩ := hown t' f ho
    exact hf ▸ h.carried t' f st ho' (hca' ▸ hca)
  · intro t' f ho hg hjs
    have hji := hlive _ hjs
    rw [hj _ hji] at hg hjs ⊢
    exact h.ownerSingle t' f (hown t' f ho).1 hg hjs
  · intro hkept l hl k hkl
    rw [hwt] at hkl
    have hji := hlive _ hl.2
    have hl' : w.Alive l := ⟨hj _ hji ▸ hl.1, hj _ hji ▸ hl.2⟩
    rcases h.reach hkept l hl' k hkl with ⟨j, hjk, hjl⟩ | ⟨t', st, ps, ht', hlp⟩
    · have hji' : j ≠ i := fun hji' => by simp [hji', hpar] at hjl
      exact .inl ⟨j, (hs j hji').trans hjk, by rwa [hj j hji']⟩
    · exact .inr ⟨t', st, ps, hold t' k st ps ht', hlp⟩
  · intro j hjs hp
    have hji : j ≠ i := fun hji => by simp [hji, hrow, camSyncDeinitRow] at hp
    rw [hj j hji] at hjs hp
    obtain ⟨t', st, ht'⟩ := h.window j hjs hp
    have hte : t' ≠ t := fun hte => by simp [hte, ht] at ht'
    exact ⟨t', st, by rw [hs j hji, htn' t' hte]; exact ht'⟩
  · intro t' j hd
    obtain ⟨hd', hji⟩ := hdy t' j hd
    rw [hj j hji]
    exact h.dying t' j hd'
  · exact fun t' t'' j hd hd' => h.dyingInj t' t'' j (hdy t' j hd).1 (hdy t'' j hd').1

/-! ## Every section -/

/-- No live group waits for a fence that is destroyed. -/
def Op.KeepsChildren (w : World) : Op → Prop
  | .destroy _ i => ∀ l ∈ (w.rows i).parentsList, ¬ w.Alive l
  | _ => True

/-- A section outside signals that changes at most the row `i`, which rests, and
    the thread `t`. -/
theorem GroupInv.restRow (hi : Inv w) (h : GroupInv kept w) (hi' : Inv w') (i t : ℕ)
    (hr : RowRests kept w w' i) (hj : ∀ j, j ≠ i → w'.rows j = w.rows j) (he : w'.eventq = w.eventq)
    (hw : w'.waiting = w.waiting) (ha : w'.actives = w.actives) (hk : w'.kids = w.kids)
    (hf : w'.final = w.final) (ht : ∀ t', t' ≠ t → w'.thr t' = w.thr t')
    (ho : w'.thr t = w.thr t ∨ (w.thr t).owner = none ∧ (w'.thr t).owner = none ∧
      ∀ j, (w'.thr t).dying = some j → (w.thr t).dying = some j) : GroupInv kept w' := by
  have hdy : ∀ t' j, (w'.thr t').dying = some j → (w.thr t').dying = some j := fun t' j hdy => by
    by_cases hte : t' = t
    · subst hte
      rcases ho with ho | ho
      · exact ho ▸ hdy
      · exact ho.2.2 j hdy
    · exact ht t' hte ▸ hdy
  refine h.rest hi hi' (fun j => ?_) he (fun _ => by rw [hw]) (fun _ => by rw [ha])
    (fun _ => by rw [hk]) (fun _ => by rw [hf]) (fun t' => ?_)
    (fun t' j hj => .inl (hdy t' j hj)) fun t' t'' j hj hn _ => absurd (hdy t' j hj) hn
  · by_cases hji : j = i
    · exact hji ▸ hr
    · exact .of_eq (hj j hji)
  · by_cases hte : t' = t
    · subst hte
      exact ho.imp id fun ho => ⟨ho.1, ho.2.1⟩
    · exact .inl (ht t' hte)

/-- A row loses one of its links to the dead fence in the row `g`. -/
theorem rowRests_cleanupOne {g : ℕ} (hr : w'.rows i =
    { w.rows i with parentsList := cleanupOne (w.rows i).parentsList g })
    (hg : (w'.rows g).state = .invalid) : RowRests kept w w' i := by
  constructor <;> simp +contextual [hr]
  · exact List.eraseP_sublist
  · intro _ l hl hal
    refine (List.mem_eraseP_of_neg fun he => ?_).2 hl
    exact hal.2 (by rw [show l.syncId = g by simpa using he]; exact hg)

theorem GroupInv.exec_destroy (hi : Inv w) (h : GroupInv kept w) (ht : w.thr t = .idle)
    (hop : w.Open i)
    (hd : kept → ∀ l ∈ (w.rows i).parentsList, ¬ w.Alive l) (hst : (w.rows i).state ≠ .invalid)
    (children parents : List Link) (hi' : Inv ((w.setRow i { w.rows i with
      state := .invalid, childrenList := [], parentsList := [] }).setTask t
      (.destroyLinks i children parents))) :
    GroupInv kept ((w.setRow i { w.rows i with
      state := .invalid, childrenList := [], parentsList := [] }).setTask t
      (.destroyLinks i children parents)) := by
  have hbit : (w.rows i).bit = true := by
    rcases hi.live i hst with hb | hl
    · exact hb
    · simp [hop.2.2] at hl
  have hother : ∀ t', t' ≠ t → (w.thr t').dying ≠ some i := fun t' _ hdy =>
    hst (h.dying t' i hdy).1
  refine h.rest hi hi' (fun j => ?_) rfl (fun _ => rfl) (fun _ => rfl) (fun _ => rfl) (fun _ => rfl)
    (fun t' => ?_) (fun t' j hdy => ?_) fun t' t'' j hdy hn hdy' => ?_
  · by_cases hji : j = i
    · subst hji
      constructor <;> simp +contextual [hst]
      intro hkept l hl hal
      refine hd hkept l hl ⟨?_, fun he => hal.2 ?_⟩
      · have := hal.1
        by_cases hlj : l.syncId = j
        · rw [hlj]; simpa [hlj] using this
        · simpa [hlj] using this
      · by_cases hlj : l.syncId = j
        · simp [hlj]
        · simpa [hlj] using he
    · exact .of_eq (by simp [hji])
  · by_cases hte : t' = t
    · exact .inr (by simp [hte, ht, Task.owner])
    · exact .inl (by simp [hte])
  · by_cases hte : t' = t
    · obtain rfl : i = j := by simpa [hte, Task.dying] using hdy
      exact .inr (by simp [hst, hbit, hop.2.2])
    · exact .inl (by simpa [hte] using hdy)
  · have hte : t' = t := by
      by_contra hte
      exact hn (by simpa [hte] using hdy)
    obtain rfl : i = j := by simpa [hte, Task.dying] using hdy
    by_contra hne
    have hte' : t'' ≠ t := fun he => hne (he.trans hte.symm)
    exact hother t'' hte' (by simpa [hte'] using hdy')

theorem GroupInv.exec (hi : Inv w) (h : GroupInv kept w) (op : Op) (ha : op.Allowed w)
    (hc : op.Current w)
    (hd : kept → op.KeepsChildren w) : GroupInv kept (op.exec w) := by
  have hi' := hi.exec op ha hc
  cases op with
  | create i synx =>
    refine h.newRow hi ha (by simp [Op.exec, camSyncInitRow]) (by simp [Op.exec, camSyncInitRow])
      (by simp [Op.exec, camSyncInitRow]) (by simp [Op.exec, camSyncInitRow])
      (by simp [Op.exec, camSyncInitRow]) (by simp [Op.exec, camSyncInitRow])
      (fun j hj => by simp [Op.exec, hj]) rfl (fun _ => .inl rfl) (fun _ => rfl) (fun _ => rfl)
      (fun _ => rfl) fun _ => rfl
  | mergeStart t objs =>
    refine h.restRow hi hi' 0 t (.of_eq rfl) (fun _ _ => rfl) rfl rfl rfl rfl rfl
      (fun t' hte => by simp [Op.exec, hte]) (.inr ?_)
    simp [Op.exec, ha.1, Task.owner, Task.dying]
  | mergeCheck t =>
    obtain ⟨objs, c, todo, ht, ho⟩ := ha
    simp only [Op.exec, ht] at hi' ⊢
    split_ifs at hi' ⊢
    all_goals
      refine h.restRow hi hi' 0 t (.of_eq rfl) (fun _ _ => rfl) rfl rfl rfl rfl rfl
        (fun t' hte => by simp [hte]) (.inr ?_)
      simp [ht, Task.owner, Task.dying]
  | mergeInit t i =>
    obtain ⟨⟨objs, ht⟩, hf⟩ := ha
    simp only [Op.exec, ht] at hi' ⊢
    refine h.newRow hi hf (by simp [camSyncInitRow]) (by simp [camSyncInitRow])
      (by simp [camSyncInitRow]) (by simp [camSyncInitRow]) (by simp [camSyncInitRow])
      (by simp [camSyncInitRow]) (fun j hj => by simp [hj]) rfl (fun t' => ?_) (fun _ => rfl)
      (fun _ => rfl) (fun _ => rfl) fun _ => rfl
    by_cases hte : t' = t
    · exact .inr (by simp [hte, ht, Task.owner, Task.dying])
    · exact .inl (by simp [hte])
  | mergeChild t alloc =>
    obtain ⟨idx, objs, c, todo, ht, ho⟩ := ha
    simp only [Op.exec, ht] at hi' ⊢
    have hne : c ≠ idx := fun he => by
      have := (hi.merging t idx objs _ ht).1
      simp [← he, ho.2.2] at this
    have he : (mergeChild w t idx objs todo c alloc).eventq = w.eventq := by
      rw [CamSync.mergeChild]
      simp only []
      split_ifs <;> rfl
    rcases mergeChild_cases w t hne objs todo alloc with hm | hm | hm
    · exact h.mergeFails hi hi' (by rw [ht]; rfl) hm he
    · exact h.mergeSees hi ht hm he
    · exact h.mergeLinks hi ht ho hm he
  | mergeEnd t =>
    obtain ⟨idx, objs, ht⟩ := ha
    simp only [Op.exec, ht]
    refine h.mergeEnds hi ht (CamSync.mergeEnds w t idx) ?_
    rw [CamSync.mergeEnd]
    simp only []
    split_ifs <;> rfl
  | mergeUndo t =>
    obtain ⟨idx, c, todo, ht, -⟩ := ha
    simp only [Op.exec, ht] at hi' ⊢
    obtain ⟨hlock, hst⟩ := hi.undoing t idx _ ht
    refine h.restRow hi hi' c t (rowRests_cleanupOne (g := idx) (by simp) ?_)
      (fun j hj => by simp [hj]) rfl rfl rfl rfl rfl (fun t' hte => by simp [hte]) (.inr ?_)
    · by_cases hic : idx = c
      · subst hic; simp [hst]
      · simp [hic, hst]
    · simp [ht, Task.owner, Task.dying]
  | mergeFail t =>
    obtain ⟨idx, ht⟩ := ha
    simp only [Op.exec, ht] at hi' ⊢
    obtain ⟨hlock, hst⟩ := hi.undoing t idx _ ht
    refine h.restRow hi hi' idx t ?_ (fun j hj => by simp [hj]) rfl rfl rfl rfl rfl
      (fun t' hte => by simp [hte]) (.inr ?_)
    · constructor <;> simp +contextual [hst, hlock]
    · simp [ht, Task.owner, Task.dying]
  | signal t i status =>
    simp only [Op.exec] at hi' ⊢
    rcases camSyncSignal_cases w t i status with he | he | ⟨hst, htype, hsig, he⟩
    · rwa [he]
    · rw [he] at hi' ⊢
      refine h.restRow hi hi' i t ?_ (fun j hj => by simp [hj]) rfl rfl rfl rfl rfl
        (fun _ _ => rfl) (.inl rfl)
      constructor <;> simp +contextual
    · have hm := h.mark hi ha.2 hst hsig htype ha.1
      have him := hi.exec_mark ha.2 hst hsig htype ha.1
      rcases he with he | he
      · rwa [he]
      · rw [he]
        refine hm.finish him (by simp [marked]) ?_ (.inl (by simp [marked]))
        simpa [World.Open, marked] using ha.2
  | signalResume t =>
    obtain ⟨fence, status, ht, ho⟩ := ha
    simp only [Op.exec, ht]
    exact h.finish hi ht ho (by simpa [Op.Current, ht] using hc)
  | signalParent t =>
    obtain ⟨fence, status, l, parents, ht, ho⟩ := ha
    have hg : (w.rows l.syncId).gen = l.gen := by simpa [Op.Current, ht] using hc
    have hself : w.self l.syncId = l := w.self_eq hg.symm
    simp only [Op.exec, ht]
    refine h.parent hi ht ho hg (signalParent_row w fence status l)
      (fun j hj => signalParent_row_ne w fence status l hj) (by simp) (by simp [hself])
      (fun m hm => by simp [hself, hm]) (by simp) (by simp) ?_ (fun m hm => ?_) (by simp)
      fun t' hte => by simp [hte]
    · simp only [World.setTask_frame, signalParent_final, hself]
      split_ifs <;> simp
    · simp only [World.setTask_frame, signalParent_final, hself]
      split_ifs
      · exact Function.update_of_ne hm ..
      · rfl
  | destroy t i =>
    simp only [Op.exec] at hi' ⊢
    split_ifs at hi' ⊢ with hst
    · exact h
    · exact h.exec_destroy hi ha.1 ha.2 hd hst _ _ hi'
  | destroyChild t =>
    obtain ⟨i, c, children, parents, ht, ho⟩ := ha
    obtain ⟨hst, -⟩ := h.dying t i (by rw [ht]; rfl)
    simp only [Op.exec, ht] at hi' ⊢
    split_ifs at hi' ⊢ with hcs
    · refine h.restRow hi hi' 0 t (.of_eq rfl) (fun _ _ => rfl) rfl rfl rfl rfl rfl
        (fun t' hte => by simp [hte]) (.inr ?_)
      simp [ht, Task.owner, Task.dying]
    · have hic : i ≠ c.syncId := fun he => hcs (he ▸ hst)
      refine h.restRow hi hi' c.syncId t
        (rowRests_cleanupOne (g := i) (by simp) (by simp [hic, hst]))
        (fun j hj => by simp [hj]) rfl rfl rfl rfl rfl (fun t' hte => by simp [hte]) (.inr ?_)
      simp [ht, Task.owner, Task.dying]
  | destroyParent t =>
    obtain ⟨i, p, parents, ht, ho⟩ := ha
    simp only [Op.exec, ht] at hi' ⊢
    split_ifs at hi' ⊢
    · refine h.restRow hi hi' 0 t (.of_eq rfl) (fun _ _ => rfl) rfl rfl rfl rfl rfl
        (fun t' hte => by simp [hte]) (.inr ?_)
      simp [ht, Task.owner, Task.dying]
    · refine h.restRow hi hi' p.syncId t ?_ (fun j hj => by simp [hj]) rfl rfl rfl rfl rfl
        (fun t' hte => by simp [hte]) (.inr ?_)
      · constructor <;> simp +contextual
      · simp [ht, Task.owner, Task.dying]
  | destroyEnd t =>
    obtain ⟨i, ht, ho⟩ := ha
    simp only [Op.exec, ht]
    exact h.giveBack hi ht
  | getRef i =>
    simp only [Op.exec] at hi' ⊢
    split_ifs at hi' ⊢
    · refine h.restRow hi hi' i 0 ?_ (fun j hj => by simp [hj]) rfl rfl rfl rfl rfl
        (fun _ _ => rfl) (.inl rfl)
      constructor <;> simp +contextual
    · exact h
  | putRef i =>
    refine h.restRow hi hi' i 0 ?_ (fun j hj => by simp [Op.exec, hj]) rfl rfl rfl rfl rfl
      (fun _ _ => rfl) (.inl rfl)
    constructor <;> simp +contextual [Op.exec]
  | registerCallback i func data =>
    simp only [Op.exec, camSyncRegisterCallback] at hi' ⊢
    split_ifs at hi' ⊢ with h1 h2
    · exact h
    · exact h.restRow hi hi' 0 0 (.of_eq rfl) (fun _ _ => rfl) rfl rfl rfl rfl rfl
        (fun _ _ => rfl) (.inl rfl)
    · refine h.restRow hi hi' i 0 ?_ (fun j hj => by simp [World.addReg, hj]) rfl rfl rfl rfl rfl
        (fun _ _ => rfl) (.inl rfl)
      have hl : (w.rows i).locked = false := ha.2.2
      constructor <;> simp +contextual [World.addReg, hl]
      exact fun _ _ hna hrem => h2 ⟨FenceState.signaled_iff.2 ⟨h1, hna⟩, hrem⟩
  | deregisterCallback i func data =>
    simp only [Op.exec, camSyncDeregisterCallback] at hi' ⊢
    split_ifs at hi' ⊢
    · exact h
    · refine h.restRow hi hi' i 0 ?_ (fun j hj => by simp [World.drop, hj]) rfl rfl rfl rfl rfl
        (fun _ _ => rfl) (.inl rfl)
      have hl : (w.rows i).locked = false := ha.2.2
      constructor <;> simp +contextual [World.drop, hl]
  | registerPayload i words =>
    simp only [Op.exec, camSyncHandleRegisterUserPayload] at hi' ⊢
    split_ifs at hi' ⊢ with h1 h2 h3
    · exact h
    · exact h.restRow hi hi' 0 0 (.of_eq rfl) (fun _ _ => rfl) rfl rfl rfl rfl rfl
        (fun _ _ => rfl) (.inl rfl)
    · exact h
    · refine h.restRow hi hi' i 0 ?_ (fun j hj => by simp [World.addReg, hj]) rfl rfl rfl rfl rfl
        (fun _ _ => rfl) (.inl rfl)
      have hl : (w.rows i).locked = false := ha.2.2
      constructor <;> simp +contextual [World.addReg, hl]
      exact fun _ _ => by_contra fun hna => h2 (FenceState.signaled_iff.2 ⟨h1, hna⟩)
  | deregisterPayload i words =>
    simp only [Op.exec, camSyncHandleDeregisterUserPayload] at hi' ⊢
    split_ifs at hi' ⊢
    · exact h
    · refine h.restRow hi hi' i 0 ?_ (fun j hj => by simp [World.drop, hj]) rfl rfl rfl rfl rfl
        (fun _ _ => rfl) (.inl rfl)
      have hl : (w.rows i).locked = false := ha.2.2
      constructor <;> simp +contextual [World.drop, hl]

/-- The condition on every step of a run: signals meet the fences they mean, and
    no fence is destroyed while a live group waits for it. -/
def Op.Careful (w : World) (op : Op) : Prop := op.Current w ∧ op.KeepsChildren w

theorem groupInv_reachable {C : World → Op → Prop} (hC : ∀ w op, C w op → op.Current w)
    (hd : kept → ∀ w op, C w op → op.KeepsChildren w) {eventq : Bool}
    (h : ReachableUnder C eventq w) : GroupInv kept w := by
  induction h with
  | init => exact groupInv_init kept eventq
  | step h op ha hc ih =>
    exact ih.exec (inv_reachable hC h) op ha (hC _ _ hc) fun hk => hd hk _ op hc

/-! ## The count of a group -/

instance (w : World) (l : Link) : Decidable (w.Alive l) := inferInstanceAs (Decidable (_ ∧ _))

/-- A group that is merged and not destroyed. -/
def World.LiveGroup (w : World) (l : Link) : Prop :=
  w.Alive l ∧ (w.rows l.syncId).type = .group ∧ (w.rows l.syncId).locked = false

/-- The children that were active at the merge and have since been neither
    signaled nor destroyed. -/
def World.pending (w : World) (l : Link) : List Link :=
  (w.actives l).filter fun k => w.final k = none ∧ w.Alive k

/-- The children whose signal is on its way to the group. -/
def World.comingIn (w : World) (l : Link) : List Link :=
  (w.waiting l).filter fun k => w.final k ≠ none

/-- A thread is in the middle of the signal of `k`, and `l` is among the parents
    it will visit. -/
def World.Signaling (w : World) (k l : Link) : Prop := ∃ t status,
  (w.thr t = .signalSynx k status ∧ l ∈ (w.rows k.syncId).parentsList) ∨
    ∃ parents, w.thr t = .signalParents k status parents ∧ l ∈ parents

/-- The count and the completion of a group. -/
structure GroupCounts (w : World) (l : Link) : Prop where
  count : (w.rows l.syncId).remaining = (w.pending l).length + (w.comingIn l).length
  comingIn : ∀ k ∈ w.comingIn l, w.Signaling k l
  signaled : (w.rows l.syncId).signaled = true ↔ (w.rows l.syncId).remaining = 0
  completed : w.final l ≠ none ↔ (w.rows l.syncId).remaining = 0
  dispatched : (w.rows l.syncId).remaining = 0 → (w.rows l.syncId).callbackList = [] ∧
    (w.eventq = true → (w.rows l.syncId).userPayloadList = [])
  success : (w.rows l.syncId).remaining = 0 → ((w.rows l.syncId).state = .signaledSuccess ↔
    ∀ k ∈ w.kids l, w.final k = some .signaledSuccess)
  failure : (w.rows l.syncId).remaining = 0 → (w.rows l.syncId).state ≠ .signaledSuccess →
    (w.rows l.syncId).state.failed = true

theorem GroupInv.signaling (hi : Inv w) (h : GroupInv True w) (hl : w.Alive l)
    (hk : k ∈ w.waiting l)
    (hf : w.final k ≠ none) : w.Signaling k l := by
  rcases h.reach trivial l hl k hk with ⟨i, rfl, hli⟩ | ⟨t, st, ps, ht, hlp⟩
  · -- the link is still in the row: the thread signals the synx object
    obtain ⟨t, st, ht⟩ := h.window i (fun ha => hf (hi.noFinal i ha)) (List.ne_nil_of_mem hli)
    exact ⟨t, st, .inl ⟨ht, hli⟩⟩
  · exact ⟨t, st, .inr ⟨ps, ht, hlp⟩⟩

theorem GroupInv.waiting_alive (hi : Inv w) (h : GroupInv True w) (hl : w.Alive l)
    (hk : k ∈ w.waiting l)
    (hf : w.final k = none) : w.Alive k := by
  rcases h.reach trivial l hl k hk with ⟨i, rfl, hli⟩ | ⟨t, st, ps, ht, hlp⟩
  · exact ⟨rfl, fun he => List.ne_nil_of_mem hli (hi.noParents i (.inl he))⟩
  · exact absurd hf (hi.owner t k (by rw [ht]; rfl))

theorem GroupInv.pending_length (hi : Inv w) (h : GroupInv True w) (hl : w.Alive l) :
    (w.pending l).length = ((w.waiting l).filter fun k => w.final k = none).length := by
  refine ((List.perm_ext_iff_of_nodup ((h.activesNodup l).filter _)
    ((hi.waitingNodup l).filter _)).2 fun k => ?_).length_eq
  simp only [List.mem_filter, decide_eq_true_eq]
  constructor
  · rintro ⟨hk, hf, -⟩
    exact ⟨by_contra fun hn => h.reached l k (h.activesKids l hk) hn hf, hf⟩
  · rintro ⟨hk, hf⟩
    exact ⟨h.waitingActives l hk, hf, h.waiting_alive hi hl hk hf⟩

/-- **The count of a group**, in every run that destroys no fence a live group
    waits for and whose signals meet the fences they mean. -/
theorem group_counts {eventq : Bool} (hw : ReachableUnder (fun w op => op.Careful w) eventq w)
    (hl : w.LiveGroup l) : GroupCounts w l := by
  have hi := inv_reachable (fun _ _ hc => hc.1) hw
  have h : GroupInv True w := groupInv_reachable (fun _ _ hc => hc.1) (fun _ _ _ hc => hc.2) hw
  obtain ⟨hal, hgroup, hlock⟩ := hl
  have hself : w.self l.syncId = l := w.self_eq hal.1.symm
  have hcount : (w.rows l.syncId).remaining = (w.waiting l).length := by
    rw [hi.count l.syncId fun hl => by simp [hlock] at hl, hself]
  have hzero : (w.rows l.syncId).remaining = 0 ↔ w.waiting l = [] := by
    rw [hcount, List.length_eq_zero_iff]
  have hdone := h.groupDone l.syncId hgroup hal.2 hlock
  have hwaits := h.groupWaits l.syncId hgroup hal.2
  have hfailed := h.failed l.syncId hgroup
  have hfine := h.fine l.syncId hgroup hal.2
  rw [hself] at hdone hwaits hfailed hfine
  constructor
  · rw [h.pending_length hi hal, World.comingIn, hcount,
      List.length_eq_length_filter_add fun k => decide (w.final k = none)]
    simp
  · intro k hk
    obtain ⟨hk, hf⟩ := List.mem_filter.1 hk
    exact h.signaling hi hal hk (by simpa using hf)
  · rw [hzero]
    exact ⟨fun hs => by_contra fun hne => by simp [(hwaits (.inr hne)).2] at hs,
      fun he => (hdone he).2.1⟩
  · rw [hzero]
    exact ⟨fun hs => by_contra fun hne => hs (hwaits (.inr hne)).1,
      fun he => by simp [(hdone he).1]⟩
  · exact fun he => ⟨(hdone (hzero.1 he)).2.2.2.1, (hdone (hzero.1 he)).2.2.2.2⟩
  · intro hz
    have hnil := hzero.1 hz
    obtain ⟨-, -, hna, -⟩ := hdone hnil
    constructor
    · intro hs k hk
      exact hfine (by rw [hs]; rfl) k hk (by simp [hnil])
    · intro hall
      refine FenceState.eq_success hal.2 hna ?_
      by_contra hf
      obtain ⟨k, hk, st, hkf, hst⟩ := hfailed (by simpa using hf)
      rw [hall k hk] at hkf
      obtain rfl := Option.some.inj hkf
      cases hst
  · intro hz hs
    by_contra hf
    exact hs (FenceState.eq_success hal.2 (hdone (hzero.1 hz)).2.2.1 (by simpa using hf))

instance (w : World) (op : Op) : Decidable (op.KeepsChildren w) :=
  match op with
  | .destroy _ i => inferInstanceAs (Decidable (∀ l ∈ (w.rows i).parentsList, ¬ w.Alive l))
  | .create .. | .mergeStart .. | .mergeCheck _ | .mergeInit .. | .mergeChild .. | .mergeEnd _
  | .mergeUndo _ | .mergeFail _ | .signal .. | .signalResume _ | .signalParent _ | .destroyChild _
  | .destroyParent _ | .destroyEnd _ | .getRef _ | .putRef _ | .registerCallback ..
  | .deregisterCallback .. | .registerPayload .. | .deregisterPayload .. => isTrue trivial

instance (w : World) (op : Op) : Decidable (op.Careful w) := inferInstanceAs (Decidable (_ ∧ _))

instance (w : World) (l : Link) : Decidable (w.LiveGroup l) :=
  inferInstanceAs (Decidable (_ ∧ _ ∧ _))

/-- The group 3 hears of the success of fence 1 and of the error of fence 2. -/
def completeOps : List Op :=
  signalOps ++ [.signalParent 1, .signal 1 2 .signaledError, .signalParent 1]

theorem group_counts_complete :
    GroupCounts (execAll (World.init true) completeOps) ⟨3, 0⟩ := by
  have hops : AllAllowed (fun w op => op.Careful w) (World.init true) completeOps := by
    simp only [completeOps, signalOps, mergeOps, List.cons_append, List.nil_append, AllAllowed,
      and_true]
    decide
  exact group_counts (ReachableUnder.execAll .init hops) (by decide)

/-! ## A child destroyed -/

/-- A child of the group 3 is destroyed before it is signaled. -/
def destroyOps : List Op :=
  mergeOps ++ [.destroy 0 1, .destroyParent 0, .destroyEnd 0]

/-- **A destroyed child**: the group 3 still counts it. -/
theorem destroyed_child : ¬ ∀ eventq w, ReachableUnder (fun _ _ => True) eventq w →
    ∀ l, w.LiveGroup l → GroupCounts w l := by
  intro h
  have hops : AllAllowed (fun _ _ => True) (World.init true) destroyOps := by
    simp only [destroyOps, mergeOps, List.cons_append, List.nil_append, AllAllowed, and_true]
    decide
  exact absurd (h true _ (ReachableUnder.execAll .init hops) ⟨3, 0⟩ (by decide)).count (by decide)

end Sm8850.CamSync
