/-
  No waiter on a timeline is left behind, as long as no fence comes too late.

  * `Inv`: an unsignaled fence is on the list of the timeline, ahead of its value, or
    in the hands of a destroy; a signaled one has passed, or the id is gone.
  * `Emptied`: once a destroy took the fences, the list stays empty.  It needs that no
    fence is added after that, which `addsInTime` says of a step.
  * **`fences_signaled`** is what follows for runs.
  * `fences_signaled_lateFence`: a thread that looked the timeline up before the destroy
    may add a fence after it, and nobody is left to signal it.
-/
import Sm8850.Kgsl.Timeline

namespace Sm8850.Kgsl.Timelines

variable {t t' t₀ : Timeline} {a : Act} {f g h seqno value : ℕ} {x y : Fence} {l temp : List ℕ}

/-! ## Invariant -/

/-- A destroy is under way. -/
def Holder.destroys : Holder → Prop
  | .idle | .holding => False
  | _ => True

/-- The destroy has taken the fences. -/
def Timeline.Spliced (t : Timeline) : Prop := t.published = false ∧ ∀ h, t.holder h ≠ .removed

/-- `kgsl_ioctl_timeline_destroy` has returned. -/
def Timeline.Destroyed (t : Timeline) : Prop :=
  t.published = false ∧ ∀ h, ¬ (t.holder h).destroys

/-- The fence is in the hands of a destroy, which is to signal it. -/
def Timeline.Doomed (t : Timeline) (f : ℕ) : Prop :=
  ∃ h temp, t.holder h = .spliced temp ∧ f ∈ temp

/-- The invariant. -/
structure Inv (t : Timeline) : Prop where
  placed : ∀ f x, t.fence f = some x → x.refcount ≠ 0 → x.signaled = false →
    f ∈ t.fences ∨ t.Doomed f
  ahead : ∀ f ∈ t.fences, ∃ x, t.fence f = some x ∧ (x.refcount ≠ 0 → t.value < x.seqno)
  passed : ∀ f x, t.fence f = some x → x.signaled = true →
    x.seqno ≤ t.value ∨ t.published = false
  busy : ∀ h, (t.holder h).destroys → t.published = false

/-- The list is empty once a destroy took the fences. -/
def Emptied (t : Timeline) : Prop := t.Spliced → t.fences = []

theorem inv_create (devPriv initial : ℕ) : Inv (.create devPriv initial) where
  placed _ _ hx := (nomatch hx)
  ahead _ hf := absurd hf List.not_mem_nil
  passed _ _ hx := (nomatch hx)
  busy _ hd := hd.elim

/-! ## Steps -/

theorem setHolder_apply (t : Timeline) (h : ℕ) (x : Holder) (h' : ℕ) :
    (t.setHolder h x).holder h' = if h' = h then x else t.holder h' :=
  Function.update_apply _ _ _ _

theorem setFence_apply (t : Timeline) (f : ℕ) (x : Fence) (g : ℕ) :
    (t.setFence f x).fence g = if g = f then some x else t.fence g :=
  Function.update_apply _ _ _ _

theorem mem_addFence {fence : ℕ → Option Fence} :
    g ∈ kgslTimelineAddFence fence f seqno l ↔ g = f ∨ g ∈ l := by
  induction l with
  | nil => exact List.mem_cons
  | cons e l ih =>
    unfold kgslTimelineAddFence
    split
    · exact List.mem_cons
    · rw [List.mem_cons, ih, List.mem_cons]
      exact or_left_comm

theorem alive_iff : t.alive f = true ↔ ∃ x, t.fence f = some x ∧ x.refcount ≠ 0 := by
  unfold Timeline.alive
  rw [Option.any_eq_true]
  simp only [decide_eq_true_eq]

theorem passed_iff :
    t.passed value f = true ↔ ∃ x, t.fence f = some x ∧ x.seqno ≤ value ∧ x.refcount ≠ 0 := by
  unfold Timeline.passed timelineFenceSignaled
  rw [Option.any_eq_true]
  simp only [Bool.and_eq_true, decide_eq_true_eq]

/-- A holder that is no destroy comes and goes. -/
theorem Inv.setHolder (hi : Inv t) (n : ℕ) (hold : ∀ temp, t.holder h ≠ .spliced temp)
    {x : Holder} (hx : ¬ x.destroys) : Inv ({ t with ref := n }.setHolder h x) where
  placed f y hy hlive hun := by
    refine (hi.placed f y hy hlive hun).imp_right fun ⟨h', temp, hh', hf⟩ => ⟨h', temp, ?_, hf⟩
    rw [setHolder_apply, if_neg]
    · exact hh'
    · exact fun heq => hold temp (heq ▸ hh')
  ahead := hi.ahead
  passed := hi.passed
  busy h' hd := by
    rw [setHolder_apply] at hd
    split at hd
    · exact absurd hd hx
    · exact hi.busy h' hd

/-- The references of a fence change. -/
theorem Inv.setCounts (hi : Inv t) (hx : t.fence f = some x) (hlive : x.refcount ≠ 0) (m n : ℕ) :
    Inv (t.setFence f { x with users := m, refcount := n }) where
  placed g y hy hlive' hun := by
    rw [setFence_apply] at hy
    split at hy
    · rename_i heq
      obtain rfl := Option.some.inj hy
      exact heq ▸ hi.placed f x hx hlive hun
    · exact hi.placed g y hy hlive' hun
  ahead g hg := by
    obtain ⟨y, hy, hlt⟩ := hi.ahead g hg
    by_cases heq : g = f
    · subst heq
      obtain rfl := Option.some.inj (hx.symm.trans hy)
      exact ⟨_, (setFence_apply _ _ _ _).trans (if_pos rfl), fun _ => hlt hlive⟩
    · exact ⟨y, (setFence_apply _ _ _ _).trans ((if_neg heq).trans hy), hlt⟩
  passed g y hy hs := by
    rw [setFence_apply] at hy
    split at hy
    · obtain rfl := Option.some.inj hy
      exact hi.passed f x hx hs
    · exact hi.passed g y hy hs
  busy := hi.busy

/-- A waiter finds that a fence has passed. -/
theorem Inv.isSignaled (hi : Inv t) (hx : t.fence f = some x) :
    Inv (dmaFenceIsSignaled t f x) := by
  unfold dmaFenceIsSignaled
  split
  · rename_i hle
    have hle : x.seqno ≤ t.value := of_decide_eq_true hle
    refine ⟨fun g y hy hlive' hun => ?_, fun g hg => ?_, fun g y hy hs => ?_, hi.busy⟩
    · rw [setFence_apply] at hy
      split at hy
      · obtain rfl := Option.some.inj hy
        cases hun
      · exact hi.placed g y hy hlive' hun
    · obtain ⟨y, hy, hlt⟩ := hi.ahead g hg
      by_cases heq : g = f
      · subst heq
        obtain rfl := Option.some.inj (hx.symm.trans hy)
        exact ⟨_, (setFence_apply _ _ _ _).trans (if_pos rfl), hlt⟩
      · exact ⟨y, (setFence_apply _ _ _ _).trans ((if_neg heq).trans hy), hlt⟩
    · rw [setFence_apply] at hy
      split at hy
      · obtain rfl := Option.some.inj hy
        exact .inl hle
      · exact hi.passed g y hy hs
  · exact hi

theorem Inv.release (hi : Inv t) (hx : t.fence f = some x) (hdead : x.refcount = 0) :
    Inv (timelineFenceRelease t f x) := by
  have hfence : ∀ g y, (timelineFenceRelease t f x).fence g = some y →
      g = f ∧ y = { x with released := true } ∨ g ≠ f ∧ t.fence g = some y := by
    intro g y hy
    have hy : (t.setFence f { x with released := true }).fence g = some y := hy
    rw [setFence_apply] at hy
    split at hy
    · rename_i heq
      exact .inl ⟨heq, (Option.some.inj hy).symm⟩
    · rename_i hne
      exact .inr ⟨hne, hy⟩
  refine ⟨fun g y hy hlive hun => ?_, fun g hg => ?_, fun g y hy hs => ?_, hi.busy⟩
  · rcases hfence g y hy with ⟨-, rfl⟩ | ⟨hne, hy⟩
    · exact absurd hdead hlive
    · exact (hi.placed g y hy hlive hun).imp_left (List.mem_erase_of_ne hne).2
  · obtain ⟨y, hy, hlt⟩ := hi.ahead g (List.mem_of_mem_erase hg)
    by_cases heq : g = f
    · exact ⟨_, (setFence_apply _ _ _ _).trans (if_pos heq), fun hlive => absurd hdead hlive⟩
    · exact ⟨y, (setFence_apply _ _ _ _).trans ((if_neg heq).trans hy), hlt⟩
  · rcases hfence g y hy with ⟨-, rfl⟩ | ⟨-, hy⟩
    · exact hi.passed f x hx hs
    · exact hi.passed g y hy hs

/-- A new fence has passed already, or goes on the list ahead of the value. -/
theorem Inv.fenceAlloc (hi : Inv t) (hnew : t.fence f = none) :
    Inv (kgslTimelineFenceAlloc t f seqno) := by
  have hne : ∀ g y, t.fence g = some y → g ≠ f := fun g y hy heq => by
    rw [heq, hnew] at hy
    cases hy
  simp only [kgslTimelineFenceAlloc]
  split
  · rename_i hle
    have hle : seqno ≤ t.value := of_decide_eq_true hle
    refine ⟨fun g y hy hlive hun => ?_, fun g hg => ?_, fun g y hy hs => ?_, hi.busy⟩
    · rw [setFence_apply] at hy
      split at hy
      · obtain rfl := Option.some.inj hy
        cases hun
      · exact hi.placed g y hy hlive hun
    · obtain ⟨y, hy, hlt⟩ := hi.ahead g hg
      exact ⟨y, (setFence_apply _ _ _ _).trans ((if_neg (hne g y hy)).trans hy), hlt⟩
    · rw [setFence_apply] at hy
      split at hy
      · obtain rfl := Option.some.inj hy
        exact .inl hle
      · exact hi.passed g y hy hs
  · rename_i hlt
    have hlt : t.value < seqno := Nat.lt_of_not_le fun hle => hlt (decide_eq_true hle)
    refine ⟨fun g y hy hlive hun => ?_, fun g hg => ?_, fun g y hy hs => ?_, hi.busy⟩
    · have hy : (t.setFence f ⟨seqno, 1, 1, false, false, false⟩).fence g = some y := hy
      rw [setFence_apply] at hy
      split at hy
      · rename_i heq
        exact .inl (mem_addFence.2 (.inl heq))
      · exact (hi.placed g y hy hlive hun).imp_left fun hg => mem_addFence.2 (.inr hg)
    · rcases mem_addFence.1 hg with heq | hg
      · exact ⟨_, (setFence_apply _ _ _ _).trans (if_pos heq), fun _ => hlt⟩
      · obtain ⟨y, hy, hlt⟩ := hi.ahead g hg
        exact ⟨y, (setFence_apply _ _ _ _).trans ((if_neg (hne g y hy)).trans hy), hlt⟩
    · have hy : (t.setFence f ⟨seqno, 1, 1, false, false, false⟩).fence g = some y := hy
      rw [setFence_apply] at hy
      split at hy
      · obtain rfl := Option.some.inj hy
        cases hs
      · exact hi.passed g y hy hs

theorem mapFences_apply (t : Timeline) (l : List ℕ) (k : Fence → Fence) (g : ℕ) :
    (t.mapFences l k).fence g = if g ∈ l then (t.fence g).map k else t.fence g := rfl

/-- `kgsl_timeline_signal` signals what its value has passed. -/
theorem Inv.signal (hi : Inv t) : Inv (kgslTimelineSignal t seqno) := by
  unfold kgslTimelineSignal
  split
  · exact hi
  · rename_i hge
    have hge : t.value ≤ seqno := Nat.le_of_not_lt hge
    refine ⟨fun g y hy hlive hun => ?_, fun g hg => ?_, fun g y hy hs => ?_, hi.busy⟩
    · have hy : (t.mapFences (t.fences.filter (t.passed seqno)) _).fence g = some y := hy
      rw [mapFences_apply] at hy
      split at hy
      · obtain ⟨y₀, -, rfl⟩ := Option.map_eq_some_iff.1 hy
        cases hun
      · rename_i hnot
        refine (hi.placed g y hy hlive hun).imp_left fun hg => List.mem_filter.2 ⟨hg, ?_⟩
        rw [Bool.not_eq_true']
        exact Bool.eq_false_iff.2 fun hp => hnot (List.mem_filter.2 ⟨hg, hp⟩)
    · obtain ⟨hg, hno⟩ := List.mem_filter.1 hg
      rw [Bool.not_eq_true'] at hno
      obtain ⟨y, hy, -⟩ := hi.ahead g hg
      refine ⟨y, (mapFences_apply _ _ _ _).trans ((if_neg fun hp => ?_).trans hy),
        fun hlive => Nat.lt_of_not_le fun hle => ?_⟩
      · rw [(List.mem_filter.1 hp).2] at hno
        cases hno
      · rw [passed_iff.2 ⟨y, hy, hle, hlive⟩] at hno
        cases hno
    · have hy : (t.mapFences (t.fences.filter (t.passed seqno)) _).fence g = some y := hy
      rw [mapFences_apply] at hy
      split at hy
      · rename_i hpass
        obtain ⟨y₀, hy₀, rfl⟩ := Option.map_eq_some_iff.1 hy
        obtain ⟨y₁, hy₁, hle, -⟩ := passed_iff.1 (List.mem_filter.1 hpass).2
        obtain rfl := Option.some.inj (hy₀.symm.trans hy₁)
        exact .inl hle
      · exact (hi.passed g y hy hs).imp_left fun hle => Nat.le_trans hle hge

theorem Inv.remove (hi : Inv t) (hold : ∀ temp, t.holder h ≠ .spliced temp) :
    Inv ({ t with published := false }.setHolder h .removed) where
  placed f y hy hlive hun := by
    refine (hi.placed f y hy hlive hun).imp_right fun ⟨h', temp, hh', hf⟩ => ⟨h', temp, ?_, hf⟩
    rw [setHolder_apply, if_neg]
    · exact hh'
    · exact fun heq => hold temp (heq ▸ hh')
  ahead := hi.ahead
  passed _ _ _ _ := .inr rfl
  busy _ _ := rfl

/-- The fences go from the list of the timeline to that of the destroy. -/
theorem Inv.splice (hi : Inv t) (hold : t.holder h = .removed) : Inv (destroySplice t h) := by
  have hmap : ∀ g y, (destroySplice t h).fence g = some y →
      ∃ y₀, t.fence g = some y₀ ∧ (y.refcount ≠ 0 → y₀.refcount ≠ 0) ∧
        y.signaled = y₀.signaled := by
    intro g y hy
    have hy : (t.mapFences (t.fences.filter t.alive) _).fence g = some y := hy
    rw [mapFences_apply] at hy
    split at hy
    · rename_i hg
      obtain ⟨y₁, hy₁, hlive⟩ := alive_iff.1 (List.mem_filter.1 hg).2
      obtain ⟨y₀, hy₀, rfl⟩ := Option.map_eq_some_iff.1 hy
      obtain rfl := Option.some.inj (hy₀.symm.trans hy₁)
      exact ⟨y₀, hy₀, fun _ => hlive, rfl⟩
    · exact ⟨y, hy, id, rfl⟩
  have hbusy : t.published = false := hi.busy h (hold ▸ trivial)
  refine ⟨fun g y hy hlive hun => .inr ?_, fun _ hg => absurd hg List.not_mem_nil,
    fun _ _ _ _ => .inr hbusy, fun _ _ => hbusy⟩
  obtain ⟨y₀, hy₀, hlive₀, hs⟩ := hmap g y hy
  rcases hi.placed g y₀ hy₀ (hlive₀ hlive) (hs ▸ hun) with hg | ⟨h', temp, hh', hg⟩
  · refine ⟨h, _, (setHolder_apply _ _ _ _).trans (if_pos rfl), List.mem_filter.2 ⟨hg, ?_⟩⟩
    exact alive_iff.2 ⟨y₀, hy₀, hlive₀ hlive⟩
  · have hne : h' ≠ h := fun heq => by
      subst heq
      cases hold.symm.trans hh'
    exact ⟨h', temp, (setHolder_apply _ _ _ _).trans ((if_neg hne).trans hh'), hg⟩

/-- The destroy signals what it has taken. -/
theorem Inv.destroySignal (hi : Inv t) (hold : t.holder h = .spliced temp) :
    Inv (destroySignal t h temp) := by
  have hbusy : t.published = false := hi.busy h (hold ▸ trivial)
  refine ⟨fun g y hy hlive hun => ?_, fun g hg => ?_, fun _ _ _ _ => .inr hbusy, fun _ _ => hbusy⟩
  · have hy : (t.mapFences temp _).fence g = some y := hy
    rw [mapFences_apply] at hy
    split at hy
    · obtain ⟨y₀, -, rfl⟩ := Option.map_eq_some_iff.1 hy
      cases hun
    · rename_i hnot
      refine (hi.placed g y hy hlive hun).imp_right fun ⟨h', temp', hh', hg⟩ => ?_
      have hne : h' ≠ h := fun heq => by
        subst heq
        obtain rfl := Holder.spliced.inj (hold.symm.trans hh')
        exact hnot hg
      exact ⟨h', temp', (setHolder_apply _ _ _ _).trans ((if_neg hne).trans hh'), hg⟩
  · obtain ⟨y, hy, hlt⟩ := hi.ahead g hg
    by_cases hmem : g ∈ temp
    · refine ⟨_, (mapFences_apply _ _ _ _).trans ((if_pos hmem).trans (congrArg _ hy)),
        fun hlive => hlt fun h0 => hlive ?_⟩
      show y.refcount - 1 = 0
      omega
    · exact ⟨y, (mapFences_apply _ _ _ _).trans ((if_neg hmem).trans hy), hlt⟩

/-! ## Runs -/

/-- A fence is added before a destroy takes the fences, or has passed already. -/
def addsInTime (t : Timeline) : Act → Prop
  | .fenceAlloc _ _ seqno => t.Spliced → seqno ≤ t.value
  | _ => True

/-- **A step keeps the invariant**, whatever it is. -/
theorem Inv.step (hi : Inv t) (hs : step t a = some t') : Inv t' := by
  cases a with
  | byId h =>
    simp only [Timelines.step] at hs
    split at hs
    · rename_i hc
      obtain rfl := Option.some.inj hs
      exact hi.setHolder _ (fun temp heq => by cases hc.2.2.symm.trans heq) id
    · cases hs
  | put h | destroyPut h =>
    simp only [Timelines.step] at hs
    split at hs
    · rename_i hc
      obtain rfl := Option.some.inj hs
      exact hi.setHolder _ (fun temp heq => by cases hc.symm.trans heq) id
    · cases hs
  | fenceAlloc h f seqno =>
    simp only [Timelines.step] at hs
    split at hs
    · rename_i hc
      obtain rfl := Option.some.inj hs
      exact hi.fenceAlloc hc.2
    · cases hs
  | addSignal h signal =>
    simp only [Timelines.step] at hs
    split at hs
    · obtain rfl := Option.some.inj hs
      unfold kgslTimelineAddSignal
      split
      · exact hi
      · exact ⟨hi.placed, hi.ahead, hi.passed, hi.busy⟩
    · cases hs
  | signal h seqno =>
    simp only [Timelines.step] at hs
    split at hs
    · obtain rfl := Option.some.inj hs
      exact hi.signal
    · cases hs
  | destroyRemove h devPriv =>
    simp only [Timelines.step] at hs
    split at hs
    · rename_i hc
      obtain rfl := Option.some.inj hs
      exact hi.remove fun temp heq => by cases hc.2.2.symm.trans heq
    · cases hs
  | destroySplice h =>
    simp only [Timelines.step] at hs
    split at hs
    · rename_i hc
      obtain rfl := Option.some.inj hs
      exact hi.splice hc
    · cases hs
  | destroySignal h =>
    simp only [Timelines.step] at hs
    split at hs
    · rename_i temp hc
      obtain rfl := Option.some.inj hs
      exact hi.destroySignal hc
    · cases hs
  | fenceGet f | fencePut f =>
    obtain ⟨x, hx, hs⟩ := Option.bind_eq_some_iff.1 hs
    split at hs
    · rename_i hc
      obtain rfl := Option.some.inj hs
      exact hi.setCounts hx hc.2 _ _
    · cases hs
  | fenceRelease f =>
    obtain ⟨x, hx, hs⟩ := Option.bind_eq_some_iff.1 hs
    split at hs
    · rename_i hc
      obtain rfl := Option.some.inj hs
      exact hi.release hx hc.1
    · cases hs
  | isSignaled f =>
    obtain ⟨x, hx, hs⟩ := Option.bind_eq_some_iff.1 hs
    split at hs
    · obtain rfl := Option.some.inj hs
      exact hi.isSignaled hx
    · cases hs

/-- The list stays empty if a step adds nothing to it. -/
theorem Emptied.mono (he : Emptied t) (hpub : t'.published = false → t.published = false)
    (hholder : ∀ h, t.holder h = .removed → t'.holder h = .removed)
    (hfences : t.fences = [] → t'.fences = []) : Emptied t' := fun hs =>
  hfences (he ⟨hpub hs.1, fun h hh => hs.2 h (hholder h hh)⟩)

theorem Emptied.setHolder (he : Emptied t) (n : ℕ) {x : Holder} (hold : t.holder h ≠ .removed) :
    Emptied ({ t with ref := n }.setHolder h x) := by
  refine he.mono id (fun h' hh' => ?_) id
  rw [setHolder_apply, if_neg]
  · exact hh'
  · exact fun heq => hold (heq ▸ hh')

/-- A step keeps the list empty if it adds a fence in time. -/
theorem Emptied.step (he : Emptied t) (ha : addsInTime t a) (hs : step t a = some t') :
    Emptied t' := by
  cases a with
  | byId h =>
    simp only [Timelines.step] at hs
    split at hs
    · rename_i hc
      obtain rfl := Option.some.inj hs
      exact he.setHolder _ fun heq => by cases hc.2.2.symm.trans heq
    · cases hs
  | put h | destroyPut h =>
    simp only [Timelines.step] at hs
    split at hs
    · rename_i hc
      obtain rfl := Option.some.inj hs
      exact he.setHolder _ fun heq => by cases hc.symm.trans heq
    · cases hs
  | fenceAlloc h f seqno =>
    simp only [Timelines.step] at hs
    split at hs
    · obtain rfl := Option.some.inj hs
      simp only [kgslTimelineFenceAlloc]
      split
      · exact he.mono id (fun _ => id) id
      · rename_i hlate
        exact fun hsp => absurd (decide_eq_true (ha hsp)) hlate
    · cases hs
  | addSignal h signal =>
    simp only [Timelines.step] at hs
    split at hs
    · obtain rfl := Option.some.inj hs
      unfold kgslTimelineAddSignal
      split
      · exact he
      · exact he.mono id (fun _ => id) id
    · cases hs
  | signal h seqno =>
    simp only [Timelines.step] at hs
    split at hs
    · obtain rfl := Option.some.inj hs
      unfold kgslTimelineSignal
      split
      · exact he
      · exact he.mono id (fun _ => id) fun hnil => by rw [hnil]; rfl
    · cases hs
  | destroyRemove h devPriv =>
    simp only [Timelines.step] at hs
    split at hs
    · obtain rfl := Option.some.inj hs
      exact fun hsp => absurd ((setHolder_apply _ _ _ _).trans (if_pos rfl)) (hsp.2 h)
    · cases hs
  | destroySplice h =>
    simp only [Timelines.step] at hs
    split at hs
    · obtain rfl := Option.some.inj hs
      exact fun _ => rfl
    · cases hs
  | destroySignal h =>
    simp only [Timelines.step] at hs
    split at hs
    · rename_i temp hc
      obtain rfl := Option.some.inj hs
      refine he.mono id (fun h' hh' => ?_) id
      refine (setHolder_apply _ _ _ _).trans ((if_neg fun heq => ?_).trans hh')
      cases (heq ▸ hh').symm.trans hc
    · cases hs
  | fenceGet f | fencePut f =>
    obtain ⟨x, hx, hs⟩ := Option.bind_eq_some_iff.1 hs
    split at hs
    · obtain rfl := Option.some.inj hs
      exact he.mono id (fun _ => id) id
    · cases hs
  | fenceRelease f =>
    obtain ⟨x, hx, hs⟩ := Option.bind_eq_some_iff.1 hs
    split at hs
    · obtain rfl := Option.some.inj hs
      exact he.mono id (fun _ => id) fun hnil => by
        show t.fences.erase f = []
        rw [hnil]
        rfl
    · cases hs
  | isSignaled f =>
    obtain ⟨x, hx, hs⟩ := Option.bind_eq_some_iff.1 hs
    split at hs
    · obtain rfl := Option.some.inj hs
      unfold dmaFenceIsSignaled
      split
      · exact he.mono id (fun _ => id) id
      · exact he
    · cases hs

/-- The runs from `t₀` all of whose steps are `allowed`. -/
inductive Run (allowed : Timeline → Act → Prop) (t₀ : Timeline) : Timeline → Prop
  | refl : Run allowed t₀ t₀
  | step {t t' : Timeline} {a : Act} (ht : Run allowed t₀ t) (ha : allowed t a)
      (hs : step t a = some t') : Run allowed t₀ t'

theorem Run.inv {devPriv initial : ℕ} (h : Run addsInTime (.create devPriv initial) t) :
    Inv t ∧ Emptied t := by
  induction h with
  | refl => exact ⟨inv_create devPriv initial, fun _ => rfl⟩
  | step _ ha hs ih => exact ⟨ih.1.step hs, ih.2.step ha hs⟩

theorem kgslTimelineSignal_value (t : Timeline) (seqno : ℕ) :
    (kgslTimelineSignal t seqno).value = max seqno t.value := by
  unfold kgslTimelineSignal
  split
  · omega
  · show seqno = max seqno t.value
    omega

/-- What has passed is signaled, or a destroy is about to signal it. -/
theorem Inv.signaled (hi : Inv t) (hx : t.fence f = some x) (hlive : x.refcount ≠ 0)
    (hle : x.seqno ≤ t.value) : x.signaled = true ∨ t.Doomed f := by
  cases hs : x.signaled with
  | true => exact .inl rfl
  | false =>
    refine .inr ((hi.placed f x hx hlive hs).resolve_left fun hf => ?_)
    obtain ⟨y, hy, hlt⟩ := hi.ahead f hf
    obtain rfl := Option.some.inj (hx.symm.trans hy)
    exact absurd hle (Nat.not_le_of_lt (hlt hlive))

/-- **No waiter is left behind** on a timeline whose fences are added in time.  A fence
    is signaled only when it has passed or the timeline was destroyed; a signal raises the
    value, and then every live fence it has passed is signaled, or a destroy that has
    taken it signals it with its next section; once a destroy has returned, every live
    fence is signaled. -/
theorem fences_signaled {devPriv initial : ℕ} {t : Timeline}
    (h : Run addsInTime (.create devPriv initial) t) :
    (∀ f x, t.fence f = some x → x.signaled = true → x.seqno ≤ t.value ∨ t.published = false) ∧
    (∀ h seqno t', step t (.signal h seqno) = some t' →
      t'.value = max seqno t.value ∧
      ∀ f x, t'.fence f = some x → x.refcount ≠ 0 → x.seqno ≤ t'.value →
        x.signaled = true ∨ t'.Doomed f) ∧
    (∀ h temp, t.holder h = .spliced temp → ∃ t', step t (.destroySignal h) = some t' ∧
      ∀ f ∈ temp, ∀ x, t'.fence f = some x → x.signaled = true) ∧
    (t.Destroyed → ∀ f x, t.fence f = some x → x.refcount ≠ 0 → x.signaled = true) := by
  obtain ⟨hi, he⟩ := h.inv
  refine ⟨hi.passed, fun h seqno t' hs => ?_, fun h temp hh => ?_, fun hd f x hx hlive => ?_⟩
  · have hi' := hi.step hs
    simp only [step] at hs
    split at hs
    · obtain rfl := Option.some.inj hs
      exact ⟨kgslTimelineSignal_value t seqno, fun f x => hi'.signaled⟩
    · cases hs
  · refine ⟨destroySignal t h temp, by simp only [step, hh], fun f hf x hx => ?_⟩
    have hx : (t.mapFences temp _).fence f = some x := hx
    rw [mapFences_apply, if_pos hf] at hx
    obtain ⟨y, -, rfl⟩ := Option.map_eq_some_iff.1 hx
    rfl
  · have hnil : t.fences = [] := he ⟨hd.1, fun h hh => hd.2 h (hh ▸ trivial)⟩
    by_contra hun
    rcases hi.placed f x hx hlive (Bool.eq_false_iff.2 hun) with hf | ⟨h, temp, hh, -⟩
    · exact absurd (hnil ▸ hf) List.not_mem_nil
    · exact hd.2 h (hh ▸ trivial)

/-! ## Examples of runs -/

/-- Several steps. -/
def exec (t : Timeline) : List Act → Option Timeline
  | [] => some t
  | a :: acts => (step t a).bind fun t => exec t acts

/-- Who takes the step. -/
def Act.holder : Act → Option ℕ
  | .byId h | .put h | .fenceAlloc h _ _ | .addSignal h _ | .signal h _ => some h
  | .destroyRemove h _ | .destroySplice h | .destroySignal h | .destroyPut h => some h
  | .fenceGet _ | .fencePut _ | .fenceRelease _ | .isSignaled _ => none

/-- A step of somebody else leaves a holder what it is. -/
theorem step_holder (hs : step t a = some t') (hne : a.holder ≠ some h) :
    t'.holder h = t.holder h := by
  have hset : ∀ (t : Timeline) (h' : ℕ) (x : Holder), some h' ≠ some h →
      (t.setHolder h' x).holder h = t.holder h := fun t h' x hne =>
    (setHolder_apply t h' x h).trans (if_neg fun heq => hne (congrArg some heq.symm))
  cases a with
  | byId h' | put h' | destroyRemove h' _ | destroySplice h' | destroySignal h' | destroyPut h' =>
    simp only [Timelines.step] at hs
    split at hs
    · obtain rfl := Option.some.inj hs
      exact hset _ _ _ hne
    · cases hs
  | fenceAlloc h' f seqno =>
    simp only [Timelines.step] at hs
    split at hs
    · obtain rfl := Option.some.inj hs
      simp only [kgslTimelineFenceAlloc]
      split <;> rfl
    · cases hs
  | addSignal h' signal =>
    simp only [Timelines.step] at hs
    split at hs
    · obtain rfl := Option.some.inj hs
      unfold kgslTimelineAddSignal
      split <;> rfl
    · cases hs
  | signal h' seqno =>
    simp only [Timelines.step] at hs
    split at hs
    · obtain rfl := Option.some.inj hs
      unfold kgslTimelineSignal
      split <;> rfl
    · cases hs
  | fenceGet f | fencePut f | fenceRelease f | isSignaled f =>
    obtain ⟨x, -, hs⟩ := Option.bind_eq_some_iff.1 hs
    split at hs
    · obtain rfl := Option.some.inj hs
      first
      | rfl
      | (unfold dmaFenceIsSignaled
         split <;> rfl)
    · cases hs

theorem exec_holder {acts : List Act} (he : exec t acts = some t')
    (hne : ∀ a ∈ acts, a.holder ≠ some h) : t'.holder h = t.holder h := by
  induction acts generalizing t with
  | nil => exact congrArg (fun t => t.holder h) (Option.some.inj he).symm
  | cons a acts ih =>
    obtain ⟨t₁, hs, he⟩ := Option.bind_eq_some_iff.1 he
    exact (ih he fun a ha => hne a (List.mem_cons_of_mem _ ha)).trans
      (step_holder hs (hne a List.mem_cons_self))

/-- Where several steps lead. -/
def after (acts : List Act) : Timeline := (exec (.create 7 0) acts).getD (.create 7 0)

/-- Two fences are waited for; the timeline passes one of them and is destroyed. -/
def twoFences : List Act :=
  [.byId 1, .fenceAlloc 1 1 3, .fenceAlloc 1 2 5, .signal 1 4, .destroyRemove 2 7,
    .destroySplice 2, .destroySignal 2, .destroyPut 2]

theorem twoFences_destroyed : (after twoFences).Destroyed := by
  refine ⟨rfl, fun h hh => ?_⟩
  by_cases h₁ : h = 1
  · subst h₁
    exact hh
  by_cases h₂ : h = 2
  · subst h₂
    exact hh
  have hne : ∀ a ∈ twoFences, a.holder ≠ some h := by
    simp only [twoFences, List.forall_mem_cons, Act.holder, ne_eq, Option.some.injEq]
    exact ⟨Ne.symm h₁, Ne.symm h₁, Ne.symm h₁, Ne.symm h₁, Ne.symm h₂, Ne.symm h₂, Ne.symm h₂,
      Ne.symm h₂, fun _ ha => absurd ha List.not_mem_nil⟩
  have he : exec (.create 7 0) twoFences = some (after twoFences) := rfl
  rw [exec_holder he hne] at hh
  exact hh

theorem fences_signaled_two : (after twoFences).Destroyed ∧
    ∀ f x, (after twoFences).fence f = some x → x.refcount ≠ 0 → x.signaled = true := by
  have h₀ : Run addsInTime (.create 7 0) (.create 7 0) := .refl
  have h₁ := h₀.step (a := .byId 1) trivial rfl
  have h₂ := h₁.step (a := .fenceAlloc 1 1 3) (fun hs => by cases hs.1) rfl
  have h₃ := h₂.step (a := .fenceAlloc 1 2 5) (fun hs => by cases hs.1) rfl
  have h₄ := h₃.step (a := .signal 1 4) trivial rfl
  have h₅ := h₄.step (a := .destroyRemove 2 7) trivial rfl
  have h₆ := h₅.step (a := .destroySplice 2) trivial rfl
  have h₇ := h₆.step (a := .destroySignal 2) trivial rfl
  have h₈ : Run addsInTime (.create 7 0) (after twoFences) :=
    h₇.step (a := .destroyPut 2) trivial rfl
  exact ⟨twoFences_destroyed, (fences_signaled h₈).2.2.2 twoFences_destroyed⟩

/-! ## A fence that comes too late -/

/-- Nobody is left to signal the fence. -/
structure Stranded (f : ℕ) (t : Timeline) : Prop where
  unpublished : t.published = false
  idle : ∀ h, t.holder h = .idle
  waits : ∃ x, t.fence f = some x ∧ x.signaled = false ∧ t.value < x.seqno

/-- **A stranded fence stays so**, whatever happens. -/
theorem Stranded.step (hst : Stranded f t) (hs : step t a = some t') : Stranded f t' := by
  have hset : ∀ g x' n l,
      (∃ x, t.fence g = some x ∧ x'.signaled = x.signaled ∧ x'.seqno = x.seqno) →
      Stranded f { t.setFence g x' with ref := n, fences := l } := by
    rintro g x' n l ⟨x, hx, hsig, hseq⟩
    obtain ⟨y, hy, hun, hlt⟩ := hst.waits
    refine ⟨hst.unpublished, hst.idle, ?_⟩
    by_cases heq : f = g
    · subst heq
      obtain rfl := Option.some.inj (hx.symm.trans hy)
      exact ⟨x', (setFence_apply _ _ _ _).trans (if_pos rfl), hsig.trans hun, hseq ▸ hlt⟩
    · exact ⟨y, (setFence_apply _ _ _ _).trans ((if_neg heq).trans hy), hun, hlt⟩
  cases a with
  | byId h | destroyRemove h _ =>
    simp only [Timelines.step, hst.unpublished, Bool.false_eq_true, false_and, if_false] at hs
    cases hs
  | put h | fenceAlloc h _ _ | addSignal h _ | signal h _ | destroySplice h | destroySignal h
  | destroyPut h =>
    simp only [Timelines.step, hst.idle h, reduceCtorEq, false_and, if_false] at hs
  | fenceGet g | fencePut g =>
    obtain ⟨x, hx, hs⟩ := Option.bind_eq_some_iff.1 hs
    split at hs
    · obtain rfl := Option.some.inj hs
      exact hset g _ t.ref t.fences ⟨x, hx, rfl, rfl⟩
    · cases hs
  | fenceRelease g =>
    obtain ⟨x, hx, hs⟩ := Option.bind_eq_some_iff.1 hs
    split at hs
    · obtain rfl := Option.some.inj hs
      exact hset g _ (t.ref - 1) (t.fences.erase g) ⟨x, hx, rfl, rfl⟩
    · cases hs
  | isSignaled g =>
    obtain ⟨x, hx, hs⟩ := Option.bind_eq_some_iff.1 hs
    split at hs
    · obtain rfl := Option.some.inj hs
      unfold dmaFenceIsSignaled
      split
      · rename_i hle
        have hle : x.seqno ≤ t.value := of_decide_eq_true hle
        obtain ⟨y, hy, hun, hlt⟩ := hst.waits
        refine ⟨hst.unpublished, hst.idle, y, ?_, hun, hlt⟩
        refine (setFence_apply _ _ _ _).trans ((if_neg fun heq => ?_).trans hy)
        subst heq
        obtain rfl := Option.some.inj (hx.symm.trans hy)
        omega
      · exact hst
    · cases hs

theorem Stranded.run {allowed : Timeline → Act → Prop} (hst : Stranded f t₀)
    (h : Run allowed t₀ t) : Stranded f t := by
  induction h with
  | refl => exact hst
  | step _ _ hs ih => exact ih.step hs

/-- Somebody looks the timeline up, it is destroyed, and then the fence is added. -/
def lateFence : List Act :=
  [.byId 1, .destroyRemove 2 7, .destroySplice 2, .destroySignal 2, .destroyPut 2,
    .fenceAlloc 1 1 5, .put 1]

theorem lateFence_stranded : Stranded 1 (after lateFence) := by
  refine ⟨rfl, fun h => ?_, _, rfl, rfl, by decide⟩
  by_cases h₁ : h = 1
  · subst h₁
    rfl
  by_cases h₂ : h = 2
  · subst h₂
    rfl
  have hne : ∀ a ∈ lateFence, a.holder ≠ some h := by
    simp only [lateFence, List.forall_mem_cons, Act.holder, ne_eq, Option.some.injEq]
    exact ⟨Ne.symm h₁, Ne.symm h₂, Ne.symm h₂, Ne.symm h₂, Ne.symm h₂, Ne.symm h₁, Ne.symm h₁,
      fun _ ha => absurd ha List.not_mem_nil⟩
  have he : exec (.create 7 0) lateFence = some (after lateFence) := rfl
  exact exec_holder he hne

/-- The destroy has returned, and the fence stays unsignaled in every run from then on. -/
theorem fences_signaled_lateFence : ¬ ∀ t, Run (fun _ _ => True) (.create 7 0) t →
    t.Destroyed → ∀ f x, t.fence f = some x → x.refcount ≠ 0 →
      ∃ t', Run (fun _ _ => True) t t' ∧ ∃ x', t'.fence f = some x' ∧ x'.signaled = true := by
  intro hall
  have h₀ : Run (fun _ _ => True) (.create 7 0) (.create 7 0) := .refl
  have h₁ := h₀.step (a := .byId 1) trivial rfl
  have h₂ := h₁.step (a := .destroyRemove 2 7) trivial rfl
  have h₃ := h₂.step (a := .destroySplice 2) trivial rfl
  have h₄ := h₃.step (a := .destroySignal 2) trivial rfl
  have h₅ := h₄.step (a := .destroyPut 2) trivial rfl
  have h₆ := h₅.step (a := .fenceAlloc 1 1 5) trivial rfl
  have h₇ : Run (fun _ _ => True) (.create 7 0) (after lateFence) :=
    h₆.step (a := .put 1) trivial rfl
  have hst := lateFence_stranded
  obtain ⟨t', ht', x', hx', hsig⟩ := hall _ h₇ ⟨rfl, fun h hh => by rwa [hst.idle h] at hh⟩ 1 _ rfl
    (by decide)
  obtain ⟨y, hy, hun, -⟩ := (hst.run ht').waits
  obtain rfl := Option.some.inj (hx'.symm.trans hy)
  cases hsig.symm.trans hun

end Sm8850.Kgsl.Timelines
