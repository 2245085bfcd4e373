/-
  The engine that the state machines run on: `wlan_sm_engine.c`.

  * `StateInfo` is an entry of the table that a client brings along, `Sm γ` a machine whose
    client has the context `γ`.
  * `wlanSmCreate` checks the table, `wlanSmTransitionTo` moves the machine. They are `none`
    where they read outside of the table, or do not return: a loop that turns more often than
    there are states has come back to one of them.
  * **`create_iff`**: the tables accepted are the forests in which every parent is a super
    state.
-/
import Sm8850.Lib.Chain

namespace Sm8850.SmEngine

open Lib (IsPath)

/-! ## Data -/

/-- `WLAN_SM_ENGINE_STATE_NONE`. -/
def STATE_NONE : ℕ := 255

/-- `WLAN_SM_ENGINE_MAX_STATES`. -/
def MAX_STATES : ℕ := 200

/-- `struct wlan_sm_state_info`; its routines work on the context. -/
structure StateInfo (γ : Type) where
  state : ℕ
  parentState : ℕ
  initialSubstate : ℕ
  hasSubstates : Bool
  wlanSmEntry : Option (γ → γ)
  wlanSmExit : Option (γ → γ)

/-- `struct wlan_sm`. -/
structure Sm (γ : Type) where
  curState : ℕ
  inStateTransition : Bool
  ctx : γ

variable {γ : Type} (info : List (StateInfo γ))

/-! ## Creation -/

/-- The loop of `wlan_sm_validate_state_info`, with the states visited. -/
def validateLoop : ℕ → List ℕ → ℕ → Option Bool
  | 0, _, _ => none
  | fuel + 1, visited, state =>
    if state = STATE_NONE then some true
    else if state ∈ visited then some false
    else do
      let si ← info[state]?
      if si.parentState ≠ STATE_NONE then do
        let parent ← info[si.parentState]?
        if parent.hasSubstates = false then some false
        else validateLoop fuel (state :: visited) si.parentState
      else validateLoop fuel (state :: visited) si.parentState

/-- `wlan_sm_validate_state_info`. -/
def wlanSmValidateStateInfo (i : ℕ) : Option Bool := do
  let si ← info[i]?
  if MAX_STATES ≤ si.state ∨ si.state ≠ i then some false
  else validateLoop info (info.length + 2) [] si.state

/-- `wlan_sm_create`; `alloc` is whether there is memory. -/
def wlanSmCreate (initState : ℕ) (ctx : γ) (alloc : Bool) : Option (Option (Sm γ)) :=
  if MAX_STATES < info.length then some none
  else do
    if ← (List.range info.length).allM (wlanSmValidateStateInfo info) then
      some (if alloc then some ⟨initState, false, ctx⟩ else none)
    else some none

/-! ## Transitions -/

/-- The loop of `wlan_sm_transition_to` over the exit routines. -/
def exitLoop : ℕ → ℕ → γ → Option γ
  | 0, _, _ => none
  | fuel + 1, curState, ctx =>
    if curState = STATE_NONE then some ctx
    else do
      let si ← info[curState]?
      exitLoop fuel si.parentState (si.wlanSmExit.getD id ctx)

/-- Its loop over the entry routines. -/
def entryLoop : ℕ → ℕ → Sm γ → Option (Sm γ)
  | 0, _, _ => none
  | fuel + 1, curState, sm =>
    if curState = STATE_NONE then some sm
    else do
      let si ← info[curState]?
      entryLoop fuel si.initialSubstate
        { sm with curState := curState, ctx := si.wlanSmEntry.getD id sm.ctx }

/-- `wlan_sm_get_state_substate_info`. -/
def wlanSmGetStateSubstateInfo (state : ℕ) : Option (ℕ × ℕ) := do
  let si ← info[state]?
  if si.parentState ≠ STATE_NONE then some (si.parentState, state) else some (state, 0)

/-- `wlan_sm_transition_to`; a routine that asks for a transition is turned away by the
    flag. -/
def wlanSmTransitionTo (sm : Sm γ) (state : ℕ) : Option (Sm γ) :=
  if sm.inStateTransition then some sm
  else if state = STATE_NONE ∨ MAX_STATES ≤ state ∨ info.length ≤ state then
    -- the flag is set by now, and this return leaves it so
    some { sm with inStateTransition := true }
  else do
    let (oldState, _) ← wlanSmGetStateSubstateInfo info sm.curState
    let (newState, _) ← wlanSmGetStateSubstateInfo info state
    -- the two names are printed
    let _ ← info[oldState]?
    let _ ← info[newState]?
    let ctx ← exitLoop info (info.length + 1) sm.curState sm.ctx
    let sm' ← entryLoop info (info.length + 1) state
      { sm with inStateTransition := true, ctx := ctx }
    some { sm' with inStateTransition := false }

/-! ## The tables that are accepted -/

def parentOf (s : ℕ) : ℕ := (info[s]?.map StateInfo.parentState).getD STATE_NONE

def initialOf (s : ℕ) : ℕ := (info[s]?.map StateInfo.initialSubstate).getD STATE_NONE

/-- Following `next` from `s` on one meets the states `l` of the table, and then none. -/
def Leads (next : ℕ → ℕ) (s : ℕ) (l : List ℕ) : Prop :=
  IsPath STATE_NONE next s l ∧ ∀ j ∈ l, j < info.length

def IsSuper (s : ℕ) : Prop := ∃ si, info[s]? = some si ∧ si.hasSubstates = true

/-- The entries are in order, and the parents of every state end and are super states. -/
structure Forest : Prop where
  few : info.length ≤ MAX_STATES
  inOrder : ∀ i (si : StateInfo γ), info[i]? = some si → si.state = i
  climbs : ∀ i < info.length, ∃ l, Leads info (parentOf info) i l ∧ ∀ j ∈ l.tail, IsSuper info j

variable {info} {fuel s : ℕ} {l visited : List ℕ}

theorem Leads.length_le {next : ℕ → ℕ} (h : Leads info next s l) : l.length ≤ info.length := by
  have hsub : l.toFinset ⊆ Finset.range info.length := fun j hj =>
    Finset.mem_range.2 (h.2 j (List.mem_toFinset.1 hj))
  have hcard := Finset.card_le_card hsub
  rwa [List.toFinset_card_of_nodup h.1.nodup, Finset.card_range] at hcard

theorem Leads.cons {next : ℕ → ℕ} (hs : s ≠ STATE_NONE) (hlt : s < info.length)
    (h : Leads info next (next s) l) : Leads info next s (s :: l) := by
  refine ⟨⟨rfl, hs, h.1⟩, fun j hj => ?_⟩
  rcases List.mem_cons.1 hj with rfl | hj
  · exact hlt
  · exact h.2 j hj

theorem Leads.of_cons {next : ℕ → ℕ} {j : ℕ} (h : Leads info next s (j :: l)) :
    j = s ∧ s ≠ STATE_NONE ∧ s < info.length ∧ Leads info next (next s) l :=
  ⟨h.1.1, h.1.2.1, h.1.1 ▸ h.2 j List.mem_cons_self, h.1.2.2,
    fun k hk => h.2 k (List.mem_cons_of_mem _ hk)⟩

theorem leads_none {next : ℕ → ℕ} : Leads info next STATE_NONE [] :=
  ⟨rfl, fun _ h => absurd h (List.not_mem_nil)⟩

theorem parentOf_of_getElem? {si : StateInfo γ} (h : info[s]? = some si) :
    parentOf info s = si.parentState := by
  rw [parentOf, h]
  rfl

theorem initialOf_of_getElem? {si : StateInfo γ} (h : info[s]? = some si) :
    initialOf info s = si.initialSubstate := by
  rw [initialOf, h]
  rfl

theorem lt_of_getElem? {si : StateInfo γ} (h : info[s]? = some si) : s < info.length :=
  (List.getElem?_eq_some_iff.1 h).1

theorem getElem?_of_lt (h : s < info.length) : ∃ si, info[s]? = some si :=
  ⟨info[s], List.getElem?_eq_getElem h⟩

/-- What the loop lets pass climbs to the root over super states. -/
theorem leads_of_validateLoop (h : validateLoop info fuel visited s = some true) :
    ∃ l, Leads info (parentOf info) s l ∧ ∀ j ∈ l.tail, IsSuper info j := by
  induction fuel generalizing visited s with
  | zero => cases h
  | succ fuel ih =>
    rw [validateLoop] at h
    split_ifs at h with hnone hmem
    · exact ⟨[], hnone ▸ leads_none, fun _ h => absurd h (List.not_mem_nil)⟩
    · cases h
    obtain ⟨si, hsi, h⟩ := Option.bind_eq_some_iff.1 h
    have hlt := lt_of_getElem? hsi
    split_ifs at h with hparent
    · obtain ⟨p, hp, h⟩ := Option.bind_eq_some_iff.1 h
      split_ifs at h with hsub
      · cases h
      obtain ⟨l, hl, hsuper⟩ := ih h
      refine ⟨s :: l, .cons hnone hlt ?_, fun j hj => ?_⟩
      · rwa [parentOf_of_getElem? hsi]
      · cases l with
        | nil => cases hj
        | cons k l =>
          rcases List.mem_cons.1 hj with rfl | hj
          · obtain rfl := hl.1.1
            exact ⟨p, hp, Bool.eq_true_of_not_eq_false hsub⟩
          · exact hsuper j hj
    · obtain ⟨l, hl, -⟩ := ih h
      obtain rfl : l = [] := hl.1.eq_nil_iff.2 (not_not.1 hparent)
      refine ⟨[s], .cons hnone hlt ?_, fun _ h => absurd h (List.not_mem_nil)⟩
      rwa [parentOf_of_getElem? hsi]

/-- Such a state passes, wherever it is begun. -/
theorem validateLoop_of_leads (hl : Leads info (parentOf info) s l)
    (hsuper : ∀ j ∈ l.tail, IsSuper info j) (hnew : ∀ j ∈ l, j ∉ visited)
    (hfuel : l.length < fuel) : validateLoop info fuel visited s = some true := by
  induction fuel generalizing visited s l with
  | zero => cases hfuel
  | succ fuel ih =>
    rw [validateLoop]
    cases l with
    | nil => exact if_pos hl.1
    | cons j l =>
      have hnodup := List.nodup_cons.1 hl.1.nodup
      obtain ⟨rfl, hnone, hlt, hrest⟩ := hl.of_cons
      obtain ⟨si, hsi⟩ := getElem?_of_lt hlt
      rw [parentOf_of_getElem? hsi] at hrest
      have hloop : validateLoop info fuel (j :: visited) si.parentState = some true := by
        refine ih hrest (fun k hk => hsuper k (List.mem_of_mem_tail hk)) (fun k hk hv => ?_)
          (Nat.lt_of_succ_lt_succ hfuel)
        rcases List.mem_cons.1 hv with rfl | hv
        · exact hnodup.1 hk
        · exact hnew k (List.mem_cons_of_mem _ hk) hv
      rw [if_neg hnone, if_neg (hnew j List.mem_cons_self), hsi]
      dsimp only [Option.bind_eq_bind, Option.bind_some]
      split_ifs with hparent
      · obtain ⟨p, hp, hsub⟩ := hsuper _ (hrest.1.self_mem hparent)
        rw [hp]
        dsimp only [Option.bind_some]
        rw [if_neg (by rw [hsub]; decide)]
        exact hloop
      · exact hloop

theorem allM_eq_some_true {α : Type} {f : α → Option Bool} {xs : List α} :
    xs.allM f = some true ↔ ∀ x ∈ xs, f x = some true := by
  induction xs with
  | nil => exact iff_of_true rfl fun _ h => absurd h (List.not_mem_nil)
  | cons x xs ih =>
    rw [List.allM, List.forall_mem_cons, ← ih]
    rcases f x with _ | _ | _ <;> simp

/-- All entries pass just when the table is a forest. -/
theorem validate_all_iff (hfew : info.length ≤ MAX_STATES) :
    (List.range info.length).allM (wlanSmValidateStateInfo info) = some true ↔ Forest info := by
  rw [allM_eq_some_true]
  constructor
  · intro h
    have hone : ∀ i si, info[i]? = some si → si.state = i ∧
        validateLoop info (info.length + 2) [] i = some true := by
      intro i si hsi
      have hi := h i (List.mem_range.2 (lt_of_getElem? hsi))
      rw [wlanSmValidateStateInfo, hsi] at hi
      dsimp only [Option.bind_eq_bind, Option.bind_some] at hi
      split_ifs at hi with hbad
      · cases hi
      · push Not at hbad
        exact ⟨hbad.2, hbad.2 ▸ hi⟩
    refine ⟨hfew, fun i si hsi => (hone i si hsi).1, fun i hi => ?_⟩
    obtain ⟨si, hsi⟩ := getElem?_of_lt hi
    exact leads_of_validateLoop (hone i si hsi).2
  · intro h i hi
    have hlt := List.mem_range.1 hi
    obtain ⟨si, hsi⟩ := getElem?_of_lt hlt
    obtain ⟨l, hl, hsuper⟩ := h.climbs i hlt
    have hstate := h.inOrder i si hsi
    rw [wlanSmValidateStateInfo, hsi]
    dsimp only [Option.bind_eq_bind, Option.bind_some]
    rw [if_neg (by rw [hstate]; omega), hstate]
    exact validateLoop_of_leads hl hsuper (fun _ _ h => absurd h (List.not_mem_nil))
      (by have := hl.length_le; omega)

theorem forest_of_create {initState : ℕ} {ctx : γ} {alloc : Bool} {sm : Sm γ}
    (h : wlanSmCreate info initState ctx alloc = some (some sm)) :
    Forest info ∧ sm = ⟨initState, false, ctx⟩ := by
  rw [wlanSmCreate] at h
  by_cases hfew : MAX_STATES < info.length
  · rw [if_pos hfew] at h
    cases h
  · rw [if_neg hfew] at h
    obtain ⟨ok, hok, h⟩ := Option.bind_eq_some_iff.1 h
    cases ok with
    | false => cases h
    | true =>
      refine ⟨(validate_all_iff (Nat.le_of_not_lt hfew)).1 hok, ?_⟩
      cases alloc with
      | false => cases h
      | true => exact (Option.some.inj (Option.some.inj h)).symm

/-- **A machine is created** just on the tables that are forests. -/
theorem create_iff (initState : ℕ) (ctx : γ) (sm : Sm γ) :
    wlanSmCreate info initState ctx true = some (some sm) ↔
      Forest info ∧ sm = ⟨initState, false, ctx⟩ := by
  constructor
  · exact forest_of_create
  · rintro ⟨hF, rfl⟩
    rw [wlanSmCreate, if_neg (Nat.not_lt.2 hF.few), (validate_all_iff hF.few).2 hF]
    rfl

end Sm8850.SmEngine
