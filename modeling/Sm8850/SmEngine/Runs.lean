/-
  Machines that are moved again and again: `wlan_sm_transition_to` over whole runs.

  * `Moved` is one transition as the table describes it: the exit routines from the current
    state up to the root, then the entry routines from the requested state down to the leaf
    of its initial substates.
  * **`run_iff`**: a machine that was created makes these transitions, up to the first
    request that is no state of the table. That request shuts it for good.
  * **`run_returns_iff`**: it comes back from all its requests just when the initial
    substates below each of them end, and nothing at creation looks at those.
-/
import Sm8850.SmEngine.Engine

namespace Sm8850.SmEngine

open Lib (IsPath)

variable {γ : Type} (info : List (StateInfo γ))

/-! ## What a transition runs -/

def exitOf (s : ℕ) : γ → γ := (info[s]?.bind StateInfo.wlanSmExit).getD id

def entryOf (s : ℕ) : γ → γ := (info[s]?.bind StateInfo.wlanSmEntry).getD id

/-- The routines of the states `l`, the first one first. -/
def runAll (routine : ℕ → γ → γ) (l : List ℕ) (ctx : γ) : γ :=
  l.foldl (fun ctx j => routine j ctx) ctx

/-- `request` takes a machine from `(s, ctx)` to `(s', ctx')`. -/
def Moved (request : ℕ) (a b : ℕ × γ) : Prop :=
  a.1 < info.length ∧ ∃ up down,
    Leads info (parentOf info) a.1 up ∧ Leads info (initialOf info) request down ∧
    b = (down.getLast?.getD a.1, runAll (entryOf info) down (runAll (exitOf info) up a.2))

/-- The requests take a machine from `a` to the last state, one by one. -/
def Visits : List ℕ → ℕ × γ → ℕ × γ → Prop
  | [], a, b => b = a
  | r :: rs, a, b => ∃ c, Moved info r a c ∧ Visits rs c b

/-- `wlan_sm_transition_to`, for one request after the other. -/
def run (sm : Sm γ) (requests : List ℕ) : Option (Sm γ) :=
  requests.foldlM (wlanSmTransitionTo info) sm

variable {info} {fuel s state : ℕ} {l : List ℕ} {ctx ctx' : γ} {sm sm' : Sm γ}

theorem exitOf_of_getElem? {si : StateInfo γ} (h : info[s]? = some si) :
    exitOf info s = si.wlanSmExit.getD id := by
  rw [exitOf, h]
  rfl

theorem entryOf_of_getElem? {si : StateInfo γ} (h : info[s]? = some si) :
    entryOf info s = si.wlanSmEntry.getD id := by
  rw [entryOf, h]
  rfl

theorem exitLoop_iff : exitLoop info fuel s ctx = some ctx' ↔
    ∃ l, Leads info (parentOf info) s l ∧ l.length < fuel ∧
      ctx' = runAll (exitOf info) l ctx := by
  induction fuel generalizing s ctx with
  | zero => exact iff_of_false (by simp [exitLoop]) (by simp)
  | succ fuel ih =>
    by_cases hnone : s = STATE_NONE
    · subst hnone
      rw [exitLoop, if_pos rfl, Option.some_inj]
      constructor
      · rintro rfl
        exact ⟨[], leads_none, Nat.succ_pos _, rfl⟩
      · rintro ⟨l, hl, -, rfl⟩
        rw [hl.1.eq_nil_iff.2 rfl]
        rfl
    · rw [exitLoop, if_neg hnone]
      constructor
      · intro h
        obtain ⟨si, hsi, h⟩ := Option.bind_eq_some_iff.1 h
        obtain ⟨l, hl, hlen, rfl⟩ := ih.1 h
        refine ⟨s :: l, .cons hnone (lt_of_getElem? hsi) ?_, Nat.succ_lt_succ hlen, ?_⟩
        · rwa [parentOf_of_getElem? hsi]
        · rw [← exitOf_of_getElem? hsi]
          rfl
      · rintro ⟨_ | ⟨j, l⟩, hl, hlen, rfl⟩
        · exact absurd hl.1 hnone
        · obtain ⟨rfl, -, hlt, hrest⟩ := hl.of_cons
          obtain ⟨si, hsi⟩ := getElem?_of_lt hlt
          rw [hsi]
          rw [parentOf_of_getElem? hsi] at hrest
          refine ih.2 ⟨l, hrest, Nat.lt_of_succ_lt_succ hlen, ?_⟩
          rw [← exitOf_of_getElem? hsi]
          rfl

theorem entryLoop_iff : entryLoop info fuel s sm = some sm' ↔
    ∃ l, Leads info (initialOf info) s l ∧ l.length < fuel ∧
      sm' = { sm with curState := l.getLast?.getD sm.curState
                      ctx := runAll (entryOf info) l sm.ctx } := by
  induction fuel generalizing s sm with
  | zero => exact iff_of_false (by simp [entryLoop]) (by simp)
  | succ fuel ih =>
    by_cases hnone : s = STATE_NONE
    · subst hnone
      rw [entryLoop, if_pos rfl, Option.some_inj]
      constructor
      · rintro rfl
        exact ⟨[], leads_none, Nat.succ_pos _, rfl⟩
      · rintro ⟨l, hl, -, rfl⟩
        rw [hl.1.eq_nil_iff.2 rfl]
        rfl
    · rw [entryLoop, if_neg hnone]
      constructor
      · intro h
        obtain ⟨si, hsi, h⟩ := Option.bind_eq_some_iff.1 h
        obtain ⟨l, hl, hlen, rfl⟩ := ih.1 h
        refine ⟨s :: l, .cons hnone (lt_of_getElem? hsi) ?_, Nat.succ_lt_succ hlen, ?_⟩
        · rwa [initialOf_of_getElem? hsi]
        · rw [← entryOf_of_getElem? hsi, List.getLast?_cons]
          rfl
      · rintro ⟨_ | ⟨j, l⟩, hl, hlen, rfl⟩
        · exact absurd hl.1 hnone
        · obtain ⟨rfl, -, hlt, hrest⟩ := hl.of_cons
          obtain ⟨si, hsi⟩ := getElem?_of_lt hlt
          rw [hsi]
          rw [initialOf_of_getElem? hsi] at hrest
          refine ih.2 ⟨l, hrest, Nat.lt_of_succ_lt_succ hlen, ?_⟩
          rw [← entryOf_of_getElem? hsi, List.getLast?_cons]
          rfl

/-- The names that a transition prints are in the table. -/
theorem Forest.prints (hF : Forest info) (hs : s < info.length) :
    ∃ t sub si, wlanSmGetStateSubstateInfo info s = some (t, sub) ∧ info[t]? = some si := by
  obtain ⟨l, hl, -⟩ := hF.climbs s hs
  obtain ⟨si, hsi⟩ := getElem?_of_lt hs
  rw [wlanSmGetStateSubstateInfo, hsi]
  dsimp only [Option.bind_eq_bind, Option.bind_some]
  by_cases hparent : si.parentState ≠ STATE_NONE
  · rw [if_pos hparent]
    cases l with
    | nil => exact absurd (hl.1 ▸ hs) (by have := hF.few; simp [STATE_NONE, MAX_STATES] at *; omega)
    | cons j l =>
      obtain ⟨rfl, -, -, hrest⟩ := hl.of_cons
      rw [parentOf_of_getElem? hsi] at hrest
      obtain ⟨p, hp⟩ := getElem?_of_lt (hrest.2 _ (hrest.1.self_mem hparent))
      exact ⟨_, _, p, rfl, hp⟩
  · rw [if_neg hparent]
    exact ⟨_, _, si, rfl, hsi⟩

/-- One transition of a machine that is not shut. -/
theorem transition_iff (hF : Forest info) (hflag : sm.inStateTransition = false)
    (hs : state < info.length) : wlanSmTransitionTo info sm state = some sm' ↔
      Moved info state (sm.curState, sm.ctx) (sm'.curState, sm'.ctx) ∧
        sm'.inStateTransition = false := by
  have hfew : info.length ≤ 200 := hF.few
  have hin : ¬(state = STATE_NONE ∨ MAX_STATES ≤ state ∨ info.length ≤ state) := by
    simp only [STATE_NONE, MAX_STATES]
    omega
  rw [wlanSmTransitionTo, if_neg (by rw [hflag]; decide), if_neg hin]
  by_cases hcur : sm.curState < info.length
  · obtain ⟨t, sub, si, ht, hsi⟩ := hF.prints hcur
    obtain ⟨t', sub', si', ht', hsi'⟩ := hF.prints hs
    obtain ⟨up, hup, -⟩ := hF.climbs _ hcur
    have hexit : exitLoop info (info.length + 1) sm.curState sm.ctx =
        some (runAll (exitOf info) up sm.ctx) :=
      exitLoop_iff.2 ⟨up, hup, Nat.lt_succ_of_le hup.length_le, rfl⟩
    simp only [ht, ht', hsi, hsi', hexit, Option.bind_eq_bind, Option.bind_some,
      Option.bind_eq_some_iff, entryLoop_iff, Option.some_inj]
    constructor
    · rintro ⟨_, ⟨down, hdown, -, rfl⟩, rfl⟩
      exact ⟨⟨hcur, up, down, hup, hdown, rfl⟩, rfl⟩
    · rintro ⟨⟨-, up', down, hup', hdown, heq⟩, hflag'⟩
      obtain rfl := hup.1.unique hup'.1
      refine ⟨_, ⟨down, hdown, Nat.lt_succ_of_le hdown.length_le, rfl⟩, ?_⟩
      obtain ⟨cur', flag', ctx'⟩ := sm'
      obtain ⟨rfl, rfl⟩ := Prod.mk.inj heq
      obtain rfl := hflag'
      rfl
  · rw [wlanSmGetStateSubstateInfo, List.getElem?_eq_none (Nat.le_of_not_lt hcur)]
    exact iff_of_false (by simp) fun h => hcur h.1.1

/-- A request that is no state of the table sets the flag and moves nothing. -/
theorem transition_outside (hflag : sm.inStateTransition = false) (hs : info.length ≤ state) :
    wlanSmTransitionTo info sm state = some { sm with inStateTransition := true } := by
  rw [wlanSmTransitionTo, if_neg (by rw [hflag]; decide), if_pos (.inr (.inr hs))]

/-- Nothing moves a machine whose flag is set. -/
theorem run_shut (hflag : sm.inStateTransition = true) (requests : List ℕ) :
    run info sm requests = some sm := by
  induction requests with
  | nil => rfl
  | cons r rs ih =>
    rw [run, List.foldlM_cons, wlanSmTransitionTo, if_pos hflag]
    exact ih

theorem eq_iff : sm = sm' ↔ (sm'.curState, sm'.ctx) = (sm.curState, sm.ctx) ∧
    sm'.inStateTransition = sm.inStateTransition := by
  constructor
  · rintro rfl
    exact ⟨rfl, rfl⟩
  · intro ⟨hplace, hflag⟩
    obtain ⟨cur, flag, ctx⟩ := sm
    obtain ⟨rfl, rfl⟩ := Prod.mk.inj hplace
    obtain rfl := hflag
    rfl

theorem run_iff_visits (hF : Forest info) (hflag : sm.inStateTransition = false)
    (requests : List ℕ) : run info sm requests = some sm' ↔
      Visits info (requests.takeWhile (· < info.length)) (sm.curState, sm.ctx)
          (sm'.curState, sm'.ctx) ∧
        sm'.inStateTransition = requests.any (info.length ≤ ·) := by
  induction requests generalizing sm with
  | nil =>
    rw [run, List.foldlM_nil, Option.pure_def, Option.some_inj, eq_iff, hflag]
    rfl
  | cons r rs ih =>
    rw [run, List.foldlM_cons]
    by_cases hr : r < info.length
    · rw [List.takeWhile_cons_of_pos (by simpa using hr), List.any_cons,
        decide_eq_false (Nat.not_le.2 hr), Bool.false_or]
      constructor
      · intro h
        obtain ⟨sm₁, hone, hrest⟩ := Option.bind_eq_some_iff.1 h
        obtain ⟨hmoved, hflag₁⟩ := (transition_iff hF hflag hr).1 hone
        obtain ⟨hvisits, hany⟩ := (ih hflag₁).1 hrest
        exact ⟨⟨_, hmoved, hvisits⟩, hany⟩
      · rintro ⟨⟨⟨cur, ctx⟩, hmoved, hvisits⟩, hany⟩
        refine Option.bind_eq_some_iff.2 ⟨⟨cur, false, ctx⟩, ?_, (ih rfl).2 ⟨hvisits, hany⟩⟩
        exact (transition_iff hF hflag hr).2 ⟨hmoved, rfl⟩
    · have hle := Nat.le_of_not_lt hr
      rw [List.takeWhile_cons_of_neg (by simpa using hle), List.any_cons, decide_eq_true hle,
        transition_outside hflag hle]
      change run info _ rs = _ ↔ _
      rw [run_shut rfl, Option.some_inj, eq_iff]
      rfl

/-- **A machine that was created makes the transitions** that the table describes, until it
    is asked for a state that is not in the table. -/
theorem run_iff (initState : ℕ) (requests : List ℕ)
    (hcreate : wlanSmCreate info initState ctx true = some (some sm)) :
    run info sm requests = some sm' ↔
      Visits info (requests.takeWhile (· < info.length)) (initState, ctx)
          (sm'.curState, sm'.ctx) ∧
        sm'.inStateTransition = requests.any (info.length ≤ ·) := by
  obtain ⟨hF, rfl⟩ := forest_of_create hcreate
  exact run_iff_visits hF rfl requests

/-- A super state over its initial substate, whose routines keep a log. -/
def superAndSub : List (StateInfo (List ℕ)) :=
  [⟨0, STATE_NONE, 1, true, some (· ++ [10]), some (· ++ [20])⟩,
    ⟨1, 0, STATE_NONE, false, some (· ++ [11]), some (· ++ [21])⟩]

theorem run_iff_superAndSub :
    Visits superAndSub ([0, 7, 1].takeWhile (· < superAndSub.length)) (1, [])
        (1, [21, 20, 10, 11]) ∧
      true = [0, 7, 1].any (superAndSub.length ≤ ·) := by
  have hrun : run superAndSub ⟨1, false, []⟩ [0, 7, 1] = some ⟨1, true, [21, 20, 10, 11]⟩ := rfl
  have hvisits := (run_iff 1 [0, 7, 1] rfl).1 hrun
  exact hvisits

theorem Leads.getLast_lt {next : ℕ → ℕ} {d : ℕ} (h : Leads info next s l)
    (hd : d < info.length) : l.getLast?.getD d < info.length := by
  cases hlast : l.getLast? with
  | none => exact hd
  | some j => exact h.2 j (List.mem_of_getLast? hlast)

theorem Moved.lt {a b : ℕ × γ} (h : Moved info state a b) : b.1 < info.length := by
  obtain ⟨hlt, up, down, -, hdown, rfl⟩ := h
  exact hdown.getLast_lt hlt

theorem visits_iff_ends (hF : Forest info) (requests : List ℕ) {a : ℕ × γ}
    (ha : a.1 < info.length) : (∃ b, Visits info requests a b) ↔
      ∀ r ∈ requests, ∃ down, Leads info (initialOf info) r down := by
  induction requests generalizing a with
  | nil => exact iff_of_true ⟨a, rfl⟩ fun _ h => absurd h (List.not_mem_nil)
  | cons r rs ih =>
    rw [List.forall_mem_cons]
    constructor
    · rintro ⟨b, c, hmoved, hvisits⟩
      have hrest := (ih hmoved.lt).1 ⟨b, hvisits⟩
      obtain ⟨-, -, down, -, hdown, -⟩ := hmoved
      exact ⟨⟨down, hdown⟩, hrest⟩
    · rintro ⟨⟨down, hdown⟩, hrest⟩
      obtain ⟨up, hup, -⟩ := hF.climbs a.1 ha
      have hmoved : Moved info r a (down.getLast?.getD a.1,
          runAll (entryOf info) down (runAll (exitOf info) up a.2)) :=
        ⟨ha, up, down, hup, hdown, rfl⟩
      obtain ⟨b, hb⟩ := (ih hmoved.lt).2 hrest
      exact ⟨b, _, hmoved, hb⟩

/-- **The machine comes back from its requests** just when the initial substates below every
    state asked for end. -/
theorem run_returns_iff (initState : ℕ) (requests : List ℕ)
    (hcreate : wlanSmCreate info initState ctx true = some (some sm))
    (hinit : initState < info.length) :
    (∃ sm', run info sm requests = some sm') ↔
      ∀ r ∈ requests.takeWhile (· < info.length),
        ∃ down, Leads info (initialOf info) r down := by
  obtain ⟨hF, rfl⟩ := forest_of_create hcreate
  rw [← visits_iff_ends hF _ (a := (initState, ctx)) hinit]
  constructor
  · rintro ⟨sm', h⟩
    exact ⟨_, ((run_iff_visits hF rfl requests).1 h).1⟩
  · rintro ⟨⟨cur, ctx'⟩, h⟩
    exact ⟨⟨cur, _, ctx'⟩, (run_iff_visits hF rfl requests).2 ⟨h, rfl⟩⟩

/-- Two states that are each other's initial substate: the table is accepted, and a request
    for one of them never ends. -/
def eachOther : List (StateInfo Unit) :=
  [⟨0, STATE_NONE, 1, true, none, none⟩, ⟨1, 0, 0, true, none, none⟩]

theorem run_returns_iff_eachOther :
    ¬ ∀ r ∈ [0].takeWhile (· < eachOther.length),
        ∃ down, Leads eachOther (initialOf eachOther) r down := by
  intro h
  have hcreate : wlanSmCreate eachOther 1 () true = some (some ⟨1, false, ()⟩) := rfl
  obtain ⟨sm', hsm'⟩ := (run_returns_iff 1 [0] hcreate (by decide)).2 h
  cases hsm'

end Sm8850.SmEngine
