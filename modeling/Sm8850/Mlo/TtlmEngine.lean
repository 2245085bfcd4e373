/-
  The TTLM machine on the state machine engine: `ttlm_sm_info`.

  * `ttlmSmInfo` is the table; `engineOf s` is the engine's machine for the peer `s`.
  * **`ttlm_on_engine`**: from creation on the engine does what `transitionTo` says, for
    every list of states asked for.
  * **`ttlm_states_agree`**: whatever happens to a peer, the state it reports is the one its
    machine is in, and no assertion of an entry routine fails.
-/
import Sm8850.Mlo.Ttlm
import Sm8850.SmEngine.Runs

namespace Sm8850.Mlo.Ttlm

open SmEngine (STATE_NONE StateInfo Forest wlanSmCreate wlanSmTransitionTo)

/-! ## The table -/

/-- The values of `enum wlan_ttlm_sm_state`. -/
def SmState.num : SmState → ℕ
  | init => 0
  | inprogress => 1
  | negotiated => 2
  | staInprogress => 4
  | apActionInprogress => 5
  | apBeaconInprogress => 6
  | apBtmInprogress => 7
  | teardownInprogress => 8
  | linkRecfgUpdateMappingInprogress => 9

/-- An entry for a state of its own. -/
def stateInfo (state : SmState) (hasSubstates : Bool) : StateInfo Sm :=
  ⟨state.num, STATE_NONE, STATE_NONE, hasSubstates, some fun s => stateEntry s state, some id⟩

/-- An entry for a substate of `INPROGRESS`. -/
def substInfo (state : SmState) : StateInfo Sm :=
  ⟨state.num, SmState.inprogress.num, STATE_NONE, false, some fun s => substEntry s state,
    some id⟩

/-- The entry of an end marker. -/
def invalidInfo (state : ℕ) : StateInfo Sm :=
  ⟨state, STATE_NONE, STATE_NONE, false, none, none⟩

/-- `ttlm_sm_info`. -/
def ttlmSmInfo : List (StateInfo Sm) :=
  [stateInfo .init false, stateInfo .inprogress true, stateInfo .negotiated false,
    invalidInfo 3,
    substInfo .staInprogress, substInfo .apActionInprogress, substInfo .apBeaconInprogress,
    substInfo .apBtmInprogress, substInfo .teardownInprogress,
    substInfo .linkRecfgUpdateMappingInprogress,
    invalidInfo 10]

/-- The machine of a peer, which the engine holds: the peer is its context, and the engine
    keeps the current state. -/
def engineOf (s : Sm) : SmEngine.Sm Sm := ⟨s.curState.num, false, { s with curState := .init }⟩

theorem num_lt (state : SmState) : state.num < ttlmSmInfo.length := by
  cases state <;> decide

theorem forest : Forest ttlmSmInfo := by
  have hcreate : wlanSmCreate ttlmSmInfo SmState.init.num smCreate true =
      some (some (engineOf smCreate)) := rfl
  exact (SmEngine.forest_of_create hcreate).1

theorem exitOf_eq (i : ℕ) : SmEngine.exitOf ttlmSmInfo i = id := by
  rw [SmEngine.exitOf]
  cases hsi : ttlmSmInfo[i]? with
  | none => rfl
  | some si =>
    have hall : ∀ si ∈ ttlmSmInfo, si.wlanSmExit.getD id = id := by
      simp [ttlmSmInfo, stateInfo, substInfo, invalidInfo]
    exact hall si (List.mem_of_getElem? hsi)

theorem runAll_id {γ : Type} {routine : ℕ → γ → γ} (h : ∀ i, routine i = id) (l : List ℕ)
    (ctx : γ) : SmEngine.runAll routine l ctx = ctx := by
  induction l with
  | nil => rfl
  | cons i l ih =>
    rw [SmEngine.runAll, List.foldl_cons, h]
    exact ih

theorem entryOf_num (state : SmState) : SmEngine.entryOf ttlmSmInfo state.num = fun s =>
    if state.top = state then stateEntry s state else substEntry s state := by
  cases state <;> rfl

theorem leads_num (state : SmState) :
    SmEngine.Leads ttlmSmInfo (SmEngine.initialOf ttlmSmInfo) state.num [state.num] := by
  have hinitial : SmEngine.initialOf ttlmSmInfo state.num = STATE_NONE := by
    cases state <;> rfl
  refine .cons (by cases state <;> decide) (num_lt state) ?_
  rw [hinitial]
  exact SmEngine.leads_none

/-- One transition of the engine is one of the machine. -/
theorem transition_engineOf (s : Sm) (state : SmState) :
    wlanSmTransitionTo ttlmSmInfo (engineOf s) state.num =
      some (engineOf (transitionTo s state)) := by
  refine (SmEngine.transition_iff forest rfl (num_lt state)).2 ⟨⟨num_lt _, ?_⟩, rfl⟩
  obtain ⟨up, hup, -⟩ := forest.climbs _ (num_lt s.curState)
  refine ⟨up, _, hup, leads_num state, ?_⟩
  rw [runAll_id exitOf_eq]
  simp only [SmEngine.runAll, List.foldl_cons, List.foldl_nil, entryOf_num, engineOf]
  by_cases htop : state.top = state <;>
    simp [transitionTo, stateEntry, substEntry, htop]

theorem run_engineOf (s : Sm) (states : List SmState) :
    SmEngine.run ttlmSmInfo (engineOf s) (states.map SmState.num) =
      some (engineOf (states.foldl transitionTo s)) := by
  induction states generalizing s with
  | nil => rfl
  | cons state states ih =>
    rw [List.map_cons, SmEngine.run, List.foldlM_cons, transition_engineOf]
    exact ih _

/-- **The engine runs the TTLM machine**: the table is accepted, and every list of requests
    takes the peer where `transitionTo` does. -/
theorem ttlm_on_engine (states : List SmState) : ∃ sm,
    wlanSmCreate ttlmSmInfo SmState.init.num smCreate true = some (some sm) ∧
      SmEngine.run ttlmSmInfo sm (states.map SmState.num) =
        some (engineOf (states.foldl transitionTo smCreate)) :=
  ⟨engineOf smCreate, rfl, run_engineOf smCreate states⟩

/-! ## What a peer reports -/

/-- The peer reports the state its machine is in, and no entry routine found it wrong. -/
structure Agrees (s : Sm) : Prop where
  state : s.ttlmState = s.curState.top
  substate : s.curState.top ≠ s.curState → s.ttlmSubstate = s.curState
  bug : s.bug = false

variable {s : Sm} {o : Outcomes} {deliver : Deliver} {event : Event}

/-- A substate is entered from within `INPROGRESS`. -/
theorem Agrees.transitionTo {state : SmState} (h : Agrees s)
    (hfrom : state.top = state ∨ s.curState.top = .inprogress) :
    Agrees (transitionTo s state) := by
  by_cases htop : state.top = state
  · rw [Ttlm.transitionTo, if_pos htop]
    exact ⟨htop.symm, fun hne => absurd htop hne, h.bug⟩
  · have hin := hfrom.resolve_left htop
    have htop' : state.top = .inprogress := by
      cases state <;> first | rfl | exact absurd rfl htop
    rw [Ttlm.transitionTo, if_neg htop]
    refine ⟨?_, fun _ => rfl, ?_⟩
    · exact h.state.trans (hin.trans htop'.symm)
    · simp [substEntry, h.bug, h.state, hin]

theorem Agrees.negotiated (h : Agrees s) : Agrees (Ttlm.transitionTo s .negotiated) :=
  h.transitionTo (.inl rfl)

/-- The routines a handler calls leave all four fields as they are. -/
theorem Agrees.congr {t : Sm} (h : Agrees s) (hcur : t.curState = s.curState)
    (hstate : t.ttlmState = s.ttlmState) (hsub : t.ttlmSubstate = s.ttlmSubstate)
    (hbug : t.bug = s.bug) : Agrees t :=
  ⟨by rw [hstate, hcur, h.state], fun hne => by rw [hsub, hcur] at *; exact h.substate hne,
    hbug.trans h.bug⟩

theorem Agrees.timerStart (h : Agrees s) : Agrees (timerStart o s).1 := by
  unfold Ttlm.timerStart
  split_ifs
  · exact h
  · exact h
  · exact h.congr rfl rfl rfl rfl

theorem Agrees.timerStop (h : Agrees s) : Agrees (timerStop o s).1 := by
  unfold Ttlm.timerStop
  split_ifs
  · exact h
  · exact h.congr rfl rfl rfl rfl

theorem Agrees.handleTxActionReq (h : Agrees s) (ttlmInfo : T2lm.T2lmInfo) :
    Agrees (handleTxActionReq o s ttlmInfo).1 := by
  unfold Ttlm.handleTxActionReq
  split_ifs
  · exact h
  · exact h.congr rfl rfl rfl rfl
  · exact h

theorem Agrees.populateTxActionReq (h : Agrees s) (ttlmInfo : T2lm.T2lmInfo) :
    Agrees (populateTxActionReq o s ttlmInfo).1 := by
  unfold Ttlm.populateTxActionReq
  split_ifs
  iterate 5 exact h
  exact h.congr rfl rfl rfl rfl

theorem Agrees.handleBtmLinkDisable (h : Agrees s) (dialogToken : UInt8)
    (t2lmInfo : T2lm.T2lmInfo) :
    Agrees (handleBtmLinkDisable o s dialogToken t2lmInfo).1 := by
  unfold Ttlm.handleBtmLinkDisable
  split_ifs
  iterate 3 exact h
  exact h.congr rfl rfl rfl rfl

theorem Agrees.handleRxActionRsp (h : Agrees s) (respType : RespType) :
    Agrees (handleRxActionRsp o s respType).1 := by
  have hstop : Agrees (if s.ttlmRequestTimer = .running then Ttlm.timerStop o s
      else (s, .success)).1 := by
    split_ifs
    · exact h.timerStop
    · exact h
  unfold Ttlm.handleRxActionRsp
  dsimp only
  generalize (if s.ttlmRequestTimer = .running then Ttlm.timerStop o s else (s, .success)) = r
    at hstop
  split_ifs
  · exact h
  · exact h
  · exact hstop
  · exact hstop
  · exact hstop.negotiated

theorem Agrees.handleTimerTimeout (h : Agrees s) : Agrees (handleTimerTimeout o s) := by
  unfold Ttlm.handleTimerTimeout
  split_ifs
  · exact h
  · exact h
  · exact h.negotiated

theorem Agrees.substSta (h : Agrees s) : Agrees (substStaInprogressEvent o s event).1 := by
  cases event with
  | txActionReqStart ttlmInfo => exact h.handleTxActionReq ttlmInfo
  | txActionReqActive ttlmInfo =>
    have hpop := h.populateTxActionReq (o := o) ttlmInfo
    simp only [substStaInprogressEvent]
    split_ifs
    · exact hpop.negotiated
    · exact hpop.timerStart
  | timeout => exact h.negotiated
  | rxActionRsp respType => exact (h.handleRxActionRsp respType).negotiated
  | ttlmReqTimeout => exact h.handleTimerTimeout
  | _ => exact h

theorem Agrees.substApBtm (h : Agrees s) : Agrees (substApBtmInprogressEvent o s event).1 := by
  cases event with
  | btmLinkDisable dialogToken t2lmInfo =>
    have hbtm := h.handleBtmLinkDisable (o := o) dialogToken t2lmInfo
    simp only [substApBtmInprogressEvent]
    split_ifs
    · exact hbtm.negotiated
    · exact hbtm.timerStart
  | rxActionRsp respType => exact (h.handleRxActionRsp respType).negotiated
  | _ => exact h

theorem Agrees.moveAndDeliver {state : SmState}
    (hdeliver : ∀ t e, Agrees t → Agrees (deliver t e).1) (h : Agrees s)
    (hfrom : state.top = state ∨ s.curState.top = .inprogress) :
    Agrees (moveAndDeliver deliver s state event).1 :=
  hdeliver _ _ (h.transitionTo hfrom)

/-- One handler, whatever it is that delivers the events it passes on. -/
theorem Agrees.smEvent (hdeliver : ∀ t e, Agrees t → Agrees (deliver t e).1) (h : Agrees s) :
    Agrees (smEvent deliver o s event).1 := by
  have hmove : ∀ state e, state.top = state ∨ s.curState.top = .inprogress →
      Agrees (Ttlm.moveAndDeliver deliver s state e).1 :=
    fun state e hfrom => h.moveAndDeliver hdeliver hfrom
  unfold Ttlm.smEvent
  cases hcur : s.curState with
  | init => cases event <;> first | exact h | exact hmove _ _ (.inl rfl)
  | inprogress =>
    have hin : s.curState.top = .inprogress := by rw [hcur]; rfl
    cases event <;> first | exact h | exact hmove _ _ (.inr hin)
  | negotiated => cases event <;> first | exact h | exact hmove _ _ (.inl rfl)
  | staInprogress => exact h.substSta
  | apActionInprogress => cases event <;> first | exact h | exact h.negotiated
  | apBeaconInprogress => exact h
  | apBtmInprogress => exact h.substApBtm
  | teardownInprogress => exact h
  | linkRecfgUpdateMappingInprogress =>
    cases event <;> first | exact h | exact h.negotiated

/-- By induction on the dispatches inside each other. -/
theorem Agrees.smDispatch (n : ℕ) (h : Agrees s) : Agrees (smDispatch n o s event).1 := by
  induction n generalizing s event with
  | zero => exact h
  | succ n ih => exact h.smEvent fun t e ht => ih ht

theorem Agrees.step (h : Agrees s) (a : Action) : Agrees (step s a) := by
  cases a with
  | call c o => exact h.smDispatch 3
  | message o =>
    simp only [Ttlm.step, txActionReqCb]
    split
    · exact h
    · exact Agrees.smDispatch 3 (h.congr rfl rfl rfl rfl)
  | expire o =>
    simp only [Ttlm.step, mcTimerCallback]
    split_ifs
    · exact h
    · exact h.congr rfl rfl rfl rfl
    · exact h.congr rfl rfl rfl rfl
  | reqTimeout o =>
    simp only [Ttlm.step, reqTimeoutCb]
    split_ifs
    · exact h
    · exact Agrees.smDispatch 3 (h.congr rfl rfl rfl rfl)

/-- **The peer reports the state its machine is in**, through every run, and the assertions
    of the entry routines hold. -/
theorem ttlm_states_agree (actions : List Action) :
    Agrees (actions.foldl step smCreate) := by
  have hrun : ∀ s, Agrees s → Agrees (actions.foldl Ttlm.step s) := by
    induction actions with
    | nil => exact fun s h => h
    | cons a actions ih => exact fun s h => ih _ (h.step a)
  exact hrun _ ⟨rfl, fun h => absurd rfl h, rfl⟩

end Sm8850.Mlo.Ttlm
