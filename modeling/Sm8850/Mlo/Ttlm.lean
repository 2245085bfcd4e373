/-
  The TTLM state machine: `wlan_mlo_t2lm.c` over `wlan_sm_engine.c`.

  * `Sm` is the machine of one MLO peer with what it has asked for: the messages posted
    to the scheduler, the request timer and the messages of its expiries.
  * `smDispatch` runs the handler of the current state; a handler may move the machine
    and deliver an event to its new state, as often as the first argument says.
  * `Outcomes` says how the calls that leave this file end during one delivery.
  * `step` is what happens under the lock, or when the timer expires.
-/
import Sm8850.Mlo.T2lm

namespace Sm8850.Mlo.Ttlm

open T2lm (T2lmInfo)

/-! ## Data -/

/-- `enum wlan_ttlm_sm_state`, without the two end markers. -/
inductive SmState where
  | init | inprogress | negotiated
  | staInprogress | apActionInprogress | apBeaconInprogress | apBtmInprogress
  | teardownInprogress | linkRecfgUpdateMappingInprogress
  deriving DecidableEq

/-- `QDF_STATUS`. -/
inductive QdfStatus where
  | success | eFailure | eInval | eNullValue | eNomem | eAlready
  deriving DecidableEq

/-- `enum wlan_t2lm_resp_frm_type`. -/
inductive RespType where
  | success | denied | preferred | invalid
  deriving DecidableEq

/-- `enum wlan_ttlm_sm_evt`, with the data the handlers read. -/
inductive Event where
  | txActionReq (ttlmInfo : T2lmInfo)
  | txActionReqStart (ttlmInfo : T2lmInfo)
  | txActionReqActive (ttlmInfo : T2lmInfo)
  | txActionRsp
  | rxActionReq
  | rxActionRsp (respType : RespType)
  | beacon
  | btmLinkDisable (dialogToken : UInt8) (t2lmInfo : T2lmInfo)
  | txTeardown
  | rxTeardown
  | timeout
  | ttlmReqTimeout
  | linkRecfgDelUpdateMapping
  | linkRecfgAddUpdateMapping

/-- The states of `ttlm_request_timer` that it takes once it is initialised. -/
inductive TimerState where
  | stopped | running
  deriving DecidableEq

/-- The state machine of an MLO peer. -/
structure Sm where
  curState : SmState
  ttlmState : SmState
  ttlmSubstate : SmState
  ttlmRequestTimer : TimerState
  /-- the messages of `ttlm_tx_action_req_cb` that the scheduler holds -/
  posted : List T2lmInfo
  /-- the messages of `ttlm_req_timeout_cb` that it holds -/
  expiries : ℕ
  selfGenDialogToken : UInt8
  /-- the requests handed to `t2lm_deliver_event` -/
  requests : List (UInt8 × T2lmInfo)
  /-- a `QDF_BUG(0)` was hit -/
  bug : Bool

/-- `ttlm_sm_create`. -/
def smCreate : Sm :=
  { curState := .init
    ttlmState := .init
    ttlmSubstate := .init
    ttlmRequestTimer := .stopped
    posted := []
    expiries := 0
    selfGenDialogToken := 0
    requests := []
    bug := false }

/-- How the calls made during one delivery end. -/
structure Outcomes where
  /-- `qdf_mem_malloc` returns memory -/
  malloc : Bool
  /-- `scheduler_post_message` -/
  post : QdfStatus
  /-- `mlo_get_first_vdev_by_ml_peer` finds a vdev -/
  vdev : Bool
  /-- `wlan_objmgr_vdev_try_get_bsspeer` finds its peer -/
  bsspeer : Bool
  mloDevCtx : Bool
  psoc : Bool
  forceInactiveBitmap : UInt16
  /-- `wlan_t2lm_check_concurrency_curr_force` -/
  concurrency : QdfStatus
  /-- `t2lm_deliver_event` -/
  deliver : QdfStatus
  /-- `wlan_send_tid_to_link_mapping` -/
  mapping : QdfStatus
  /-- `ttlm_valid_n_copy_for_rx_req` -/
  validCopy : QdfStatus
  /-- the timer object passes the checks of `qdf_mc_timer_start` and `qdf_mc_timer_stop` -/
  timerUsable : Bool

/-! ## Transitions -/

/-- `parent_state` in `ttlm_sm_info`, and the state itself where it has none. -/
def SmState.top : SmState → SmState
  | init => .init
  | inprogress => .inprogress
  | negotiated => .negotiated
  | staInprogress => .inprogress
  | apActionInprogress => .inprogress
  | apBeaconInprogress => .inprogress
  | apBtmInprogress => .inprogress
  | teardownInprogress => .inprogress
  | linkRecfgUpdateMappingInprogress => .inprogress

/-- The entry routine of a state. -/
def stateEntry (s : Sm) (state : SmState) : Sm :=
  { s with ttlmState := state }

/-- The entry routine of a substate. -/
def substEntry (s : Sm) (state : SmState) : Sm :=
  { s with
    bug := s.bug || s.ttlmState != .inprogress
    ttlmSubstate := state }

/-- `ttlm_sm_transition_to`: no state has an initial substate, and no exit routine does
    anything. -/
def transitionTo (s : Sm) (state : SmState) : Sm :=
  let s := if state.top = state then stateEntry s state else substEntry s state
  { s with curState := state }

/-! ## The request timer -/

/-- `qdf_mc_timer_start`. -/
def timerStart (o : Outcomes) (s : Sm) : Sm × QdfStatus :=
  if o.timerUsable = false then (s, .eInval)
  else if s.ttlmRequestTimer = .running then (s, .eAlready)
  else ({ s with ttlmRequestTimer := .running }, .success)

/-- `qdf_mc_timer_stop`. -/
def timerStop (o : Outcomes) (s : Sm) : Sm × QdfStatus :=
  if o.timerUsable = false then (s, .eInval)
  else ({ s with ttlmRequestTimer := .stopped }, .success)

/-! ## What the handlers call -/

/-- `wlan_ttlm_handle_tx_action_req`. -/
def handleTxActionReq (o : Outcomes) (s : Sm) (ttlmInfo : T2lmInfo) : Sm × QdfStatus :=
  if o.malloc = false then (s, .eFailure)
  else if o.post = .success then ({ s with posted := s.posted ++ [ttlmInfo] }, .success)
  else (s, o.post)

/-- `t2lm_gen_dialog_token`. -/
def genDialogToken (s : Sm) : Sm :=
  { s with
    selfGenDialogToken := if s.selfGenDialogToken = 255 then 1 else s.selfGenDialogToken + 1 }

/-- The entry of the negotiation that `ttlm_populate_tx_action_req` fills in. -/
def requestInfo (ttlmInfo : T2lmInfo) : T2lmInfo :=
  if ttlmInfo.defaultLinkMapping then
    { T2lmInfo.zero with
      direction := .bidi
      defaultLinkMapping := true }
  else
    { T2lmInfo.zero with
      direction := .bidi
      linkMappingSize := true
      ieeeLinkMapTid := ttlmInfo.ieeeLinkMapTid }

/-- A mapping onto links that are all forced inactive. -/
def ForceInactive (o : Outcomes) (ttlmInfo : T2lmInfo) : Prop :=
  ttlmInfo.defaultLinkMapping = false ∧ ttlmInfo.ieeeLinkMapTid 0 ≠ 0 ∧
    ttlmInfo.ieeeLinkMapTid 0 &&& o.forceInactiveBitmap = ttlmInfo.ieeeLinkMapTid 0

instance (o : Outcomes) (ttlmInfo : T2lmInfo) : Decidable (ForceInactive o ttlmInfo) :=
  inferInstanceAs (Decidable (_ ∧ _ ∧ _))

/-- `ttlm_populate_tx_action_req`. -/
def populateTxActionReq (o : Outcomes) (s : Sm) (ttlmInfo : T2lmInfo) : Sm × QdfStatus :=
  if o.vdev = false then (s, .eNullValue)
  else if o.bsspeer = false then (s, .eNullValue)
  else if o.mloDevCtx = false then (s, .eNullValue)
  else if o.psoc = false then (s, .eNullValue)
  else if ForceInactive o ttlmInfo then (s, .eInval)
  else
    let s := genDialogToken s
    let request := (s.selfGenDialogToken, requestInfo ttlmInfo)
    ({ s with requests := s.requests ++ [request] }, o.deliver)

/-- `ttlm_handle_ap_action_req`. -/
def handleApActionReq (o : Outcomes) : QdfStatus :=
  if o.vdev = false then .eNullValue
  else if o.bsspeer = false then .eNullValue
  else o.validCopy

/-- `ttlm_handle_rx_action_rsp_in_sta_in_progress_state`. -/
def handleRxActionRsp (o : Outcomes) (s : Sm) (respType : RespType) : Sm × QdfStatus :=
  if o.vdev = false then (s, .eNullValue)
  else if o.bsspeer = false then (s, .eNullValue)
  else
    let r := if s.ttlmRequestTimer = .running then timerStop o s else (s, .success)
    if r.2 ≠ .success then (r.1, .eFailure)
    else if respType = .success ∧ o.mapping ≠ .success then (r.1, .eNullValue)
    else (transitionTo r.1 .negotiated, .success)

/-- `ttlm_handle_timer_timeout`. -/
def handleTimerTimeout (o : Outcomes) (s : Sm) : Sm :=
  if o.vdev = false then s
  else if o.bsspeer = false then s
  else transitionTo s .negotiated

/-- `ttlm_handle_btm_link_disable_t2lm_frame`. -/
def handleBtmLinkDisable (o : Outcomes) (s : Sm) (dialogToken : UInt8) (t2lmInfo : T2lmInfo) :
    Sm × QdfStatus :=
  if o.vdev = false then (s, .eNullValue)
  else if o.bsspeer = false then (s, .eNullValue)
  else if o.concurrency ≠ .success then (s, o.concurrency)
  else ({ s with requests := s.requests ++ [(dialogToken, t2lmInfo)] }, o.deliver)

/-! ## Event handlers -/

/-- What delivers an event to the current state: `ttlm_sm_deliver_event_sync`. -/
abbrev Deliver := Sm → Event → Sm × QdfStatus

/-- Move, deliver an event to the new state, and say whether it was handled. -/
def moveAndDeliver (deliver : Deliver) (s : Sm) (state : SmState) (event : Event) : Sm × Bool :=
  let r := deliver (transitionTo s state) event
  (r.1, decide (r.2 = .success))

/-- `ttlm_state_init_event`. -/
def stateInitEvent (deliver : Deliver) (s : Sm) : Event → Sm × Bool
  | .txActionReq ttlmInfo => moveAndDeliver deliver s .inprogress (.txActionReqStart ttlmInfo)
  | .rxActionReq => moveAndDeliver deliver s .inprogress .rxActionReq
  | .beacon => (s, true)
  | .btmLinkDisable dialogToken t2lmInfo =>
    moveAndDeliver deliver s .inprogress (.btmLinkDisable dialogToken t2lmInfo)
  | .linkRecfgDelUpdateMapping => moveAndDeliver deliver s .inprogress .linkRecfgDelUpdateMapping
  | .linkRecfgAddUpdateMapping => moveAndDeliver deliver s .inprogress .linkRecfgAddUpdateMapping
  | _ => (s, false)

/-- `ttlm_state_inprogress_event`. -/
def stateInprogressEvent (deliver : Deliver) (s : Sm) : Event → Sm × Bool
  | .txActionReqStart ttlmInfo =>
    moveAndDeliver deliver s .staInprogress (.txActionReqStart ttlmInfo)
  | .rxActionReq => moveAndDeliver deliver s .apActionInprogress .rxActionReq
  | .btmLinkDisable dialogToken t2lmInfo =>
    moveAndDeliver deliver s .apBtmInprogress (.btmLinkDisable dialogToken t2lmInfo)
  | .linkRecfgDelUpdateMapping =>
    moveAndDeliver deliver s .linkRecfgUpdateMappingInprogress .linkRecfgDelUpdateMapping
  | .linkRecfgAddUpdateMapping =>
    moveAndDeliver deliver s .linkRecfgUpdateMappingInprogress .linkRecfgAddUpdateMapping
  | _ => (s, false)

/-- `ttlm_state_negotiated_event`. -/
def stateNegotiatedEvent (deliver : Deliver) (s : Sm) : Event → Sm × Bool
  | .txActionReq ttlmInfo => moveAndDeliver deliver s .inprogress (.txActionReqStart ttlmInfo)
  | .rxActionReq => moveAndDeliver deliver s .inprogress .rxActionReq
  | .btmLinkDisable dialogToken t2lmInfo =>
    moveAndDeliver deliver s .inprogress (.btmLinkDisable dialogToken t2lmInfo)
  | .linkRecfgDelUpdateMapping => moveAndDeliver deliver s .inprogress .linkRecfgDelUpdateMapping
  | .linkRecfgAddUpdateMapping => moveAndDeliver deliver s .inprogress .linkRecfgAddUpdateMapping
  | _ => (s, false)

/-- `ttlm_subst_sta_inprogress_event`.  A timer that does not start is only logged. -/
def substStaInprogressEvent (o : Outcomes) (s : Sm) : Event → Sm × Bool
  | .txActionReqStart ttlmInfo =>
    let r := handleTxActionReq o s ttlmInfo
    (r.1, decide (r.2 = .success))
  | .txActionReqActive ttlmInfo =>
    let r := populateTxActionReq o s ttlmInfo
    if r.2 ≠ .success then (transitionTo r.1 .negotiated, false)
    else ((timerStart o r.1).1, true)
  | .timeout => (transitionTo s .negotiated, true)
  | .rxActionRsp respType =>
    let r := handleRxActionRsp o s respType
    (transitionTo r.1 .negotiated, decide (r.2 = .success))
  | .ttlmReqTimeout => (handleTimerTimeout o s, true)
  | _ => (s, false)

/-- `ttlm_subst_ap_action_inprogress_event`. -/
def substApActionInprogressEvent (o : Outcomes) (s : Sm) : Event → Sm × Bool
  | .rxActionReq => (s, decide (handleApActionReq o = .success))
  | .txActionRsp => (transitionTo s .negotiated, true)
  | _ => (s, false)

/-- `ttlm_subst_ap_btm_inprogress_event`: the expiry of the timer it starts is not among
    its events. -/
def substApBtmInprogressEvent (o : Outcomes) (s : Sm) : Event → Sm × Bool
  | .btmLinkDisable dialogToken t2lmInfo =>
    let r := handleBtmLinkDisable o s dialogToken t2lmInfo
    if r.2 ≠ .success then (transitionTo r.1 .negotiated, false)
    else ((timerStart o r.1).1, true)
  | .rxActionRsp respType =>
    let r := handleRxActionRsp o s respType
    (transitionTo r.1 .negotiated, decide (r.2 = .success))
  | _ => (s, false)

/-- `ttlm_subst_link_recfg_update_mapping_inprogress_event`. -/
def substLinkRecfgEvent (s : Sm) : Event → Sm × Bool
  | .linkRecfgDelUpdateMapping => (transitionTo s .negotiated, true)
  | .linkRecfgAddUpdateMapping => (transitionTo s .negotiated, true)
  | _ => (s, false)

/-- `wlan_sm_event` in `ttlm_sm_info`.  The AP beacon and the teardown substates handle
    nothing. -/
def smEvent (deliver : Deliver) (o : Outcomes) (s : Sm) (event : Event) : Sm × Bool :=
  match s.curState with
  | .init => stateInitEvent deliver s event
  | .inprogress => stateInprogressEvent deliver s event
  | .negotiated => stateNegotiatedEvent deliver s event
  | .staInprogress => substStaInprogressEvent o s event
  | .apActionInprogress => substApActionInprogressEvent o s event
  | .apBeaconInprogress => (s, false)
  | .apBtmInprogress => substApBtmInprogressEvent o s event
  | .teardownInprogress => (s, false)
  | .linkRecfgUpdateMappingInprogress => substLinkRecfgEvent s event

/-- What `wlan_sm_dispatch` makes of a handler's answer. -/
def answer (r : Sm × Bool) : Sm × QdfStatus :=
  (r.1, if r.2 then .success else .eInval)

/-- `wlan_sm_dispatch`, with the number of nested dispatches it may make. -/
def smDispatch : ℕ → Outcomes → Deliver
  | 0, _, s, _ => (s, .eFailure)
  | n + 1, o, s, event => answer (smEvent (smDispatch n o) o s event)

/-- `ttlm_sm_deliver_event`: from a state over `INPROGRESS` to a substate. -/
def deliverEvent (o : Outcomes) : Deliver :=
  smDispatch 3 o

section Depth

variable (n : ℕ) (o : Outcomes) {s : Sm} (event : Event)

/-- A substate delivers nothing further. -/
theorem smEvent_of_subst (deliver deliver' : Deliver) (h : s.curState.top ≠ s.curState) :
    smEvent deliver o s event = smEvent deliver' o s event := by
  unfold smEvent
  cases hcur : s.curState <;> first | rfl | exact absurd (by rw [hcur]; rfl) h

theorem smDispatch_of_subst (h : s.curState.top ≠ s.curState) :
    smDispatch (n + 1) o s event = smDispatch 1 o s event :=
  congrArg answer (smEvent_of_subst o event _ _ h)

/-- `INPROGRESS` delivers to a substate. -/
theorem smEvent_of_inprogress (h : s.curState = .inprogress) :
    smEvent (smDispatch (n + 1) o) o s event = smEvent (smDispatch 1 o) o s event := by
  cases event <;> simp only [smEvent, h, stateInprogressEvent, moveAndDeliver] <;>
    rw [smDispatch_of_subst n o _ (by simp [transitionTo, SmState.top])]

theorem smDispatch_of_inprogress (h : s.curState = .inprogress) :
    smDispatch (n + 2) o s event = smDispatch 2 o s event :=
  congrArg answer (smEvent_of_inprogress n o event h)

/-- The other two states deliver to `INPROGRESS`. -/
theorem smEvent_of_top (h : s.curState = .init ∨ s.curState = .negotiated) :
    smEvent (smDispatch (n + 2) o) o s event = smEvent (smDispatch 2 o) o s event := by
  rcases h with h | h <;> cases event <;>
    simp only [smEvent, h, stateInitEvent, stateNegotiatedEvent, moveAndDeliver] <;>
    rw [smDispatch_of_inprogress n o _ rfl]

/-- **Three dispatches** are as many as there ever are inside each other. -/
theorem smDispatch_eq_deliverEvent : smDispatch (n + 3) o s event = deliverEvent o s event := by
  refine congrArg answer ?_
  by_cases hsub : s.curState.top = s.curState
  · cases hcur : s.curState <;> rw [hcur] at hsub <;> try exact SmState.noConfusion hsub
    · exact smEvent_of_top n o event (.inl hcur)
    · rw [smEvent_of_inprogress (n + 1) o event hcur, ← smEvent_of_inprogress 1 o event hcur]
    · exact smEvent_of_top n o event (.inr hcur)
  · exact smEvent_of_subst o event _ _ hsub

end Depth

/-! ## Steps -/

/-- The events that other components deliver. -/
inductive Call where
  | txActionReq (ttlmInfo : T2lmInfo)
  | txActionRsp
  | rxActionReq
  | rxActionRsp (respType : RespType)
  | beacon
  | btmLinkDisable (dialogToken : UInt8) (t2lmInfo : T2lmInfo)
  | txTeardown
  | rxTeardown
  | timeout
  | linkRecfgDelUpdateMapping
  | linkRecfgAddUpdateMapping

def Call.event : Call → Event
  | txActionReq ttlmInfo => .txActionReq ttlmInfo
  | txActionRsp => .txActionRsp
  | rxActionReq => .rxActionReq
  | rxActionRsp respType => .rxActionRsp respType
  | beacon => .beacon
  | btmLinkDisable dialogToken t2lmInfo => .btmLinkDisable dialogToken t2lmInfo
  | txTeardown => .txTeardown
  | rxTeardown => .rxTeardown
  | timeout => .timeout
  | linkRecfgDelUpdateMapping => .linkRecfgDelUpdateMapping
  | linkRecfgAddUpdateMapping => .linkRecfgAddUpdateMapping

/-- What can happen to the machine. -/
inductive Action where
  /-- another component delivers an event -/
  | call (c : Call) (o : Outcomes)
  /-- the scheduler runs `ttlm_tx_action_req_cb` -/
  | message (o : Outcomes)
  /-- the timer expires, and its callback is posted to the scheduler -/
  | expire (o : Outcomes)
  /-- the scheduler runs `ttlm_req_timeout_cb` -/
  | reqTimeout (o : Outcomes)

/-- `ttlm_tx_action_req_cb`, on the next message. -/
def txActionReqCb (o : Outcomes) (s : Sm) : Sm × QdfStatus :=
  match s.posted with
  | [] => (s, .success)
  | ttlmInfo :: posted => deliverEvent o { s with posted := posted } (.txActionReqActive ttlmInfo)

/-- `scheduler_mc_timer_callback`: the timer is stopped before the message is built. -/
def mcTimerCallback (o : Outcomes) (s : Sm) : Sm :=
  if s.ttlmRequestTimer = .stopped then s
  else if o.malloc = true ∧ o.post = .success then
    { s with
      ttlmRequestTimer := .stopped
      expiries := s.expiries + 1 }
  else { s with ttlmRequestTimer := .stopped }

/-- `ttlm_req_timeout_cb`, when the scheduler holds a message for it. -/
def reqTimeoutCb (o : Outcomes) (s : Sm) : Sm × QdfStatus :=
  if s.expiries = 0 then (s, .success)
  else deliverEvent o { s with expiries := s.expiries - 1 } .ttlmReqTimeout

def step (s : Sm) : Action → Sm
  | .call c o => (deliverEvent o s c.event).1
  | .message o => (txActionReqCb o s).1
  | .expire o => mcTimerCallback o s
  | .reqTimeout o => (reqTimeoutCb o s).1

/-- The states of a run, from the first to the last. -/
def states (s : Sm) (actions : List Action) : List Sm :=
  actions.scanl step s

end Sm8850.Mlo.Ttlm
