/-
  When a TTLM negotiation leaves the machine waiting for nothing.

  * `Leads`: deliveries of what is outstanding (the posted message, the request timer)
    take the machine to `NEGOTIATED` with no word from the AP.
  * `Live`: a machine in `INPROGRESS`, or in a substate of a negotiation started here,
    has such an outstanding trigger.
  * `Safe` is the condition on one action.
  * `ttlm_live_iff`: every state of a run is live exactly when every action meets it.
-/
import Sm8850.Mlo.Ttlm

namespace Sm8850.Mlo.Ttlm

open T2lm (T2lmInfo)

/-! ## What a run may wait for -/

/-- The delivery of an outstanding trigger to a state that handles it. -/
inductive Fires : Sm → Sm → Prop where
  | message {s s' : Sm} (o : Outcomes) :
      s.posted ≠ [] → txActionReqCb o s = (s', .success) → Fires s s'
  | expire {s : Sm} (o : Outcomes) :
      s.ttlmRequestTimer = .running → Fires s (mcTimerCallback o s)
  | reqTimeout {s s' : Sm} (o : Outcomes) :
      s.expiries ≠ 0 → reqTimeoutCb o s = (s', .success) → Fires s s'

/-- The outstanding triggers lead to `NEGOTIATED`. -/
def Leads (s : Sm) : Prop :=
  ∃ s', Relation.ReflTransGen Fires s s' ∧ s'.curState = .negotiated

/-- `INPROGRESS` itself, or a negotiation that was started here. -/
def SmState.Started (state : SmState) : Prop :=
  state = .inprogress ∨ state = .staInprogress ∨ state = .apBtmInprogress

/-- A machine that is not wedged. -/
def Live (s : Sm) : Prop :=
  s.curState.Started → Leads s

/-- A trigger is outstanding. -/
def Pending (s : Sm) : Prop :=
  s.posted ≠ [] ∨ s.ttlmRequestTimer = .running ∨ s.expiries ≠ 0

/-! ## The condition on an action -/

/-- `ttlm_populate_tx_action_req` hands the request over, and the frame is delivered. -/
def Outcomes.Sends (o : Outcomes) (ttlmInfo : T2lmInfo) : Prop :=
  o.vdev = true ∧ o.bsspeer = true ∧ o.mloDevCtx = true ∧ o.psoc = true ∧
    ¬ ForceInactive o ttlmInfo ∧ o.deliver = .success

/-- So does `ttlm_handle_btm_link_disable_t2lm_frame`. -/
def Outcomes.SendsBtm (o : Outcomes) : Prop :=
  o.vdev = true ∧ o.bsspeer = true ∧ o.concurrency = .success ∧ o.deliver = .success

/-- The condition on one action: a request is posted, a sent request has its timer, an
    expiry gets to a machine that still has its vdev and peer, unless another trigger is
    outstanding; and no frame is sent for a BTM request. -/
def Safe (s : Sm) : Action → Prop
  | .call (.txActionReq _) o =>
    s.curState = .init ∨ s.curState = .negotiated →
      (o.malloc = true ∧ o.post = .success) ∨ Pending s
  | .call (.btmLinkDisable _ _) o =>
    s.curState = .init ∨ s.curState = .negotiated → ¬ o.SendsBtm
  | .call _ _ => True
  | .message o =>
    s.curState = .staInprogress → ∀ ttlmInfo posted, s.posted = ttlmInfo :: posted →
      o.Sends ttlmInfo → o.timerUsable = true ∨ Pending { s with posted := posted }
  | .expire o =>
    s.curState = .staInprogress → s.ttlmRequestTimer = .running →
      (o.malloc = true ∧ o.post = .success) ∨ Pending { s with ttlmRequestTimer := .stopped }
  | .reqTimeout o =>
    s.curState = .staInprogress → s.expiries ≠ 0 →
      (o.vdev = true ∧ o.bsspeer = true) ∨ Pending { s with expiries := s.expiries - 1 }

/-! ## Transitions and handlers -/

section Frames

variable (o : Outcomes) (s : Sm)

@[simp] theorem transitionTo_curState (state : SmState) :
    (transitionTo s state).curState = state := rfl

@[simp] theorem transitionTo_posted (state : SmState) :
    (transitionTo s state).posted = s.posted := by
  unfold transitionTo; split <;> rfl

@[simp] theorem transitionTo_ttlmRequestTimer (state : SmState) :
    (transitionTo s state).ttlmRequestTimer = s.ttlmRequestTimer := by
  unfold transitionTo; split <;> rfl

@[simp] theorem transitionTo_expiries (state : SmState) :
    (transitionTo s state).expiries = s.expiries := by
  unfold transitionTo; split <;> rfl

/-- The transitions leave what is outstanding as it is. -/
@[simp] theorem pending_transitionTo (state : SmState) :
    Pending (transitionTo s state) ↔ Pending s := by
  simp [Pending]

@[simp] theorem populateTxActionReq_curState (ttlmInfo : T2lmInfo) :
    (populateTxActionReq o s ttlmInfo).1.curState = s.curState := by
  unfold populateTxActionReq; split_ifs <;> rfl

@[simp] theorem pending_populateTxActionReq (ttlmInfo : T2lmInfo) :
    Pending (populateTxActionReq o s ttlmInfo).1 ↔ Pending s := by
  unfold populateTxActionReq; split_ifs <;> rfl

theorem populateTxActionReq_success (ttlmInfo : T2lmInfo) :
    (populateTxActionReq o s ttlmInfo).2 = .success ↔ o.Sends ttlmInfo := by
  unfold populateTxActionReq Outcomes.Sends
  split_ifs <;> simp_all

theorem handleBtmLinkDisable_success (dialogToken : UInt8) (t2lmInfo : T2lmInfo) :
    (handleBtmLinkDisable o s dialogToken t2lmInfo).2 = .success ↔ o.SendsBtm := by
  unfold handleBtmLinkDisable Outcomes.SendsBtm
  split_ifs <;> simp_all

@[simp] theorem handleBtmLinkDisable_curState (dialogToken : UInt8) (t2lmInfo : T2lmInfo) :
    (handleBtmLinkDisable o s dialogToken t2lmInfo).1.curState = s.curState := by
  unfold handleBtmLinkDisable; split_ifs <;> rfl

@[simp] theorem timerStart_curState : (timerStart o s).1.curState = s.curState := by
  unfold timerStart; split_ifs <;> rfl

/-- A start that fails for a running timer leaves it running. -/
theorem pending_timerStart :
    Pending (timerStart o s).1 ↔ o.timerUsable = true ∨ Pending s := by
  unfold timerStart Pending
  split_ifs <;> simp_all

@[simp] theorem handleTxActionReq_curState (ttlmInfo : T2lmInfo) :
    (handleTxActionReq o s ttlmInfo).1.curState = s.curState := by
  unfold handleTxActionReq; split_ifs <;> rfl

theorem pending_handleTxActionReq (ttlmInfo : T2lmInfo) :
    Pending (handleTxActionReq o s ttlmInfo).1 ↔
      (o.malloc = true ∧ o.post = .success) ∨ Pending s := by
  unfold handleTxActionReq Pending
  split_ifs <;> simp_all

theorem handleTimerTimeout_eq : handleTimerTimeout o s =
    if o.vdev = true ∧ o.bsspeer = true then transitionTo s .negotiated else s := by
  unfold handleTimerTimeout
  split_ifs <;> simp_all

end Frames

/-! ## What a delivery does -/

section Deliveries

variable {o : Outcomes} {s : Sm} {event : Event}

/-- From a state of its own to a substate of `INPROGRESS`. -/
def enter (s : Sm) (state : SmState) : Sm :=
  transitionTo (transitionTo s .inprogress) state

@[simp] theorem enter_curState (state : SmState) : (enter s state).curState = state := rfl

@[simp] theorem pending_enter (state : SmState) : Pending (enter s state) ↔ Pending s := by
  simp [enter]

theorem deliverEvent_sta_eq (h : s.curState = .staInprogress) :
    deliverEvent o s event = answer (substStaInprogressEvent o s event) := by
  simp only [deliverEvent, smDispatch, answer, smEvent, h]

theorem deliverEvent_sta (h : s.curState = .staInprogress) :
    (deliverEvent o s event).1 = (substStaInprogressEvent o s event).1 := by
  rw [deliverEvent_sta_eq h, answer]

theorem deliverEvent_apAction (h : s.curState = .apActionInprogress) :
    (deliverEvent o s event).1 = (substApActionInprogressEvent o s event).1 := by
  simp [deliverEvent, smDispatch, answer, smEvent, h]

theorem deliverEvent_apBtm (h : s.curState = .apBtmInprogress) :
    (deliverEvent o s event).1 = (substApBtmInprogressEvent o s event).1 := by
  simp [deliverEvent, smDispatch, answer, smEvent, h]

/-- The events a negotiation of this side starts with. -/
def Event.Starts : Event → Prop
  | .txActionReq _ => True
  | .btmLinkDisable _ _ => True
  | _ => False

/-- What an event does to a machine between two negotiations. -/
inductive FromTop (o : Outcomes) (s : Sm) : Event → Sm → Prop where
  | same {event : Event} : ¬ event.Starts → FromTop o s event s
  | request (ttlmInfo : T2lmInfo) : FromTop o s (.txActionReq ttlmInfo)
      (handleTxActionReq o (enter s .staInprogress) ttlmInfo).1
  | apAction : FromTop o s .rxActionReq (enter s .apActionInprogress)
  | btmSent (dialogToken : UInt8) (t2lmInfo : T2lmInfo) : o.SendsBtm →
      FromTop o s (.btmLinkDisable dialogToken t2lmInfo)
        (timerStart o (handleBtmLinkDisable o (enter s .apBtmInprogress) dialogToken t2lmInfo).1).1
  | btmFailed (dialogToken : UInt8) (t2lmInfo : T2lmInfo) : ¬ o.SendsBtm →
      FromTop o s (.btmLinkDisable dialogToken t2lmInfo)
        (transitionTo (handleBtmLinkDisable o (enter s .apBtmInprogress) dialogToken t2lmInfo).1
          .negotiated)
  | linkRecfg {event : Event} : ¬ event.Starts → FromTop o s event
      (transitionTo (enter s .linkRecfgUpdateMappingInprogress) .negotiated)

/-- The handlers of the two states differ in the beacon alone, which changes nothing. -/
theorem deliverEvent_top (h : s.curState = .init ∨ s.curState = .negotiated) :
    FromTop o s event (deliverEvent o s event).1 := by
  have hbtm : ∀ dialogToken t2lmInfo, FromTop o s (.btmLinkDisable dialogToken t2lmInfo)
      (substApBtmInprogressEvent o (enter s .apBtmInprogress)
        (.btmLinkDisable dialogToken t2lmInfo)).1 := by
    intro dialogToken t2lmInfo
    have hsent := handleBtmLinkDisable_success o (enter s .apBtmInprogress) dialogToken t2lmInfo
    simp only [substApBtmInprogressEvent]
    split_ifs with hok
    · exact .btmFailed _ _ fun hs => hok (hsent.2 hs)
    · exact .btmSent _ _ (hsent.1 (not_not.1 hok))
  rcases h with h | h <;> cases event <;>
    simp only [deliverEvent, smDispatch, answer, smEvent, h, stateInitEvent, stateNegotiatedEvent,
      moveAndDeliver, transitionTo_curState, stateInprogressEvent] <;>
    first
    | exact .same id
    | exact .request _
    | exact .apAction
    | exact hbtm _ _
    | exact .linkRecfg id

end Deliveries

/-! ## One action -/

/-- The states between two deliveries. -/
def Rests (s : Sm) : Prop :=
  s.curState = .init ∨ s.curState = .negotiated ∨ s.curState = .apActionInprogress ∨
    s.curState = .staInprogress ∨ s.curState = .apBtmInprogress

/-- A state between two deliveries that is not wedged. -/
def Settled (s : Sm) : Prop :=
  (s.curState = .init ∨ s.curState = .negotiated) ∨ s.curState = .apActionInprogress ∨
    s.curState = .staInprogress ∧ Pending s

section Step

variable {s : Sm}

theorem settled_of_negotiated (h : s.curState = .negotiated) : Settled s := .inl (.inr h)

theorem settled_sta (h : s.curState = .staInprogress) : Settled s ↔ Pending s := by
  simp [Settled, h]

theorem not_settled_apBtm (h : s.curState = .apBtmInprogress) : ¬ Settled s := by
  simp [Settled, h]

/-- What is outstanding changes nothing but for itself in a state without a negotiation. -/
theorem settled_congr {t : Sm} (h : t.curState = s.curState) (hs : Settled s)
    (hsta : s.curState ≠ .staInprogress) : Settled t := by
  simp only [Settled, h] at hs ⊢
  tauto

/-- An event that starts no negotiation leaves a machine between two of them settled. -/
theorem FromTop.settled {o : Outcomes} {event : Event} {t : Sm} (ht : FromTop o s event t)
    (h : s.curState = .init ∨ s.curState = .negotiated) (he : ¬ event.Starts) : Settled t := by
  cases ht with
  | same => exact .inl h
  | request => exact absurd trivial he
  | apAction => exact .inr (.inl rfl)
  | btmSent => exact absurd trivial he
  | btmFailed => exact absurd trivial he
  | linkRecfg => exact settled_of_negotiated rfl

theorem settled_deliver_top {o : Outcomes} {event : Event}
    (h : s.curState = .init ∨ s.curState = .negotiated) (he : ¬ event.Starts) :
    Settled (deliverEvent o s event).1 :=
  (deliverEvent_top h).settled h he

theorem settled_step_top (h : s.curState = .init ∨ s.curState = .negotiated) (a : Action) :
    Settled (step s a) ↔ Safe s a := by
  have hsta : s.curState ≠ .staInprogress := by rcases h with h | h <;> simp [h]
  cases a with
  | call c o =>
    have htop : FromTop o s c.event (step s (.call c o)) := deliverEvent_top h
    generalize step s (.call c o) = t at htop ⊢
    cases c with
    | txActionReq ttlmInfo =>
      cases htop with
      | same he => exact absurd trivial he
      | linkRecfg he => exact absurd trivial he
      | request =>
        rw [settled_sta (by simp), pending_handleTxActionReq, pending_enter]
        simp [Safe, h]
    | btmLinkDisable dialogToken t2lmInfo =>
      cases htop with
      | same he => exact absurd trivial he
      | linkRecfg he => exact absurd trivial he
      | btmSent _ _ hs =>
        exact iff_of_false (not_settled_apBtm (by simp)) fun hsafe => hsafe h hs
      | btmFailed _ _ hs => exact iff_of_true (settled_of_negotiated rfl) fun _ => hs
    | _ => exact iff_of_true (htop.settled h id) trivial
  | message o =>
    refine iff_of_true ?_ fun hcur => absurd hcur hsta
    simp only [step, txActionReqCb]
    split
    · exact .inl h
    · exact settled_deliver_top h id
  | expire o =>
    refine iff_of_true (settled_congr (s := s) ?_ (.inl h) hsta) fun hcur => absurd hcur hsta
    simp only [step, mcTimerCallback]
    split_ifs <;> rfl
  | reqTimeout o =>
    refine iff_of_true ?_ fun hcur => absurd hcur hsta
    simp only [step, reqTimeoutCb]
    split_ifs
    · exact .inl h
    · exact settled_deliver_top h id

theorem settled_step_apAction (h : s.curState = .apActionInprogress) (a : Action) :
    Settled (step s a) ∧ Safe s a := by
  have hsub : ∀ (o : Outcomes) (event : Event) (t : Sm), t.curState = .apActionInprogress →
      Settled (deliverEvent o t event).1 := by
    intro o event t ht
    rw [deliverEvent_apAction ht]
    cases event with
    | txActionRsp => exact settled_of_negotiated rfl
    | _ => exact .inr (.inl ht)
  cases a with
  | call c o =>
    refine ⟨hsub _ _ _ h, ?_⟩
    cases c <;> simp [Safe, h]
  | message o =>
    refine ⟨?_, by simp [Safe, h]⟩
    simp only [step, txActionReqCb]
    split
    · exact .inr (.inl h)
    · exact hsub _ _ _ h
  | expire o =>
    refine ⟨.inr (.inl ?_), by simp [Safe, h]⟩
    simp only [step, mcTimerCallback]
    split_ifs <;> exact h
  | reqTimeout o =>
    refine ⟨?_, by simp [Safe, h]⟩
    simp only [step, reqTimeoutCb]
    split_ifs
    · exact .inr (.inl h)
    · exact hsub _ _ _ h

/-- In the STA substate a message asks for a frame, and a timer is armed for it. -/
theorem settled_step_message (h : s.curState = .staInprogress) (hp : Pending s) (o : Outcomes) :
    Settled (step s (.message o)) ↔ Safe s (.message o) := by
  simp only [step, txActionReqCb, Safe]
  cases hposted : s.posted with
  | nil => exact iff_of_true ((settled_sta h).2 hp) (by intros; contradiction)
  | cons ttlmInfo posted =>
    have hsends := populateTxActionReq_success o { s with posted := posted } ttlmInfo
    simp only [deliverEvent_sta (s := { s with posted := posted }) h, substStaInprogressEvent]
    split_ifs with hok
    · refine iff_of_true (settled_of_negotiated rfl) fun _ i l hl hs => ?_
      cases hl
      exact absurd (hsends.2 hs) hok
    · rw [settled_sta (by simp [h]), pending_timerStart, pending_populateTxActionReq]
      refine ⟨fun hpend _ i l hl _ => ?_, fun hsafe => hsafe h _ _ rfl (hsends.1 (not_not.1 hok))⟩
      cases hl
      exact hpend

theorem settled_step_sta (h : s.curState = .staInprogress) (hp : Pending s) (a : Action) :
    Settled (step s a) ↔ Safe s a := by
  cases a with
  | call c o =>
    simp only [step, deliverEvent_sta h]
    cases c with
    | rxActionRsp respType => exact iff_of_true (settled_of_negotiated rfl) trivial
    | timeout => exact iff_of_true (settled_of_negotiated rfl) trivial
    | txActionReq _ => exact iff_of_true ((settled_sta h).2 hp) (by simp [Safe, h])
    | btmLinkDisable _ _ => exact iff_of_true ((settled_sta h).2 hp) (by simp [Safe, h])
    | _ => exact iff_of_true ((settled_sta h).2 hp) trivial
  | message o => exact settled_step_message h hp o
  | expire o =>
    simp only [step, mcTimerCallback, Safe]
    split_ifs with hstop hposts
    · exact iff_of_true ((settled_sta h).2 hp) fun _ hrun => by simp [hrun] at hstop
    · exact iff_of_true (.inr (.inr ⟨h, .inr (.inr (Nat.succ_ne_zero _))⟩)) fun _ _ => .inl hposts
    · have hrun : s.ttlmRequestTimer = .running := by
        cases ht : s.ttlmRequestTimer <;> simp_all
      refine Iff.trans (settled_sta h) ?_
      exact ⟨fun hpend _ _ => .inr hpend, fun hsafe => (hsafe h hrun).resolve_left hposts⟩
  | reqTimeout o =>
    simp only [step, reqTimeoutCb, Safe]
    split_ifs with hnone
    · exact iff_of_true ((settled_sta h).2 hp) fun _ hsome => absurd hnone hsome
    · rw [deliverEvent_sta (s := { s with expiries := s.expiries - 1 }) h]
      simp only [substStaInprogressEvent, handleTimerTimeout_eq]
      split_ifs with hfound
      · exact iff_of_true (settled_of_negotiated rfl) fun _ _ => .inl hfound
      · refine Iff.trans (settled_sta h) ?_
        exact ⟨fun hpend _ _ => .inr hpend, fun hsafe => (hsafe h hnone).resolve_left hfound⟩

/-- **One action** leaves a settled machine settled exactly when it meets the condition. -/
theorem settled_step_iff (hs : Settled s) (a : Action) : Settled (step s a) ↔ Safe s a := by
  obtain h | h | ⟨h, hp⟩ := hs
  · exact settled_step_top h a
  · exact iff_of_true (settled_step_apAction h a).1 (settled_step_apAction h a).2
  · exact settled_step_sta h hp a

end Step

/-! ## Between two actions -/

section Rest

variable {o : Outcomes} {s : Sm} {event : Event}

theorem Settled.rests (h : Settled s) : Rests s := by
  obtain (h | h) | h | ⟨h, -⟩ := h <;> simp [Rests, h]

theorem rests_of_negotiated (h : s.curState = .negotiated) : Rests s := .inr (.inl h)

theorem FromTop.rests {t : Sm} (ht : FromTop o s event t)
    (h : s.curState = .init ∨ s.curState = .negotiated) : Rests t := by
  cases ht with
  | same => exact h.elim .inl rests_of_negotiated
  | request => simp [Rests]
  | apAction => simp [Rests]
  | btmSent => simp [Rests]
  | btmFailed => exact rests_of_negotiated rfl
  | linkRecfg => exact rests_of_negotiated rfl

/-- A handler of the STA substate stays in it or ends the negotiation. -/
theorem rests_sta (h : s.curState = .staInprogress) :
    Rests (substStaInprogressEvent o s event).1 := by
  have hstay : Rests s := by simp [Rests, h]
  cases event with
  | txActionReqStart ttlmInfo => simp [substStaInprogressEvent, Rests, h]
  | txActionReqActive ttlmInfo =>
    simp only [substStaInprogressEvent]
    split_ifs
    · exact rests_of_negotiated rfl
    · simp [Rests, h]
  | timeout => exact rests_of_negotiated rfl
  | rxActionRsp respType => exact rests_of_negotiated rfl
  | ttlmReqTimeout =>
    simp only [substStaInprogressEvent, handleTimerTimeout_eq]
    split_ifs
    · exact rests_of_negotiated rfl
    · exact hstay
  | _ => exact hstay

theorem rests_apAction (h : s.curState = .apActionInprogress) :
    Rests (substApActionInprogressEvent o s event).1 := by
  cases event with
  | txActionRsp => exact rests_of_negotiated rfl
  | _ => exact .inr (.inr (.inl h))

theorem rests_apBtm (h : s.curState = .apBtmInprogress) :
    Rests (substApBtmInprogressEvent o s event).1 := by
  cases event with
  | btmLinkDisable dialogToken t2lmInfo =>
    simp only [substApBtmInprogressEvent]
    split_ifs
    · exact rests_of_negotiated rfl
    · simp [Rests, h]
  | rxActionRsp respType => exact rests_of_negotiated rfl
  | _ => exact .inr (.inr (.inr (.inr h)))

/-- `INPROGRESS` itself and the other substates are left before a delivery ends. -/
theorem rests_deliverEvent (h : Rests s) : Rests (deliverEvent o s event).1 := by
  obtain h | h | h | h | h := h
  · exact (deliverEvent_top (.inl h)).rests (.inl h)
  · exact (deliverEvent_top (.inr h)).rests (.inr h)
  · exact deliverEvent_apAction h ▸ rests_apAction h
  · exact deliverEvent_sta h ▸ rests_sta h
  · exact deliverEvent_apBtm h ▸ rests_apBtm h

theorem rests_step (h : Rests s) (a : Action) : Rests (step s a) := by
  cases a with
  | call c o => exact rests_deliverEvent h
  | message o =>
    simp only [step, txActionReqCb]
    split
    · exact h
    · exact rests_deliverEvent h
  | expire o =>
    simp only [step, mcTimerCallback]
    split_ifs <;> exact h
  | reqTimeout o =>
    simp only [step, reqTimeoutCb]
    split_ifs
    · exact h
    · exact rests_deliverEvent h

end Rest

/-! ## Wedged or not -/

section Live

variable {s s' : Sm}

/-- Every call succeeds, and no link is forced inactive. -/
def allSucceed : Outcomes :=
  { malloc := true
    post := .success
    vdev := true
    bsspeer := true
    mloDevCtx := true
    psoc := true
    forceInactiveBitmap := 0
    concurrency := .success
    deliver := .success
    mapping := .success
    validCopy := .success
    timerUsable := true }

theorem allSucceed_sends (ttlmInfo : T2lmInfo) : allSucceed.Sends ttlmInfo := by
  refine ⟨rfl, rfl, rfl, rfl, fun ⟨_, hmap, hforced⟩ => hmap ?_, rfl⟩
  rw [← hforced]
  exact UInt16.and_zero

theorem leads_of_fires (h : Fires s s') (h' : Leads s') : Leads s :=
  h'.imp fun _ ht => ⟨.head h ht.1, ht.2⟩

theorem leads_of_expiries (h : s.curState = .staInprogress) (hexp : s.expiries ≠ 0) : Leads s := by
  refine ⟨transitionTo { s with expiries := s.expiries - 1 } .negotiated, .single ?_, rfl⟩
  refine .reqTimeout allSucceed hexp ?_
  rw [reqTimeoutCb, if_neg hexp, deliverEvent_sta_eq (by exact h)]
  simp [answer, substStaInprogressEvent, handleTimerTimeout_eq, allSucceed]

theorem leads_of_running (h : s.curState = .staInprogress)
    (hrun : s.ttlmRequestTimer = .running) : Leads s := by
  refine leads_of_fires (.expire allSucceed hrun) (leads_of_expiries ?_ ?_)
  · simp [mcTimerCallback, hrun, allSucceed, h]
  · simp [mcTimerCallback, hrun, allSucceed]

/-- The message starts the timer, if it does not run already. -/
theorem leads_of_posted (h : s.curState = .staInprogress) (hposted : s.posted ≠ []) : Leads s := by
  obtain ⟨ttlmInfo, posted, hcons⟩ := List.exists_cons_of_ne_nil hposted
  let t : Sm := { s with posted := posted }
  have ht : t.curState = .staInprogress := h
  have hok : (populateTxActionReq allSucceed t ttlmInfo).2 = .success :=
    (populateTxActionReq_success _ _ _).2 (allSucceed_sends ttlmInfo)
  have hcb : txActionReqCb allSucceed s =
      ((timerStart allSucceed (populateTxActionReq allSucceed t ttlmInfo).1).1, .success) := by
    simp only [txActionReqCb, hcons]
    rw [deliverEvent_sta_eq ht]
    simp [answer, substStaInprogressEvent, hok]
  refine leads_of_fires (.message allSucceed hposted hcb) (leads_of_running (by simp [ht]) ?_)
  · unfold timerStart
    split_ifs with husable hrun
    · exact absurd husable (by simp [allSucceed])
    · exact hrun
    · rfl

theorem leads_of_pending (h : s.curState = .staInprogress) (hp : Pending s) : Leads s := by
  obtain hposted | hrun | hexp := hp
  · exact leads_of_posted h hposted
  · exact leads_of_running h hrun
  · exact leads_of_expiries h hexp

theorem pending_of_fires (h : Fires s s') : Pending s := by
  cases h with
  | message o hposted _ => exact .inl hposted
  | expire o hrun => exact .inr (.inl hrun)
  | reqTimeout o hexp _ => exact .inr (.inr hexp)

/-- Neither the message nor the expiry is an event of the AP BTM substate. -/
theorem apBtm_of_fires (h : Fires s s') (hcur : s.curState = .apBtmInprogress) :
    s'.curState = .apBtmInprogress := by
  cases h with
  | message o hposted hcb =>
    obtain ⟨ttlmInfo, posted, hcons⟩ := List.exists_cons_of_ne_nil hposted
    simp [txActionReqCb, hcons, deliverEvent, smDispatch, answer, smEvent, hcur,
      substApBtmInprogressEvent] at hcb
  | expire o hrun =>
    unfold mcTimerCallback
    split_ifs <;> exact hcur
  | reqTimeout o hexp hcb =>
    simp [reqTimeoutCb, hexp, deliverEvent, smDispatch, answer, smEvent, hcur,
      substApBtmInprogressEvent] at hcb

theorem not_leads_of_apBtm (hcur : s.curState = .apBtmInprogress) : ¬ Leads s := by
  rintro ⟨t, hrun, ht⟩
  have htcur : t.curState = .apBtmInprogress := by
    clear ht
    induction hrun with
    | refl => exact hcur
    | tail _ hfires ih => exact apBtm_of_fires hfires ih
  rw [ht] at htcur
  exact SmState.noConfusion htcur

theorem pending_of_leads (h : s.curState = .staInprogress) (hl : Leads s) : Pending s := by
  obtain ⟨t, hrun, ht⟩ := hl
  rcases Relation.ReflTransGen.cases_head hrun with rfl | ⟨_, hfires, _⟩
  · rw [h] at ht
    exact SmState.noConfusion ht
  · exact pending_of_fires hfires

/-- A state between two deliveries is live exactly when it is settled. -/
theorem live_iff_settled (h : Rests s) : Live s ↔ Settled s := by
  obtain h | h | h | h | h := h
  · simp [Live, SmState.Started, Settled, h]
  · simp [Live, SmState.Started, Settled, h]
  · simp [Live, SmState.Started, Settled, h]
  · rw [settled_sta h]
    exact ⟨fun hl => pending_of_leads h (hl (.inr (.inl h))), fun hp _ => leads_of_pending h hp⟩
  · exact iff_of_false (fun hl => not_leads_of_apBtm h (hl (.inr (.inr h)))) (not_settled_apBtm h)

end Live

/-! ## Runs -/

theorem live_states_iff {s : Sm} (hs : Settled s) (actions : List Action) :
    (∀ t ∈ states s actions, Live t) ↔ ∀ p ∈ (states s actions).zip actions, Safe p.1 p.2 := by
  have hlive : Live s := (live_iff_settled hs.rests).2 hs
  induction actions generalizing s with
  | nil => simpa [states] using hlive
  | cons a actions ih =>
    simp only [states, List.scanl_cons, List.forall_mem_cons, List.zip_cons_cons] at ih ⊢
    have hnext : Live (step s a) ↔ Safe s a :=
      (live_iff_settled (rests_step hs.rests a)).trans (settled_step_iff hs a)
    constructor
    · rintro ⟨_, hall⟩
      have hnow : Live (step s a) := hall _ (by cases actions <;> simp)
      have hsettled := (live_iff_settled (rests_step hs.rests a)).1 hnow
      exact ⟨hnext.1 hnow, (ih hsettled hnow).1 hall⟩
    · rintro ⟨hsafe, hall⟩
      have hnow : Live (step s a) := hnext.2 hsafe
      have hsettled := (live_iff_settled (rests_step hs.rests a)).1 hnow
      exact ⟨hlive, (ih hsettled hnow).2 hall⟩

/-- **A run** of a created machine goes through live states only exactly when every action
    meets the condition. -/
theorem ttlm_live_iff (actions : List Action) :
    (∀ s ∈ states smCreate actions, Live s) ↔
      ∀ p ∈ (states smCreate actions).zip actions, Safe p.1 p.2 :=
  live_states_iff (.inl (.inl rfl)) actions

/-- A request for which no message can be allocated: the machine is left in the STA
    substate with neither a message nor a timer. -/
theorem not_live_noMemory :
    ∃ s ∈ states smCreate [.call (.txActionReq .zero) { allSucceed with malloc := false }],
      ¬ Live s := by
  refine ⟨step smCreate (.call (.txActionReq .zero) { allSucceed with malloc := false }),
    by simp [states], fun h => ?_⟩
  have hsettled := (live_iff_settled (rests_step (.inl rfl) _)).1 h
  have hpending := (settled_sta rfl).1 hsettled
  exact absurd hpending (by unfold Pending; decide)

end Sm8850.Mlo.Ttlm
