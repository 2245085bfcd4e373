/-
  The host snapshot of one link over a sequence of frames, as
  `wlan_mgmt_rx_reo_update_host_snapshot` keeps it with error handling.

  A frame whose counter is not newer is marked to be dropped, but the update goes on and
  takes over its counter all the same.

  * `hostRun`: the frames of the link, and between them the checks that may invalidate the
    snapshot.
  * `InOrder`: what the snapshot is there for; `Accepts`: the frames that leave it intact.
  * `keepsOrder_iff`: one frame.
  * **`inOrder_iff`**: a run is in order just when every frame of it is of these.
-/
import Sm8850.Reo.Snapshots

namespace Sm8850.Reo

/-! ## The update -/

/-- Why a frame is dropped on its way in. -/
inductive DropReason
  | invalidReoParams | outOfOrderPktCtr | duplicatePktCtr | snapshotSanityFailure

/-- The reorder parameters that come with a frame. -/
structure ReoParams where
  valid : Bool
  mgmtPktCtr : UInt16
  globalTimestamp : UInt32

/-- What the update leaves in the frame descriptor and in the host snapshot. -/
structure Update where
  status : Status
  host : Snapshot
  drop : Option DropReason
  pktCtrDelta : ℤ
  selfRecovery : Bool

/-- The frame as the latest one seen. -/
def ReoParams.snapshot (p : ReoParams) : Snapshot :=
  { valid := true, mgmtPktCtr := p.mgmtPktCtr, globalTimestamp := p.globalTimestamp }

/-- `handle_out_of_order_pkt_ctr`: the frame is to be dropped. -/
def handleOutOfOrderPktCtr (host : Snapshot) (p : ReoParams) : DropReason :=
  if p.mgmtPktCtr = host.mgmtPktCtr then .duplicatePktCtr else .outOfOrderPktCtr

/-- `wlan_mgmt_rx_reo_update_host_snapshot`; `thresh` is the configured limit on the
    difference of two counters, `0` for none. -/
def updateHostSnapshot (thresh : UInt16) (host : Snapshot) (p : ReoParams) : Update :=
  if !p.valid then ⟨.eFailure, host, none, 0, false⟩
  else if !host.valid then ⟨.success, p.snapshot, none, 1, false⟩
  else
    -- a frame to be dropped goes on like the others
    let drop := if comparePktCtrsGte host.mgmtPktCtr p.mgmtPktCtr then
      some (handleOutOfOrderPktCtr host p) else none
    let delta := subtractPktCtrs p.mgmtPktCtr host.mgmtPktCtr
    if delta ≠ 1 ∧ thresh ≠ 0 ∧ thresh.toNat < delta then
      ⟨.eFailure, host, drop, delta, true⟩
    else ⟨.success, p.snapshot, drop, delta, false⟩

/-! ## Runs -/

/-- What happens to the host snapshot of a link: a frame of the link comes in, or the
    snapshots of the link are checked for a frame of any link. -/
inductive HostEvent
  | frame (p : ReoParams)
  | checked (macHw fwForwarded fwConsumed : Snapshot)

variable (thresh : UInt16)

def hostStep (host : Snapshot) : HostEvent → Snapshot
  | .frame p => (updateHostSnapshot thresh host p).host
  | .checked macHw fwForwarded fwConsumed =>
    (invalidateStaleSnapshots { macHw, fwForwarded, fwConsumed, host }).host

def hostRun (host : Snapshot) (events : List HostEvent) : Snapshot :=
  events.foldl (hostStep thresh) host

/-- How far the counter was moved, in either direction. -/
def travelled (host : Snapshot) : List HostEvent → ℕ
  | [] => 0
  | e :: events =>
    let host' := hostStep thresh host e
    (subtractPktCtrs host'.mgmtPktCtr host.mgmtPktCtr).natAbs + travelled host' events

/-- The frame is handed on to the reordering. -/
def Processed (host : Snapshot) (p : ReoParams) : Prop :=
  (updateHostSnapshot thresh host p).status = .success ∧
    (updateHostSnapshot thresh host p).drop = none

/-! ## Statement -/

/-- One frame: the counter does not move back, and a frame that is not newer than the latest
    one is dropped and leaves the snapshot as it was. -/
structure KeepsOrder (host : Snapshot) (p : ReoParams) : Prop where
  forward : 0 ≤ subtractPktCtrs (updateHostSnapshot thresh host p).host.mgmtPktCtr
    host.mgmtPktCtr
  late : comparePktCtrsGte host.mgmtPktCtr p.mgmtPktCtr = true →
    ¬ Processed thresh host p ∧ (updateHostSnapshot thresh host p).host = host

/-- **A run in order.**  While the snapshot stays valid the frames keep their order, and no
    counter is processed a second time before it was moved by more than half its range. -/
structure InOrder (host : Snapshot) (events : List HostEvent) : Prop where
  frames : ∀ pre p post, events = pre ++ .frame p :: post →
    (hostRun thresh host pre).valid = true → KeepsOrder thresh (hostRun thresh host pre) p
  once : ∀ pre p mid q post, events = pre ++ .frame p :: (mid ++ .frame q :: post) →
    let first := hostRun thresh host pre
    let next := hostRun thresh host (pre ++ [.frame p])
    Processed thresh first p → (∀ es, es <+: mid → (hostRun thresh next es).valid = true) →
    Processed thresh (hostRun thresh next mid) q →
    travelled thresh next (mid ++ [.frame q]) ≤ 0x8000 → p.mgmtPktCtr ≠ q.mgmtPktCtr

/-- The frame leaves the snapshot intact: there is none yet, the parameters are invalid, the
    counter is newer, the frame is the latest one again, or its counter is exactly half the
    range away and the limit refuses it. -/
def Accepts (host : Snapshot) (p : ReoParams) : Prop :=
  host.valid = false ∨ p.valid = false ∨
    comparePktCtrsGte host.mgmtPktCtr p.mgmtPktCtr = false ∨
    (p.mgmtPktCtr = host.mgmtPktCtr ∧ p.globalTimestamp = host.globalTimestamp) ∨
    (p.mgmtPktCtr - host.mgmtPktCtr = 0x8000 ∧ thresh ≠ 0 ∧ thresh < 0x8000)

variable {thresh} {host host' : Snapshot} {p q : ReoParams} {events : List HostEvent}

theorem hostRun_append (host : Snapshot) (es es' : List HostEvent) :
    hostRun thresh host (es ++ es') = hostRun thresh (hostRun thresh host es) es' :=
  List.foldl_append

/-! ## One frame -/

/-- The limit on the difference of the counters refuses the frame. -/
def Refused (thresh : UInt16) (host : Snapshot) (p : ReoParams) : Prop :=
  subtractPktCtrs p.mgmtPktCtr host.mgmtPktCtr ≠ 1 ∧ thresh ≠ 0 ∧
    thresh.toNat < subtractPktCtrs p.mgmtPktCtr host.mgmtPktCtr

theorem update_of_invalid (hp : p.valid = false) :
    updateHostSnapshot thresh host p = ⟨.eFailure, host, none, 0, false⟩ := by
  simp [updateHostSnapshot, hp]

theorem update_of_refused (hhost : host.valid = true) (hp : p.valid = true)
    (h : Refused thresh host p) : (updateHostSnapshot thresh host p).host = host ∧
      (updateHostSnapshot thresh host p).status = .eFailure := by
  have hif := h
  unfold Refused at hif
  simp [updateHostSnapshot, hp, hhost, hif]

/-- A frame that is not refused is taken over, also where it is to be dropped. -/
theorem update_eq_taken (hhost : host.valid = true) (hp : p.valid = true)
    (h : ¬ Refused thresh host p) : updateHostSnapshot thresh host p =
      ⟨.success, p.snapshot, if comparePktCtrsGte host.mgmtPktCtr p.mgmtPktCtr then
        some (handleOutOfOrderPktCtr host p) else none,
        subtractPktCtrs p.mgmtPktCtr host.mgmtPktCtr, false⟩ := by
  unfold Refused at h
  simp only [updateHostSnapshot, hp, hhost, Bool.not_true, Bool.false_eq_true, if_false]
  rw [if_neg h]

theorem update_of_taken (hhost : host.valid = true) (hp : p.valid = true)
    (h : ¬ Refused thresh host p) : (updateHostSnapshot thresh host p).host = p.snapshot := by
  rw [update_eq_taken hhost hp h]

theorem update_drop (hhost : host.valid = true) (hp : p.valid = true) :
    (updateHostSnapshot thresh host p).drop = none ↔
      comparePktCtrsGte host.mgmtPktCtr p.mgmtPktCtr = false := by
  simp only [updateHostSnapshot, hp, hhost, Bool.not_true, Bool.false_eq_true, if_false]
  split_ifs <;> simp_all

theorem subtract_self_nonneg (a : UInt16) : 0 ≤ subtractPktCtrs a a := by
  have hzero : Serial.signed 0x8000 a.toNat a.toNat = 0 :=
    (Serial.signed_eq_zero a.toNat_lt a.toNat_lt).2 rfl
  exact Int.le_of_eq ((subtractPktCtrs_eq a a).trans hzero).symm

theorem subtract_pos {a b : UInt16} (h : comparePktCtrsGte b a = false) :
    0 < subtractPktCtrs a b := by
  rw [← Bool.not_eq_true, comparePktCtrsGte_iff, Nat.not_le] at h
  rw [subtractPktCtrs_eq]
  exact Serial.signed_pos_of_older a.toNat_lt b.toNat_lt h

/-- A counter that is not newer is not ahead, but where it is half the range away. -/
theorem subtract_pos_iff {a b : UInt16} (h : comparePktCtrsGte b a = true) :
    0 < subtractPktCtrs a b ↔ a - b = 0x8000 := by
  rw [subtractPktCtrs_eq, Serial.signed_pos_of_back a.toNat_lt b.toNat_lt
    (comparePktCtrsGte_iff.1 h), ← toNat_sub_ctr, ← UInt16.toNat_inj]
  exact and_iff_right (by decide)

theorem subtract_half {a b : UInt16} (h : a - b = 0x8000) : subtractPktCtrs a b = 0x8000 := by
  rw [subtractPktCtrs, h]
  rfl

/-- What the limit refuses among the frames that are not newer. -/
theorem refused_iff (hgte : comparePktCtrsGte host.mgmtPktCtr p.mgmtPktCtr = true) :
    Refused thresh host p ↔
      p.mgmtPktCtr - host.mgmtPktCtr = 0x8000 ∧ thresh ≠ 0 ∧ thresh < 0x8000 := by
  have hlt : thresh < 0x8000 ↔ (thresh.toNat : ℤ) < 0x8000 := by
    rw [UInt16.lt_iff_toNat_lt, show (0x8000 : UInt16).toNat = 0x8000 from rfl]
    omega
  rw [← subtract_pos_iff hgte, hlt]
  constructor
  · rintro ⟨-, hne, hlt⟩
    have hpos : 0 < subtractPktCtrs p.mgmtPktCtr host.mgmtPktCtr := by omega
    rw [subtract_half ((subtract_pos_iff hgte).1 hpos)] at hlt
    exact ⟨hpos, hne, hlt⟩
  · rintro ⟨hpos, hne, hlt⟩
    have hdelta := subtract_half ((subtract_pos_iff hgte).1 hpos)
    unfold Refused
    rw [hdelta]
    exact ⟨by decide, hne, hlt⟩

theorem snapshot_eq_iff (hhost : host.valid = true) : p.snapshot = host ↔
    p.mgmtPktCtr = host.mgmtPktCtr ∧ p.globalTimestamp = host.globalTimestamp := by
  cases host
  simp only [ReoParams.snapshot, Snapshot.mk.injEq] at *
  exact and_iff_right hhost.symm

/-- **One frame keeps the order** just if it leaves the snapshot intact. -/
theorem keepsOrder_iff :
    (host.valid = true → KeepsOrder thresh host p) ↔ Accepts thresh host p := by
  unfold Accepts
  by_cases hhost : host.valid = true
  swap
  · exact iff_of_true (fun h => absurd h hhost) (.inl (by simpa using hhost))
  by_cases hp : p.valid = true
  swap
  · have hp : p.valid = false := by simpa using hp
    refine iff_of_true (fun _ => ⟨?_, fun _ => ?_⟩) (.inr (.inl hp))
    · rw [update_of_invalid hp]
      exact subtract_self_nonneg _
    · simp [Processed, update_of_invalid hp]
  by_cases hgte : comparePktCtrsGte host.mgmtPktCtr p.mgmtPktCtr = true
  · simp only [hhost, hp, hgte, forall_const, Bool.true_eq_false, false_or]
    rw [← snapshot_eq_iff hhost, ← refused_iff hgte]
    have hdrop : ¬ Processed thresh host p := fun h => by
      simp [(update_drop hhost hp).1 h.2] at hgte
    constructor
    · intro h
      by_cases href : Refused thresh host p
      · exact .inr href
      · exact .inl ((update_of_taken hhost hp href).symm.trans (h.late hgte).2)
    · intro h
      have hsame : (updateHostSnapshot thresh host p).host = host := by
        by_cases href : Refused thresh host p
        · exact (update_of_refused hhost hp href).1
        · exact (update_of_taken hhost hp href).trans (h.resolve_right href)
      refine ⟨?_, fun _ => ⟨hdrop, hsame⟩⟩
      rw [hsame]
      exact subtract_self_nonneg _
  · -- a newer frame is taken over, or refused by the limit
    refine iff_of_true (fun _ => ⟨?_, fun h => absurd h hgte⟩)
      (.inr (.inr (.inl (by simpa using hgte))))
    by_cases href : Refused thresh host p
    · rw [(update_of_refused hhost hp href).1]
      exact subtract_self_nonneg _
    · rw [update_of_taken hhost hp href]
      exact Int.le_of_lt (subtract_pos (Bool.not_eq_true _ ▸ hgte))

/-! ## Runs of frames -/

/-- A counter that did not move back, from how far it was moved. -/
theorem toNat_of_nonneg {a b : UInt16} (h : 0 ≤ subtractPktCtrs a b) :
    a.toNat = (b.toNat + (subtractPktCtrs a b).natAbs) % 0x10000 := by
  have ha := a.toNat_lt
  have hb := b.toNat_lt
  have hle := (Serial.signed_nonneg (show a.toNat < 2 * 0x8000 from ha)).1
    (subtractPktCtrs_eq a b ▸ h)
  rw [subtractPktCtrs_eq, Serial.signed_of_le hle, Int.natAbs_natCast]
  unfold Serial.ahead
  split <;> omega

theorem dropAhead_ctr (mac s : Snapshot) : (mac.dropAhead s).mgmtPktCtr = s.mgmtPktCtr := by
  unfold Snapshot.dropAhead
  split_ifs <;> rfl

theorem hostStep_checked (mac fwd cons : Snapshot) :
    (hostStep thresh host (.checked mac fwd cons)).mgmtPktCtr = host.mgmtPktCtr := by
  rw [hostStep, invalidateStaleSnapshots]
  split_ifs
  · rfl
  · exact dropAhead_ctr mac host

/-- A step under way moves the counter forward. -/
theorem hostStep_toNat {e : HostEvent} (hvalid : host.valid = true)
    (haccept : ∀ p, e = .frame p → Accepts thresh host p) :
    (hostStep thresh host e).mgmtPktCtr.toNat = (host.mgmtPktCtr.toNat +
      (subtractPktCtrs (hostStep thresh host e).mgmtPktCtr host.mgmtPktCtr).natAbs) % 0x10000 := by
  refine toNat_of_nonneg ?_
  cases e with
  | frame p => exact (keepsOrder_iff.2 (haccept p rfl) hvalid).forward
  | checked mac fwd cons =>
    rw [hostStep_checked]
    exact subtract_self_nonneg _

/-- **A run of accepted frames moves the counter forward**, while the snapshot is valid. -/
theorem hostRun_toNat (hvalid : ∀ es, es <+: events → (hostRun thresh host es).valid = true)
    (haccept : ∀ pre p post, events = pre ++ .frame p :: post →
      Accepts thresh (hostRun thresh host pre) p) :
    (hostRun thresh host events).mgmtPktCtr.toNat =
      (host.mgmtPktCtr.toNat + travelled thresh host events) % 0x10000 := by
  induction events generalizing host with
  | nil =>
    have := host.mgmtPktCtr.toNat_lt
    exact (Nat.mod_eq_of_lt this).symm
  | cons e es ih =>
    have hfirst := @hostStep_toNat thresh host e (hvalid [] (List.nil_prefix ..)) fun p hp =>
      haccept [] p es (by rw [hp]; rfl)
    have hrest := @ih (hostStep thresh host e)
      (fun es' hes' => hvalid (e :: es') ((List.prefix_cons_inj e).2 hes'))
      (fun pre p post heq => haccept (e :: pre) p post (by rw [heq]; rfl))
    have hrun : hostRun thresh host (e :: es) = hostRun thresh (hostStep thresh host e) es := rfl
    rw [hrun, hrest, hfirst, travelled]
    omega

theorem travelled_append (host : Snapshot) (es es' : List HostEvent) :
    travelled thresh host (es ++ es') =
      travelled thresh host es + travelled thresh (hostRun thresh host es) es' := by
  induction es generalizing host with
  | nil => simp [travelled, hostRun]
  | cons e es ih =>
    simp only [List.cons_append, travelled, ih, hostRun, List.foldl_cons]
    omega

/-- A frame that is processed becomes the latest one. -/
theorem Processed.host_eq (h : Processed thresh host p) :
    (updateHostSnapshot thresh host p).host = p.snapshot := by
  have hstatus := h.1
  by_cases hp : p.valid = true
  swap
  · rw [update_of_invalid (by simpa using hp)] at hstatus
    cases hstatus
  by_cases hhost : host.valid = true
  swap
  · simp [updateHostSnapshot, hp, hhost]
  by_cases href : Refused thresh host p
  · rw [(update_of_refused hhost hp href).2] at hstatus
    cases hstatus
  · exact update_of_taken hhost hp href

/-- A frame that is processed over a valid snapshot is newer. -/
theorem Processed.newer (h : Processed thresh host p) (hhost : host.valid = true) :
    0 < subtractPktCtrs p.mgmtPktCtr host.mgmtPktCtr := by
  by_cases hp : p.valid = true
  · exact subtract_pos ((update_drop hhost hp).1 h.2)
  · have hstatus := h.1
    rw [update_of_invalid (by simpa using hp)] at hstatus
    cases hstatus

/-- **The frames of a run are in order just when every one of them is accepted.** -/
theorem inOrder_iff (thresh : UInt16) (host : Snapshot) (events : List HostEvent) :
    InOrder thresh host events ↔ ∀ pre p post, events = pre ++ .frame p :: post →
      Accepts thresh (hostRun thresh host pre) p := by
  constructor
  · intro h pre p post heq
    exact keepsOrder_iff.1 (h.frames pre p post heq)
  intro haccept
  refine ⟨fun pre p post heq => keepsOrder_iff.2 (haccept pre p post heq), ?_⟩
  intro pre p mid q post heq first next hp hvalid hq htravel hsame
  have hnext : next.mgmtPktCtr = p.mgmtPktCtr := by
    have : next = (updateHostSnapshot thresh first p).host := by
      simp only [next, hostRun_append]
      rfl
    rw [this, hp.host_eq]
    rfl
  have hmid := hostRun_toNat hvalid fun pre' r post' hmid => by
    have := haccept (pre ++ .frame p :: pre') r (post' ++ .frame q :: post)
      (by rw [heq, hmid]; simp)
    simpa only [next, hostRun_append, hostRun, List.foldl_append, List.foldl_cons, List.foldl_nil]
      using this
  have hlast := hvalid mid (List.prefix_refl mid)
  have hpos := hq.newer hlast
  have hmove := toNat_of_nonneg (Int.le_of_lt hpos)
  rw [travelled_append] at htravel
  simp only [travelled, hostStep, hq.host_eq, ReoParams.snapshot] at htravel
  rw [← hsame, ← hnext] at hmove hpos htravel
  omega

/-- A frame of the link with its counter; the timestamps go up from frame to frame. -/
def frameAt (ctr : UInt16) (ts : UInt32) : ReoParams := ⟨true, ctr, ts⟩

/-- Counter 3 after 5: the frame is dropped, the snapshot goes back to 3, and then 5 is
    processed a second time. -/
theorem lateFrame_moves_back :
    let begin : Snapshot := ⟨false, 0, 0⟩
    let late := updateHostSnapshot 0 (hostRun 0 begin [.frame (frameAt 5 50)]) (frameAt 3 60)
    late.drop = some .outOfOrderPktCtr ∧ late.host.mgmtPktCtr = 3 ∧
      Processed 0 (hostRun 0 begin [.frame (frameAt 5 50), .frame (frameAt 3 60),
        .frame (frameAt 4 70)]) (frameAt 5 80) ∧
      ¬ InOrder 0 begin [.frame (frameAt 5 50), .frame (frameAt 3 60), .frame (frameAt 4 70),
        .frame (frameAt 5 80)] := by
  refine ⟨rfl, rfl, ⟨rfl, rfl⟩, fun h => ?_⟩
  have hback := (h.frames [.frame (frameAt 5 50)] (frameAt 3 60) _ rfl rfl).forward
  revert hback
  decide

end Sm8850.Reo
