/-
  The snapshots of a link that the reordering of management frames works with, after
  `wlan_mgmt_txrx_rx_reo.c`, and the wait counts that are computed from them.

  * `comparePktCtrsGte`, `subtractPktCtrs`, `compareGlobalTimestampsGte`: packet counters of
    16 bits and timestamps of 32 bits as serial numbers.
  * `invalidateStaleSnapshots`, `checkSanity`: what is done about snapshots that contradict
    each other.
  * `perLinkCount`: one turn of the loop of `wlan_mgmt_rx_reo_algo_calculate_wait_count`;
    `none` where an assertion fails.
  * `comparePktCtrsGte_iff`, `compareGlobalTimestampsGte_iff`, `subtractPktCtrs_eq`: these as
    distances on a circle.
-/
import Sm8850.Lib.Serial

namespace Sm8850.Reo

/-! ## Counters and timestamps -/

/-- Is the first packet counter not older than the second one? -/
def comparePktCtrsGte (ctr1 ctr2 : UInt16) : Bool := (ctr1 - ctr2).toNat ≤ 0x8000

/-- The difference of two packet counters, negative when the first one is older. -/
def subtractPktCtrs (ctr1 ctr2 : UInt16) : ℤ :=
  let delta := (ctr1 - ctr2).toNat
  if 0x8000 < delta then delta - 0x10000 else delta

/-- Is the first global timestamp not older than the second one? -/
def compareGlobalTimestampsGte (ts1 ts2 : UInt32) : Bool := (ts1 - ts2).toNat ≤ 0x80000000

theorem toNat_sub_ctr (a b : UInt16) :
    (a - b).toNat = Serial.ahead 0x8000 a.toNat b.toNat := by
  have := a.toNat_lt
  have := b.toNat_lt
  rw [UInt16.toNat_sub]
  unfold Serial.ahead
  split <;> omega

theorem toNat_sub_ts (a b : UInt32) :
    (a - b).toNat = Serial.ahead 0x80000000 a.toNat b.toNat := by
  have := a.toNat_lt
  have := b.toNat_lt
  rw [UInt32.toNat_sub]
  unfold Serial.ahead
  split <;> omega

theorem comparePktCtrsGte_iff {a b : UInt16} : comparePktCtrsGte a b = true ↔
    Serial.ahead 0x8000 a.toNat b.toNat ≤ 0x8000 := by
  rw [comparePktCtrsGte, decide_eq_true_iff, toNat_sub_ctr]

theorem compareGlobalTimestampsGte_iff {a b : UInt32} : compareGlobalTimestampsGte a b = true ↔
    Serial.ahead 0x80000000 a.toNat b.toNat ≤ 0x80000000 := by
  rw [compareGlobalTimestampsGte, decide_eq_true_iff, toNat_sub_ts]

theorem subtractPktCtrs_eq (a b : UInt16) :
    subtractPktCtrs a b = Serial.signed 0x8000 a.toNat b.toNat := by
  rw [subtractPktCtrs, toNat_sub_ctr]
  rfl

/-- The frame that one of the parties saw last on a link. -/
structure Snapshot where
  valid : Bool
  mgmtPktCtr : UInt16
  globalTimestamp : UInt32

/-- The four snapshots of a link: those in the memory shared with the target, and the one of
    the host. -/
structure Snapshots where
  macHw : Snapshot
  fwForwarded : Snapshot
  fwConsumed : Snapshot
  host : Snapshot

inductive Status
  | success | eFailure | eInval
deriving DecidableEq

namespace Snapshot

/-- The timestamps of two snapshots. -/
def tsGte (s s' : Snapshot) : Bool :=
  compareGlobalTimestampsGte s.globalTimestamp s'.globalTimestamp

/-- The packet counters of two snapshots. -/
def ctrGte (s s' : Snapshot) : Bool := comparePktCtrsGte s.mgmtPktCtr s'.mgmtPktCtr

/-- The difference of the packet counters of two snapshots. -/
def delta (s s' : Snapshot) : ℤ := subtractPktCtrs s.mgmtPktCtr s'.mgmtPktCtr

/-- Is the snapshot not older than a timestamp? -/
def notBefore (s : Snapshot) (ts : UInt32) : Bool := compareGlobalTimestampsGte s.globalTimestamp ts

/-- A snapshot of the host or of the firmware that is ahead of the one of the MAC HW. -/
def dropAhead (mac s : Snapshot) : Snapshot :=
  if s.valid && (!mac.tsGte s || !mac.ctrGte s) then { s with valid := false } else s

/-- A snapshot of the firmware whose timestamp and counter are not ordered alike against the
    snapshot of the host. -/
def dropMixed (host s : Snapshot) : Snapshot :=
  if host.valid && s.valid && (host.tsGte s != host.ctrGte s) then { s with valid := false }
  else s

end Snapshot

/-! ## Checks on the snapshots -/

/-- `mgmt_rx_reo_invalidate_stale_snapshots`; the two snapshots of the firmware are treated
    alike. -/
def invalidateStaleSnapshots (s : Snapshots) : Snapshots :=
  if !s.macHw.valid then s else
    let host := s.macHw.dropAhead s.host
    { macHw := s.macHw
      host := host
      fwForwarded := host.dropMixed (s.macHw.dropAhead s.fwForwarded)
      fwConsumed := host.dropMixed (s.macHw.dropAhead s.fwConsumed) }

/-- `mgmt_rx_reo_snapshots_check_sanity`. -/
def checkSanity (s : Snapshots) : Status :=
  if !s.macHw.valid then
    if s.fwForwarded.valid || s.fwConsumed.valid || s.host.valid then .eInval else .success
  else if !s.fwForwarded.valid && !s.fwConsumed.valid then
    if s.host.valid then .eInval else .success
  else if s.fwForwarded.valid &&
      (!s.macHw.tsGte s.fwForwarded || !s.macHw.ctrGte s.fwForwarded) then .eInval
  else if s.fwConsumed.valid &&
      (!s.macHw.tsGte s.fwConsumed || !s.macHw.ctrGte s.fwConsumed) then .eInval
  else if s.host.valid then
    if !s.macHw.tsGte s.host || !s.macHw.ctrGte s.host then .eInval
    else if s.fwForwarded.valid && !s.fwConsumed.valid &&
        (!s.fwForwarded.tsGte s.host || !s.fwForwarded.ctrGte s.host) then .eInval
    else if s.fwConsumed.valid && !s.fwForwarded.valid &&
        (!s.fwConsumed.tsGte s.host || !s.fwConsumed.ctrGte s.host) then .eInval
    else if s.fwForwarded.valid && s.fwConsumed.valid &&
        ((!s.fwConsumed.tsGte s.host && !s.fwForwarded.tsGte s.host) ||
          (!s.fwConsumed.ctrGte s.host && !s.fwForwarded.ctrGte s.host)) then .eInval
    else .success
  else .success

/-! ## The wait count of one link -/

/-- The count of a link of which the host has seen nothing. -/
def uintMax : ℕ := 0xffffffff

/-- `qdf_assert_always`: nothing goes on when it fails. -/
def qdfAssertAlways (c : Prop) [Decidable c] : Option Unit := if c then some () else none

/-- The estimate by the frame that the firmware consumed last: no need to wait for this one
    and those after it, and with an older one forwarded last only for those up to that. -/
def fwConsumedEstimate (s : Snapshots) (ts : UInt32) (pending : ℤ) : Option ℤ :=
  if s.fwConsumed.valid ∧ s.fwConsumed.notBefore ts then do
    let pending := s.fwConsumed.delta s.host - 1
    qdfAssertAlways (0 ≤ pending)
    if s.fwForwarded.valid ∧ ¬ s.fwForwarded.notBefore ts then
      let pending := s.fwForwarded.delta s.host
      return if pending < 0 then 0 else pending
    else
      return pending
  else
    return pending

/-- The estimate by the frame that the firmware forwarded last. -/
def fwForwardedEstimate (s : Snapshots) (ts : UInt32) (pending : ℤ) : Option ℤ :=
  if s.fwForwarded.valid ∧ s.fwForwarded.notBefore ts then do
    let deltaFwdHost := s.fwForwarded.delta s.host - 1
    qdfAssertAlways (0 ≤ deltaFwdHost)
    let pending := min pending deltaFwdHost
    qdfAssertAlways (0 ≤ pending)
    return pending
  else
    return pending

/-- The frames of a link that are not yet seen by the host and may be older than `ts`. -/
def framesPending (s : Snapshots) (ts : UInt32) : Option ℤ := do
  let pending := s.macHw.delta s.host
  qdfAssertAlways (0 ≤ pending)
  if pending ≠ 0 ∧ s.macHw.notBefore ts then
    -- no need to wait for the last frame that the MAC HW saw
    let pending := pending - 1
    qdfAssertAlways (0 ≤ pending)
    let pending ← fwConsumedEstimate s ts pending
    fwForwardedEstimate s ts pending
  else
    return pending

/-- **One turn of the loop of `wlan_mgmt_rx_reo_algo_calculate_wait_count`** on snapshots
    that passed the checks: for how many frames of this link a frame with timestamp `ts`
    waits.  `ownLink` says that it is the link of the frame. -/
def perLinkCount (ownLink : Bool) (s : Snapshots) (ts : UInt32) : Option ℕ :=
  if ownLink then some 0
  else if !s.macHw.valid then some 0
  else if !s.host.valid then some uintMax
  else if s.macHw.delta s.host = 0 then some 0
  else if s.host.notBefore ts then some 0
  else do
    let pending ← framesPending s ts
    qdfAssertAlways (0 ≤ pending)
    return pending.toNat

end Sm8850.Reo
