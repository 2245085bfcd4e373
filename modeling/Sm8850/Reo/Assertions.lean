/-
  The assertions in the computation of the wait counts.

  The snapshots of the firmware and of the host are not ahead of the one of the MAC HW once
  the stale ones are invalidated (`Behind`).  A wait count comes out negative only if the
  comparison of timestamps is not transitive, which takes two of them exactly half of their
  range apart (`HalfRange`).

  * `fw_delta_iff`: a snapshot of the firmware from the timestamp of the frame on is ahead of
    the one of the host, but at half range.
  * **`assertions_hold_iff`**: the assertions hold just when no such pair decides the count.
-/
import Sm8850.Reo.Snapshots

namespace Sm8850.Reo

variable {s raw : Snapshots} {mac host fw : Snapshot} {ts : UInt32} {ownLink : Bool}

/-! ## Statement -/

/-- The count is estimated from the counters: the link is another one on which the host waits
    for a frame, and the timestamp is after that of the host and not after that of the MAC
    HW. -/
structure Estimates (ownLink : Bool) (s : Snapshots) (ts : UInt32) : Prop where
  other : ownLink = false
  macValid : s.macHw.valid = true
  hostValid : s.host.valid = true
  waits : s.macHw.mgmtPktCtr ≠ s.host.mgmtPktCtr
  hostBefore : s.host.notBefore ts = false
  macFrom : s.macHw.notBefore ts = true

/-- Two timestamps are half of their range apart: that of the frame and that of the firmware
    where the MAC HW has seen just the frame, or that of the host and that of the MAC HW where
    the firmware is up to date.  The counters are not half of theirs apart. -/
structure HalfRange (s : Snapshots) (ts : UInt32) (fw : Snapshot) : Prop where
  valid : fw.valid = true
  ctr : fw.mgmtPktCtr - s.host.mgmtPktCtr ≠ 0x8000
  apart : (s.macHw.globalTimestamp = ts ∧ fw.globalTimestamp - ts = 0x80000000) ∨
    (fw.globalTimestamp = s.macHw.globalTimestamp ∧
      s.macHw.globalTimestamp - s.host.globalTimestamp = 0x80000000)

/-! ## What the invalidation leaves -/

/-- A snapshot of the firmware is not ahead of the one of the MAC HW, and its timestamp and
    its counter are ordered alike against those of the host. -/
structure Behind (mac host fw : Snapshot) : Prop where
  ts : mac.tsGte fw = true
  ctr : mac.ctrGte fw = true
  alike : host.valid = true → host.tsGte fw = host.ctrGte fw

theorem dropAhead_behind (h : (mac.dropAhead fw).valid = true) :
    mac.tsGte (mac.dropAhead fw) = true ∧ mac.ctrGte (mac.dropAhead fw) = true := by
  unfold Snapshot.dropAhead at h ⊢
  split_ifs at h ⊢ with hold
  simp_all

theorem dropMixed_behind
    (h : (host.dropMixed (mac.dropAhead fw)).valid = true) :
    Behind mac host (host.dropMixed (mac.dropAhead fw)) := by
  unfold Snapshot.dropMixed at h ⊢
  split_ifs at h ⊢ with hmix
  obtain ⟨hts, hctr⟩ := dropAhead_behind h
  refine ⟨hts, hctr, fun hhost => ?_⟩
  simpa [hhost, h] using hmix

/-- After the invalidation the host is not ahead of the MAC HW, and neither is the
    firmware. -/
theorem invalidate_behind (hs : s = invalidateStaleSnapshots raw)
    (hmac : s.macHw.valid = true) :
    (s.host.valid = true → s.macHw.tsGte s.host = true ∧ s.macHw.ctrGte s.host = true) ∧
      (s.fwConsumed.valid = true → Behind s.macHw s.host s.fwConsumed) ∧
      (s.fwForwarded.valid = true → Behind s.macHw s.host s.fwForwarded) := by
  unfold invalidateStaleSnapshots at hs
  split_ifs at hs with hoff
  · subst hs
    simp [hmac] at hoff
  · subst hs
    exact ⟨dropAhead_behind, dropMixed_behind, dropMixed_behind⟩

/-! ## One estimate -/

theorem tsGte_iff {s s' : Snapshot} : s.tsGte s' = true ↔ Serial.ahead 0x80000000
    s.globalTimestamp.toNat s'.globalTimestamp.toNat ≤ 0x80000000 :=
  compareGlobalTimestampsGte_iff

theorem notBefore_iff {s : Snapshot} : s.notBefore ts = true ↔ Serial.ahead 0x80000000
    s.globalTimestamp.toNat ts.toNat ≤ 0x80000000 :=
  compareGlobalTimestampsGte_iff

theorem ctrGte_iff {s s' : Snapshot} : s.ctrGte s' = true ↔ Serial.ahead 0x8000
    s.mgmtPktCtr.toNat s'.mgmtPktCtr.toNat ≤ 0x8000 :=
  comparePktCtrsGte_iff

theorem ts_half {a b : UInt32} : a - b = 0x80000000 ↔
    Serial.ahead 0x80000000 a.toNat b.toNat = 0x80000000 := by
  rw [← toNat_sub_ts, ← UInt32.toNat_inj]
  rfl

theorem ctr_half {a b : UInt16} : a - b = 0x8000 ↔
    Serial.ahead 0x8000 a.toNat b.toNat = 0x8000 := by
  rw [← toNat_sub_ctr, ← UInt16.toNat_inj]
  rfl

/-- Which snapshots of the firmware pass for not newer than the host's. -/
theorem Estimates.host_tsGte_iff (h : Estimates ownLink s ts)
    (hhost : s.macHw.tsGte s.host = true) (hfw : s.macHw.tsGte fw = true)
    (hfrom : fw.notBefore ts = true) : s.host.tsGte fw = true ↔
      (s.macHw.globalTimestamp = ts ∧ fw.globalTimestamp - ts = 0x80000000) ∨
        (fw.globalTimestamp = s.macHw.globalTimestamp ∧
          s.macHw.globalTimestamp - s.host.globalTimestamp = 0x80000000) := by
  have hbefore := h.hostBefore
  rw [← Bool.not_eq_true, notBefore_iff, Nat.not_le] at hbefore
  rw [tsGte_iff] at hhost hfw ⊢
  have hmac := notBefore_iff.1 h.macFrom
  rw [notBefore_iff] at hfrom
  rw [ts_half, ts_half, ← UInt32.toNat_inj, ← UInt32.toNat_inj]
  exact Serial.halfway ts.toNat_lt s.host.globalTimestamp.toNat_lt
    s.macHw.globalTimestamp.toNat_lt fw.globalTimestamp.toNat_lt hbefore hmac hhost hfw hfrom

/-- A snapshot of the firmware at half range is from the timestamp of the frame on. -/
theorem HalfRange.notBefore (hhalf : HalfRange s ts fw) (hmac : s.macHw.notBefore ts = true) :
    fw.notBefore ts = true := by
  rcases hhalf.apart with ⟨-, hts⟩ | ⟨heq, -⟩
  · rw [notBefore_iff]
    exact Nat.le_of_eq (ts_half.1 hts)
  · rw [notBefore_iff, heq]
    exact notBefore_iff.1 hmac

/-- **One assertion**: the counter of the firmware is ahead of that of the host, but at half
    range. -/
theorem Estimates.fw_delta_iff (h : Estimates ownLink s ts)
    (hhost : s.macHw.tsGte s.host = true) (hvalid : fw.valid = true)
    (hfw : Behind s.macHw s.host fw) (hfrom : fw.notBefore ts = true) :
    0 ≤ fw.delta s.host - 1 ↔ ¬ HalfRange s ts fw := by
  have hts := h.host_tsGte_iff hhost hfw.ts hfrom
  have hpos : 0 ≤ fw.delta s.host - 1 ↔ 0 < fw.delta s.host := by omega
  rw [hpos, Snapshot.delta, subtractPktCtrs_eq]
  have hx : fw.mgmtPktCtr.toNat < 2 * 0x8000 := fw.mgmtPktCtr.toNat_lt
  have hy : s.host.mgmtPktCtr.toNat < 2 * 0x8000 := s.host.mgmtPktCtr.toNat_lt
  by_cases hold : s.host.ctrGte fw = true
  · -- the host passes for newer than the firmware, so the counters decide
    rw [Serial.signed_pos_of_back hx hy (ctrGte_iff.1 hold)]
    have hapart := hts.1 (by rw [hfw.alike h.hostValid, hold])
    rw [← ctr_half]
    constructor
    · rintro ⟨-, hctr⟩ hhalf
      exact hhalf.ctr hctr
    · intro hnot
      refine ⟨by decide, ?_⟩
      by_contra hctr
      exact hnot ⟨hvalid, hctr, hapart⟩
  · have hnew : s.host.tsGte fw ≠ true := by rwa [hfw.alike h.hostValid]
    rw [ctrGte_iff, Nat.not_le] at hold
    refine iff_of_true (Serial.signed_pos_of_older hx hy hold) fun hhalf => ?_
    exact hnew (hts.2 hhalf.apart)

/-! ## The wait count -/

theorem delta_eq_zero {s s' : Snapshot} : s.delta s' = 0 ↔ s.mgmtPktCtr = s'.mgmtPktCtr := by
  rw [Snapshot.delta, subtractPktCtrs_eq, ← UInt16.toNat_inj]
  exact Serial.signed_eq_zero s.mgmtPktCtr.toNat_lt s'.mgmtPktCtr.toNat_lt

theorem delta_nonneg {s s' : Snapshot} (h : s.ctrGte s' = true) : 0 ≤ s.delta s' := by
  rw [Snapshot.delta, subtractPktCtrs_eq]
  exact (Serial.signed_nonneg s.mgmtPktCtr.toNat_lt).2 (ctrGte_iff.1 h)

@[simp] theorem qdfAssertAlways_pos {c : Prop} [Decidable c] (h : c) :
    qdfAssertAlways c = some () := if_pos h

@[simp] theorem qdfAssertAlways_neg {c : Prop} [Decidable c] (h : ¬ c) :
    qdfAssertAlways c = none := if_neg h

/-- The assertion on an estimate, where the snapshot of the firmware is used at all. -/
def Asserted (s : Snapshots) (ts : UInt32) (fw : Snapshot) : Prop :=
  fw.valid = true ∧ fw.notBefore ts = true → 0 ≤ fw.delta s.host - 1

theorem fwConsumedEstimate_spec {pending : ℤ} (hpending : 0 ≤ pending) :
    (Asserted s ts s.fwConsumed → ∃ p, fwConsumedEstimate s ts pending = some p ∧ 0 ≤ p) ∧
      (¬ Asserted s ts s.fwConsumed → fwConsumedEstimate s ts pending = none) := by
  unfold fwConsumedEstimate Asserted
  by_cases hfw : s.fwConsumed.valid = true ∧ s.fwConsumed.notBefore ts = true
  · rw [if_pos hfw]
    dsimp only
    refine ⟨fun h => ?_, fun h => ?_⟩
    · have hdelta := h hfw
      rw [qdfAssertAlways_pos hdelta]
      simp only [Option.bind_eq_bind, Option.bind_some]
      split_ifs
      · exact ⟨0, rfl, by omega⟩
      · exact ⟨_, rfl, by omega⟩
      · exact ⟨_, rfl, hdelta⟩
    · rw [qdfAssertAlways_neg fun hdelta => h fun _ => hdelta]
      rfl
  · rw [if_neg hfw]
    exact ⟨fun _ => ⟨_, rfl, hpending⟩, fun h => absurd (fun hon => absurd hon hfw) h⟩

theorem fwForwardedEstimate_spec {pending : ℤ} (hpending : 0 ≤ pending) :
    (Asserted s ts s.fwForwarded → ∃ p, fwForwardedEstimate s ts pending = some p ∧ 0 ≤ p) ∧
      (¬ Asserted s ts s.fwForwarded → fwForwardedEstimate s ts pending = none) := by
  unfold fwForwardedEstimate Asserted
  by_cases hfw : s.fwForwarded.valid = true ∧ s.fwForwarded.notBefore ts = true
  · rw [if_pos hfw]
    dsimp only
    refine ⟨fun h => ?_, fun h => ?_⟩
    · have hmin : 0 ≤ min pending (s.fwForwarded.delta s.host - 1) := by
        have := h hfw
        omega
      rw [qdfAssertAlways_pos (h hfw), qdfAssertAlways_pos hmin]
      exact ⟨_, rfl, hmin⟩
    · rw [qdfAssertAlways_neg fun hdelta => h fun _ => hdelta]
      rfl
  · rw [if_neg hfw]
    exact ⟨fun _ => ⟨_, rfl, hpending⟩, fun h => absurd (fun hon => absurd hon hfw) h⟩

/-- The estimates of the firmware count only from the frame on that the MAC HW saw last. -/
theorem framesPending_spec (hpos : 0 < s.macHw.delta s.host) :
    (s.macHw.notBefore ts = false → framesPending s ts = some (s.macHw.delta s.host)) ∧
    (s.macHw.notBefore ts = true →
      (Asserted s ts s.fwConsumed ∧ Asserted s ts s.fwForwarded →
        ∃ p, framesPending s ts = some p ∧ 0 ≤ p) ∧
      (¬ (Asserted s ts s.fwConsumed ∧ Asserted s ts s.fwForwarded) →
        framesPending s ts = none)) := by
  have hone : 0 ≤ s.macHw.delta s.host - 1 := by omega
  unfold framesPending
  simp only [qdfAssertAlways_pos (Int.le_of_lt hpos), Option.bind_eq_bind, Option.bind_some]
  refine ⟨fun hoff => ?_, fun hon => ?_⟩
  · simp [hoff]
  rw [if_pos ⟨by omega, hon⟩, qdfAssertAlways_pos hone, Option.bind_some]
  obtain ⟨hcons, hcons'⟩ := @fwConsumedEstimate_spec s ts _ hone
  refine ⟨?_, fun hnot => ?_⟩
  · rintro ⟨hc, hf⟩
    obtain ⟨p, hp, hle⟩ := hcons hc
    rw [hp, Option.bind_some]
    exact (fwForwardedEstimate_spec hle).1 hf
  · by_cases hc : Asserted s ts s.fwConsumed
    · obtain ⟨p, hp, hle⟩ := hcons hc
      rw [hp, Option.bind_some]
      exact (fwForwardedEstimate_spec hle).2 fun hf => hnot ⟨hc, hf⟩
    · rw [hcons' hc, Option.bind_none]

/-- An assertion that stands, in terms of the timestamps. -/
theorem Estimates.asserted_iff (h : Estimates ownLink s ts)
    (hhost : s.macHw.tsGte s.host = true)
    (hfw : fw.valid = true → Behind s.macHw s.host fw) :
    Asserted s ts fw ↔ ¬ HalfRange s ts fw := by
  constructor
  · intro hasserted hhalf
    have hfrom := hhalf.notBefore h.macFrom
    exact (h.fw_delta_iff hhost hhalf.valid (hfw hhalf.valid) hfrom).1
      (hasserted ⟨hhalf.valid, hfrom⟩) hhalf
  · rintro hnot ⟨hvalid, hfrom⟩
    exact (h.fw_delta_iff hhost hvalid (hfw hvalid) hfrom).2 hnot

/-- **When the assertions hold**, for every content of the snapshots once the stale ones are
    invalidated, also where they do not pass the sanity check. -/
theorem assertions_hold_iff (ownLink : Bool) (raw : Snapshots) (ts : UInt32) :
    (perLinkCount ownLink (invalidateStaleSnapshots raw) ts).isSome = true ↔
      ¬ (Estimates ownLink (invalidateStaleSnapshots raw) ts ∧
        (HalfRange (invalidateStaleSnapshots raw) ts (invalidateStaleSnapshots raw).fwConsumed ∨
          HalfRange (invalidateStaleSnapshots raw) ts
            (invalidateStaleSnapshots raw).fwForwarded)) := by
  generalize hs : invalidateStaleSnapshots raw = s
  unfold perLinkCount
  split_ifs with hown hmac hhost hdelta hbefore
  · exact iff_of_true rfl fun h => by simp [h.1.other] at hown
  · exact iff_of_true rfl fun h => by simp [h.1.macValid] at hmac
  · exact iff_of_true rfl fun h => by simp [h.1.hostValid] at hhost
  · exact iff_of_true rfl fun h => h.1.waits (delta_eq_zero.1 hdelta)
  · exact iff_of_true rfl fun h => by simp [h.1.hostBefore] at hbefore
  simp only [Bool.not_eq_true, Bool.not_eq_eq_eq_not, Bool.not_true, Bool.not_eq_false] at *
  obtain ⟨hhostMac, hcons, hfwd⟩ := invalidate_behind hs.symm hmac
  obtain ⟨hts, hctr⟩ := hhostMac hhost
  have hpos : 0 < s.macHw.delta s.host := by
    have := delta_nonneg hctr
    omega
  obtain ⟨hearly, hlate⟩ := @framesPending_spec s ts hpos
  by_cases hfrom : s.macHw.notBefore ts = true
  · have hest : Estimates ownLink s ts :=
      ⟨hown, hmac, hhost, fun heq => hdelta (delta_eq_zero.2 heq), hbefore, hfrom⟩
    obtain ⟨hok, hfails⟩ := hlate hfrom
    rw [hest.asserted_iff hts hcons, hest.asserted_iff hts hfwd] at hok hfails
    by_cases hhalf : HalfRange s ts s.fwConsumed ∨ HalfRange s ts s.fwForwarded
    · rw [hfails fun h => hhalf.elim h.1 h.2]
      exact iff_of_false (by simp) fun hnot => hnot ⟨hest, hhalf⟩
    · obtain ⟨p, hp, hle⟩ := hok ⟨fun h => hhalf (.inl h), fun h => hhalf (.inr h)⟩
      rw [hp]
      exact iff_of_true (by simp [hle]) fun h => hhalf h.2
  · rw [hearly (by simpa using hfrom)]
    exact iff_of_true (by simp [Int.le_of_lt hpos]) fun h => hfrom h.1.macFrom

/-- The firmware consumed a frame half a range after the one at hand, which is the last the
    MAC HW saw: one frame is estimated to be pending and then taken back twice. -/
theorem assertion_fails :
    let raw : Snapshots := ⟨⟨true, 1, 1⟩, ⟨true, 0, 0⟩, ⟨true, 0, 0x80000001⟩, ⟨true, 0, 0⟩⟩
    checkSanity (invalidateStaleSnapshots raw) = .success ∧
      perLinkCount false (invalidateStaleSnapshots raw) 1 = none := by
  decide

end Sm8850.Reo
