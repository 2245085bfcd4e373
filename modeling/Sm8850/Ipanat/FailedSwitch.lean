/-
  Switches that cannot move every rule.

  * `ruleAt`: the live rule that a handle of the application leads to, in the memory in
    use.
  * `OldMemoryKept`: the call ends in the state it began in, with the rules it began with.
  * `failedSwitch_moves`: a call whose switch fails never ends so.  The machine answers 0
    for the nested switch whatever the copy has answered, so the callback goes on as if the
    rules had moved.
-/
import Sm8850.Ipanat.CopiedRules
import Sm8850.Ipanat.BackToSram

namespace Sm8850.Ipanat

variable {env : Env} {s s' : NatiLib}

/-! ## What a switch should leave -/

/-- The live rule that an original handle leads to, through the maps of the memory in
    use. -/
def NatiLib.ruleAt (s : NatiLib) (orig : ℕ) : Option NatRule :=
  let sub := s.nati.chooseMemSub
  match (s.nati.mapPairs sub).orig2new orig, ip4TblAt s.drv (s.nati.tblHdl sub) with
  | some new, some ⟨d, tbl⟩ =>
    match ipaTableGetEntry d new with
    | .error _ => none
    | .ok i => tbl.liveAt i
  | _, _ => none

/-- The handle that a call takes away. -/
def NatiTrigger.takes : NatiTrigger → Option ℕ
  | .delRule _ ruleHdl => some ruleHdl
  | _ => none

/-- **The memory in use is still in use**, with every rule but the one that the call takes
    away, under the handle that the application has for it. -/
structure OldMemoryKept (t : NatiTrigger) (s s' : NatiLib) : Prop where
  state : s'.nati.currState = s.nati.currState
  rules : ∀ orig r, t.takes ≠ some orig → s.ruleAt orig = some r → s'.ruleAt orig = some r

/-- The call has counted a switch away from the memory in use as failed: its copy has not
    gone over every rule. -/
def SwitchFailed (s s' : NatiLib) : Prop :=
  (s'.nati.swStats s.nati.chooseMemSub).fail ≠ (s.nati.swStats s.nati.chooseMemSub).fail

/-- A call that adds or deletes a rule. -/
def NatiTrigger.onRule : NatiTrigger → Bool
  | .addRule .. | .delRule .. => true
  | _ => false

/-! ## What the calls leave of the state -/

section Calls
variable {depth hdl : ℕ} {ret : ℤ}

/-- The status of the machine says nothing. -/
theorem ipaNatiStatemach_status {t : NatiTrigger}
    (h : ipaNatiStatemach env depth t s = some (ret, s')) : ret = 0 := by
  cases depth with
  | zero => cases h
  | succ depth =>
    unfold ipaNatiStatemach at h
    dsimp only at h
    split at h
    · split at h
      · simp only [Option.bind_eq_bind, Option.bind_eq_some_iff] at h
        obtain ⟨r, -, h⟩ := h
        cases h
        rfl
      · cases h
        rfl
    · simp only [Option.bind_eq_bind, Option.bind_eq_some_iff] at h
      obtain ⟨r, -, h⟩ := h
      cases h
      rfl

/-- A trigger whose callback leaves the object as `P` says. -/
theorem ipaNatiStatemach_nati {t : NatiTrigger} {P : NatiObj → NatiObj → Prop}
    (hrefl : ∀ o, P o o) (hcb : ∀ w ret₁ s₁, stateMachTbl env (ipaNatiStatemach env (depth - 1))
      s.nati.currState t (s.setDrv w) = some (ret₁, s₁) → P s.nati s₁.nati)
    (h : ipaNatiStatemach env depth t s = some (ret, s')) : P s.nati s'.nati := by
  cases depth with
  | zero => cases h
  | succ depth =>
    obtain ⟨w, -, ⟨-, rfl⟩ | ⟨ret₁, s₁, w', -, hcall, rfl⟩⟩ := ipaNatiStatemach_cases h
    · exact hrefl _
    · exact hcb w ret₁ s₁ hcall

/-- **An add in DDR stays there.** -/
theorem addRule_ddr {clntRule : Ipv4Rule} (hst : s.nati.currState = .hybridDdr)
    (h : ipaNatiStatemach env depth (.addRule hdl clntRule) s = some (ret, s')) :
    s'.nati.currState = s.nati.currState ∧ s'.nati.swStats = s.nati.swStats := by
  refine ipaNatiStatemach_nati (P := fun o o' => o'.currState = o.currState ∧
    o'.swStats = o.swStats) (fun o => ⟨rfl, rfl⟩) (fun w ret₁ s₁ hcall => ?_) h
  rw [hst] at hcall
  obtain ⟨ret₂, s₂, hadd, hcases⟩ := smAddRuleHybrid_cases hcall
  obtain ⟨c, hc⟩ := smAddRuleToTbl_nati env ((s.setDrv w).nati.hybridTblHdl hdl) clntRule
    (s.setDrv w)
  rw [hadd] at hc
  have hs₂ : s₂.nati.currState = s.nati.currState ∧ s₂.nati.swStats = s.nati.swStats := by
    rw [show s₂.nati = _ from hc]
    exact ⟨rfl, rfl⟩
  rcases hcases with ⟨-, -, rfl⟩ | ⟨-, hhyb, -⟩ | ⟨-, -, rfl⟩
  · exact hs₂
  · rw [hs₂.1, hst] at hhyb
    cases hhyb
  · exact hs₂

/-- **An add in SRAM counts no switch, or ends in DDR.** -/
theorem addRule_sram {clntRule : Ipv4Rule} (hst : s.nati.currState = .hybrid)
    (h : ipaNatiStatemach env depth (.addRule hdl clntRule) s = some (ret, s')) :
    s'.nati.swStats = s.nati.swStats ∨ s'.nati.currState ≠ s.nati.currState := by
  refine ipaNatiStatemach_nati (P := fun o o' => o'.swStats = o.swStats ∨
    o'.currState ≠ o.currState) (fun o => Or.inl rfl) (fun w ret₁ s₁ hcall => ?_) h
  rw [hst] at hcall
  obtain ⟨ret₂, s₂, hadd, hcases⟩ := smAddRuleHybrid_cases hcall
  obtain ⟨c, hc⟩ := smAddRuleToTbl_nati env ((s.setDrv w).nati.hybridTblHdl hdl) clntRule
    (s.setDrv w)
  rw [hadd] at hc
  have hs₂ : s₂.nati.swStats = s.nati.swStats := by
    rw [show s₂.nati = _ from hc]
    rfl
  rcases hcases with ⟨-, -, rfl⟩ | ⟨-, -, -, ret₃, s₃, hswitch, ⟨hret, -⟩ | hagain⟩ | ⟨-, -, rfl⟩
  · exact Or.inl hs₂
  · exact absurd (ipaNatiStatemach_status hswitch) hret
  · refine Or.inr ?_
    rw [(addRule_ddr rfl hagain).1, hst]
    exact (by decide : NatiState.hybridDdr ≠ .hybrid)
  · exact Or.inl hs₂

/-- **A delete counts no switch, or moves from DDR to SRAM.** -/
theorem delRule_moves {ruleHdl : ℕ} (hyb : s.nati.inHybridState = true)
    (h : ipaNatiStatemach env depth (.delRule hdl ruleHdl) s = some (ret, s')) :
    s'.nati.swStats = s.nati.swStats ∨ s'.nati.currState ≠ s.nati.currState := by
  refine ipaNatiStatemach_nati (P := fun o o' => o'.swStats = o.swStats ∨
    o'.currState ≠ o.currState) (fun o => Or.inl rfl) (fun w ret₁ s₁ hcall => ?_) h
  have hdel : smDelRuleHybrid env (ipaNatiStatemach env (depth - 1)) hdl ruleHdl (s.setDrv w) =
      some (ret₁, s₁) := by
    rcases s.nati.inHybridState_iff.1 hyb with hst | hst <;> rw [hst] at hcall <;> exact hcall
  rcases smDelRuleHybrid_cases hdel with ⟨-, rfl⟩ | ⟨new, ret₂, s₂, -, hdel, hcases⟩
  · exact Or.inl rfl
  have hs₂ : s₂.nati.swStats = s.nati.swStats ∧ s₂.nati.currState = s.nati.currState := by
    obtain ⟨c, hc⟩ := smDelRuleFromTbl_nati env ((s.setDrv w).nati.hybridTblHdl hdl) new
      ((s.setDrv w).setNati ((s.setDrv w).nati.setMaps (s.setDrv w).nati.chooseMemSub
        (((s.setDrv w).nati.mapPairs (s.setDrv w).nati.chooseMemSub).unmap ruleHdl new)))
    rw [hdel] at hc
    rw [show s₂.nati = _ from hc]
    exact ⟨rfl, rfl⟩
  rcases hcases with rfl | ⟨hst, -, -, ret₃, s₃, hswitch, ⟨hret, -⟩ | rfl⟩
  · exact Or.inl hs₂.1
  · exact absurd (ipaNatiStatemach_status hswitch) hret
  · refine Or.inr ?_
    rw [← hs₂.2, hst]
    exact (by decide : NatiState.hybrid ≠ .hybridDdr)

/-- All but the sixth system call from here on succeed: the first post of the copy fails. -/
def postFailsEnv : Env :=
  { calmEnv 216 with io := fun n => n ≠ twoInDdr.drv.calls + 5 }

/-- One of two rules in DDR is deleted, and the switch that this triggers cannot move the
    other one. -/
def strandingDelete : Option (ℤ × NatiLib) :=
  ipaNatiStatemach postFailsEnv 3 (.delRule twoInDdr.clnt.tblHdl 4) twoInDdr

theorem strandingDelete_answers :
    strandingDelete.any (fun r => r.1 == 0 &&
      (r.2.nati.swStats .ddr).fail != (twoInDdr.nati.swStats .ddr).fail &&
      r.2.nati.currState == .hybrid && (r.2.ruleAt 6).isNone) = true ∧
    twoInDdr.nati.chooseMemSub = .ddr ∧ twoInDdr.nati.inHybridState = true ∧
    (twoInDdr.ruleAt 6).isSome = true := by
  decide +kernel

theorem strandingDelete_runs : ∃ s', strandingDelete = some (0, s') ∧ SwitchFailed twoInDdr s' ∧
    s'.nati.currState = .hybrid ∧ s'.ruleAt 6 = none := by
  obtain ⟨hrun, hsub, -⟩ := strandingDelete_answers
  obtain ⟨⟨ret, s'⟩, hs, hp⟩ := (Option.any_eq_true ..).1 hrun
  simp only [Bool.and_eq_true, beq_iff_eq, bne_iff_ne, Option.isNone_iff_eq_none] at hp
  obtain ⟨⟨⟨rfl, hfail⟩, hst⟩, hgone⟩ := hp
  exact ⟨s', hs, by rwa [SwitchFailed, hsub], hst, hgone⟩

/-- **A call whose switch fails never leaves the memory it began with in use.** -/
theorem failedSwitch_moves {t : NatiTrigger} (hyb : s.nati.inHybridState = true)
    (ht : t.onRule = true) (hrun : ipaNatiStatemach env depth t s = some (ret, s'))
    (hfail : SwitchFailed s s') : ¬ OldMemoryKept t s s' := by
  intro hkept
  have hmoves : s'.nati.swStats = s.nati.swStats ∨ s'.nati.currState ≠ s.nati.currState := by
    cases t with
    | addRule hdl clntRule =>
      rcases s.nati.inHybridState_iff.1 hyb with hst | hst
      · exact addRule_sram hst hrun
      · exact Or.inl (addRule_ddr hst hrun).2
    | delRule hdl ruleHdl => exact delRule_moves hyb hrun
    | _ => cases ht
  rcases hmoves with hsame | hmoved
  · exact hfail (by rw [hsame])
  · exact hmoved hkept.state

end Calls

/-- The delete ends in SRAM. -/
theorem failedSwitch_moves_delete : ∃ s', strandingDelete = some (0, s') ∧
    ¬ OldMemoryKept (.delRule twoInDdr.clnt.tblHdl 4) twoInDdr s' := by
  obtain ⟨s', hs, hfail, -⟩ := strandingDelete_runs
  exact ⟨s', hs, failedSwitch_moves strandingDelete_answers.2.2.1 rfl hs hfail⟩

/-- The rule that is left can no longer be reached: its switch has failed, and the call
    answers 0 and ends in SRAM. -/
theorem failedSwitch_strands : ∃ s', strandingDelete = some (0, s') ∧ SwitchFailed twoInDdr s' ∧
    (twoInDdr.ruleAt 6).isSome ∧ s'.ruleAt 6 = none ∧
    ¬ OldMemoryKept (.delRule twoInDdr.clnt.tblHdl 4) twoInDdr s' := by
  obtain ⟨s', hs, hfail, -, hgone⟩ := strandingDelete_runs
  have hlive := strandingDelete_answers.2.2.2
  refine ⟨s', hs, hfail, hlive, hgone, fun hkept => ?_⟩
  obtain ⟨r, hr⟩ := Option.isSome_iff_exists.1 hlive
  have hstays := hkept.rules 6 r (by decide) hr
  rw [hgone] at hstays
  cases hstays

end Sm8850.Ipanat
