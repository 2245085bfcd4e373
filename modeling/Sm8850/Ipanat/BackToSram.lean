/-
  The switch back to SRAM finds its slots, over whole runs of the client.

  * `runCall_keeps`, `NatiInv.run`: every call of the client keeps the invariant, so
    every run does.
  * `delIpv4Rule_returns`: a delete runs the machine three deep at most.
  * `backToSram_findsSlots`: no add of the migration that a delete triggers lacks a slot.
-/
import Sm8850.Ipanat.MachineInv
import Sm8850.Ipanat.NatRuns

namespace Sm8850.Ipanat

/-- The library before the first call. -/
def bootLib : NatiLib where
  nati := natiObj
  drv := bootDrv
  clnt := ⟨0, 0, 0, none⟩
  noSlots := 0

/-- The client makes some call and it returns. -/
def ClntStep (env : Env) (s s' : NatiLib) : Prop :=
  ∃ depth c ret, runCall env depth c s = some (ret, s')

theorem bootLib_inv (env : Env) : NatiInv env bootLib := by
  refine ⟨⟨⟨fun m d tbl ht => ?_, fun m => ?_, fun d tbl ht => ?_, by decide⟩, Or.inl (Or.inl rfl)⟩,
    fun hyb => ?_⟩
  · cases m <;> cases ht
  · cases m <;> exact Or.inl rfl
  · cases ht
  · cases hyb

section Calls
variable {env : Env} {s : NatiLib} (h : NatiInv env s) {depth : ℕ} {ret : ℤ} {s' : NatiLib}

/-! ## Calls that run no callback -/

theorem modifyPdn_sameTbls (env : Env) (w : Drv) (i : ℕ) (e : PdnEntry) :
    w.SameTbls (ipaNatiModifyPdn env w i e).2 := fun m =>
  congrArg NatCache.ip4Tbl (ipaNatiModifyPdn_natCache rfl m)

theorem allocPdn_sameTbls (env : Env) (w : Drv) (e : PdnEntry) :
    w.SameTbls (ipaNatiAllocPdn env w e).2.2 := by
  unfold ipaNatiAllocPdn
  split
  · exact fun _ => rfl
  split
  · exact fun _ => rfl
  · exact fun _ => rfl
  · next i _ =>
    have hmod := modifyPdn_sameTbls env w i e
    split
    · next heq =>
      rw [heq] at hmod
      exact hmod
    · next heq =>
      rw [heq] at hmod
      exact hmod

theorem deallocPdn_sameTbls (env : Env) (w : Drv) (i : ℕ) :
    w.SameTbls (ipaNatiDeallocPdn env w i).2 := by
  unfold ipaNatiDeallocPdn
  split
  · exact fun _ => rfl
  split
  · exact fun _ => rfl
  have hmod := modifyPdn_sameTbls env w i PdnEntry.zero
  split
  · next heq =>
    rw [heq] at hmod
    exact hmod
  · next heq =>
    rw [heq] at hmod
    exact hmod

include h

/-- The state to hold may change, but not to the hybrid one in DDR. -/
theorem NatiInv.setHold (b : Bool) {st : NatiState} (hst : st ≠ .hybridDdr) :
    NatiInv env (s.setNati { s.nati with holdState := b, stateToHold := st }) :=
  ⟨⟨⟨h.sound, fun m => by cases m; exacts [h.hdls .ddr, h.hdls .sram], h.sized, hst⟩, h.clnt⟩,
    h.hybrid⟩

theorem switchTo_keeps {nmi : MemIn} {b : Bool}
    (hcall : ipaNatSwitchTo env depth s nmi b = some (ret, s')) : NatiInv env s' := by
  unfold ipaNatSwitchTo at hcall
  by_cases hun : s.nati.inUnstartedState = true
  · rw [if_pos hun] at hcall
    cases hcall
    exact h.setHold b (by cases nmi <;> decide)
  rw [if_neg hun] at hcall
  by_cases hyb : s.nati.inHybridState = true
  · have hheld : ∀ {r : ℤ} {s₁ : NatiLib}, NatiInv env s₁ →
        some (giveMutex, if r = 0 then s₁.setNati { s₁.nati with
          holdState := b
          stateToHold := if b then s₁.nati.genHoldState else s₁.nati.stateToHold } else s₁) =
          some (ret, s') → NatiInv env s' := fun h₁ heq => by
      cases heq
      split_ifs
      · exact h₁.setHold _ (NatiObj.genHoldState_ne _)
      · exact h₁.setHold _ h₁.hold
      · exact h₁
    rw [if_pos hyb] at hcall
    dsimp only at hcall
    by_cases hcomp : s.nati.compatibleNmi4Switch nmi = true
    · rw [if_pos hcomp] at hcall
      simp only [Option.bind_eq_bind, Option.bind_eq_some_iff] at hcall
      obtain ⟨⟨ret₁, s₁⟩, hswitch, hcall⟩ := hcall
      exact hheld (statemach_keeps (t := .tblSwitch) h trivial hswitch) hcall
    · rw [if_neg hcomp] at hcall
      exact hheld (r := 0) h hcall
  rw [if_neg hyb] at hcall
  split_ifs at hcall
  · cases hcall
    exact h.setHold b s.nati.genHoldState_ne
  · cases hcall
    exact h
  · cases hcall
    exact h.setHold b (by decide)

/-! ## Runs -/

/-- **Every call of the client keeps the invariant.** -/
theorem runCall_keeps {c : ClntCall} (hcall : runCall env depth c s = some (ret, s')) :
    NatiInv env s' := by
  have hpdn : ∀ {w}, s.drv.SameTbls w → ∀ {r : ℤ}, some (r, s.setDrv w) = some (ret, s') →
      NatiInv env s' := fun hw r heq => by
    cases heq
    exact h.setDrv hw
  have hmach : ∀ t : NatiTrigger, t.On s.clnt.tblHdl →
      ipaNatiStatemach env depth t s = some (ret, s') → NatiInv env s' := fun t ht hrun =>
    statemach_keeps h ht hrun
  have hsame : some ((-einval : ℤ), s) = some (ret, s') → NatiInv env s' := fun heq => by
    cases heq
    exact h
  cases c with
  | addIpv4Tbl ip mem n =>
    simp only [runCall, ipaNatAddIpv4Tbl] at hcall
    split_ifs at hcall
    · exact hsame hcall
    · have h₀ : NatiInv env (s.setTblHdl 0) :=
        ⟨⟨⟨h.sound, h.hdls, h.sized, h.hold⟩, Or.inl (Or.inl rfl)⟩, h.hybrid⟩
      exact statemach_keeps (t := .addTable ip n mem) h₀ rfl hcall
  | delIpv4Tbl =>
    simp only [runCall, ipaNatDelIpv4Tbl] at hcall
    split_ifs at hcall
    · exact hsame hcall
    · exact hmach (.delTable s.clnt.tblHdl) rfl hcall
  | clearIpv4Tbl => exact hmach (.clrTable s.clnt.tblHdl) rfl hcall
  | walkIpv4Tbl which => exact hmach (.wlkTable s.clnt.tblHdl which) rfl hcall
  | ipv4TblStats => exact hmach (.tblStats s.clnt.tblHdl) rfl hcall
  | addIpv4Rule r =>
    simp only [runCall, ipaNatAddIpv4Rule] at hcall
    split_ifs at hcall
    · exact hsame hcall
    · exact hmach (.addRule s.clnt.tblHdl r) rfl hcall
  | delIpv4Rule hdl =>
    simp only [runCall, ipaNatDelIpv4Rule] at hcall
    split_ifs at hcall
    · exact hsame hcall
    · exact hmach (.delRule s.clnt.tblHdl hdl) rfl hcall
  | queryTimestamp hdl =>
    simp only [runCall, ipaNatQueryTimestamp] at hcall
    split_ifs at hcall
    · exact hsame hcall
    · exact hmach (.getTstamp s.clnt.tblHdl hdl) rfl hcall
  | switchTo nmi b => exact switchTo_keeps h hcall
  | modifyPdn i e =>
    simp only [runCall] at hcall
    split_ifs at hcall
    · exact hsame hcall
    · exact hpdn (modifyPdn_sameTbls env s.drv i e) hcall
  | allocPdn e => exact hpdn (allocPdn_sameTbls env s.drv e) hcall
  | deallocPdn i =>
    simp only [runCall] at hcall
    split_ifs at hcall
    · exact hsame hcall
    · exact hpdn (deallocPdn_sameTbls env s.drv i) hcall
  | voteClock => exact hpdn (voteClock_sameTbls env s.drv) hcall

omit h

theorem NatiInv.run (run : Relation.ReflTransGen (ClntStep env) bootLib s) : NatiInv env s := by
  induction run with
  | refl => exact bootLib_inv env
  | tail _ step ih =>
    obtain ⟨depth, c, ret, hcall⟩ := step
    exact runCall_keeps ih hcall

end Calls

/-! ## The delete -/

section Delete
variable (env : Env) (s : NatiLib)

variable {env s} in
/-- The machine returns if its callback does. -/
theorem statemach_returns {depth : ℕ} {t : NatiTrigger}
    (hcb : ∀ w, ∃ r, stateMachTbl env (ipaNatiStatemach env depth) s.nati.currState t
      (s.setDrv w) = some r) : ∃ r, ipaNatiStatemach env (depth + 1) t s = some r := by
  unfold ipaNatiStatemach
  split_ifs
  · rcases ipaNatiVoteClock env s.drv with ⟨ret, w⟩
    split
    · next w _ =>
      obtain ⟨r, hr⟩ := hcb w
      exact ⟨_, congrArg (Option.bind · _) hr⟩
    · exact ⟨_, rfl⟩
  · obtain ⟨r, hr⟩ := hcb s.drv
    exact ⟨_, congrArg (Option.bind · _) hr⟩

theorem goto_returns (depth : ℕ) (dst : MemIn) :
    ∃ r, ipaNatiStatemach env (depth + 1) (gotoTrigger dst) s = some r :=
  statemach_returns fun w => by
    cases s.nati.currState <;> cases dst <;> exact ⟨_, rfl⟩

theorem switch_returns (depth : ℕ) :
    ∃ r, ipaNatiStatemach env (depth + 2) .tblSwitch s = some r := by
  have hsmSwitch : ∀ (src dst : MemIn) (s : NatiLib),
      ∃ r, smSwitch env (ipaNatiStatemach env (depth + 1)) src dst s = some r := by
    intro src dst s
    obtain ⟨⟨ret, s₁⟩, hgoto⟩ := goto_returns env s depth dst
    cases dst <;> simp only [gotoTrigger] at hgoto <;>
      simp only [smSwitch, hgoto, Option.bind_eq_bind, Option.bind_some] <;>
      split_ifs <;> exact ⟨_, rfl⟩
  refine statemach_returns fun w => ?_
  cases s.nati.currState
  · exact ⟨_, rfl⟩
  · exact ⟨_, rfl⟩
  · exact ⟨_, rfl⟩
  · exact hsmSwitch .sram .ddr _
  · exact hsmSwitch .ddr .sram _

/-- **A delete returns**: it runs the machine three deep at most. -/
theorem delIpv4Rule_returns (depth tblHdl ruleHdl : ℕ) :
    ∃ ret s', ipaNatDelIpv4Rule env (depth + 3) s tblHdl ruleHdl = some (ret, s') := by
  have hhybrid : ∀ s : NatiLib, ∃ r, smDelRuleHybrid env (ipaNatiStatemach env (depth + 2))
      tblHdl ruleHdl s = some r := by
    intro s
    unfold smDelRuleHybrid
    dsimp only
    split
    · exact ⟨_, rfl⟩
    · split_ifs
      · obtain ⟨r, hr⟩ := switch_returns env _ depth
        exact ⟨_, congrArg (Option.bind · _) hr⟩
      · exact ⟨_, rfl⟩
      · exact ⟨_, rfl⟩
  have hrun : ∃ r, ipaNatiStatemach env (depth + 3) (.delRule tblHdl ruleHdl) s = some r := by
    refine statemach_returns fun w => ?_
    cases s.nati.currState
    · exact ⟨_, rfl⟩
    · exact ⟨_, rfl⟩
    · exact ⟨_, rfl⟩
    · exact hhybrid _
    · exact hhybrid _
  unfold ipaNatDelIpv4Rule
  split
  · exact ⟨_, _, rfl⟩
  · obtain ⟨⟨ret, s'⟩, hr⟩ := hrun
    exact ⟨ret, s', hr⟩

end Delete

/-- **The switch back to SRAM lacks no slot**: whatever the client has done and whatever its
    rules hash to, a delete returns, and every add of the migration that it triggers finds
    a slot for both of its entries. -/
theorem backToSram_findsSlots {env : Env} {s : NatiLib}
    (run : Relation.ReflTransGen (ClntStep env) bootLib s) (depth ruleHdl : ℕ) :
    ∃ ret s', ipaNatDelIpv4Rule env (depth + 3) s s.clnt.tblHdl ruleHdl = some (ret, s') ∧
      s'.noSlots = s.noSlots := by
  have h := NatiInv.run run
  obtain ⟨ret, s', hcall⟩ := delIpv4Rule_returns env s depth s.clnt.tblHdl ruleHdl
  refine ⟨ret, s', hcall, ?_⟩
  unfold ipaNatDelIpv4Rule at hcall
  split at hcall
  · cases hcall
    rfl
  obtain ⟨w, hw, ⟨-, rfl⟩ | ⟨ret₁, s₁, w', hw', hcb, rfl⟩⟩ := ipaNatiStatemach_cases hcall
  · rfl
  have hboth : s.nati.inHybridState = true → s₁.noSlots = s.noSlots := fun hyb => by
    have hdel : smDelRuleHybrid env (ipaNatiStatemach env (depth + 2)) s.clnt.tblHdl ruleHdl
        (s.setDrv w) = some (ret₁, s₁) := by
      rcases s.nati.inHybridState_iff.1 hyb with hst | hst <;> rw [hst] at hcb <;> exact hcb
    have hkeeps := smDelRuleHybrid_keeps (smKeeps env (depth + 2)) (h.setDrv hw) hyb hdel
    exact hkeeps.2
  have hone : some (smDelRuleFromTbl env s.clnt.tblHdl ruleHdl (s.setDrv w)) = some (ret₁, s₁) →
      s₁.noSlots = s.noSlots := fun heq => by
    obtain rfl := congrArg Prod.snd (Option.some.inj heq)
    simp only [smDelRuleFromTbl]
    split_ifs <;> rfl
  cases hst : s.nati.currState with
  | null =>
    rw [hst] at hcb
    cases hcb
    rfl
  | ddrOnly =>
    rw [hst] at hcb
    exact hone hcb
  | sramOnly =>
    rw [hst] at hcb
    exact hone hcb
  | hybrid => exact hboth (s.nati.inHybridState_iff.2 (Or.inl hst))
  | hybridDdr => exact hboth (s.nati.inHybridState_iff.2 (Or.inr hst))

/-- The library after a call, in an SRAM of 216 bytes. -/
def afterCall (s : NatiLib) (c : ClntCall) : NatiLib :=
  ((runCall (calmEnv 216) 4 c s).getD (0, s)).2

theorem afterCall_step {s : NatiLib} {c : ClntCall}
    (h : (runCall (calmEnv 216) 4 c s).isSome = true) :
    ClntStep (calmEnv 216) s (afterCall s c) := by
  obtain ⟨⟨ret, s'⟩, hcall⟩ := Option.isSome_iff_exists.1 h
  refine ⟨4, c, ret, ?_⟩
  rw [afterCall, hcall]
  rfl

/-- Four entries fit the SRAM, so the threshold is one rule; two are in DDR. -/
def twoInDdr : NatiLib :=
  [.addIpv4Tbl 0x0A000001 "HYBRID" 5, .switchTo .ddr false, .addIpv4Rule (portRule 80),
    .addIpv4Rule (portRule 81)].foldl afterCall bootLib

/-- What the calls that lead there answer, and what a delete then leaves. -/
theorem twoInDdr_answers :
    (let call := fun s c => (runCall (calmEnv 216) 4 c s).isSome
      let s₁ := afterCall bootLib (.addIpv4Tbl 0x0A000001 "HYBRID" 5)
      let s₂ := afterCall s₁ (.switchTo .ddr false)
      let s₃ := afterCall s₂ (.addIpv4Rule (portRule 80))
      call bootLib (.addIpv4Tbl 0x0A000001 "HYBRID" 5) = true ∧
        call s₁ (.switchTo .ddr false) = true ∧ call s₂ (.addIpv4Rule (portRule 80)) = true ∧
        call s₃ (.addIpv4Rule (portRule 81)) = true) ∧
    twoInDdr.nati.currState = .hybridDdr ∧
    (afterCall twoInDdr (.delIpv4Rule 4)).nati.currState = .hybrid ∧
    (afterCall twoInDdr (.delIpv4Rule 4)).nati.totRulesInTable .sram = 1 := by
  decide +kernel

theorem twoInDdr_run : Relation.ReflTransGen (ClntStep (calmEnv 216)) bootLib twoInDdr := by
  obtain ⟨⟨hcreate, hswitch, hadd₁, hadd₂⟩, -⟩ := twoInDdr_answers
  exact (((Relation.ReflTransGen.single (afterCall_step hcreate)).tail
    (afterCall_step hswitch)).tail (afterCall_step hadd₁)).tail (afterCall_step hadd₂)

/-- Deleting one of the two brings the other one back to SRAM. -/
theorem backToSram_findsSlots_twoInDdr :
    (∃ ret s', ipaNatDelIpv4Rule (calmEnv 216) 3 twoInDdr twoInDdr.clnt.tblHdl 4 =
      some (ret, s') ∧ s'.noSlots = twoInDdr.noSlots) ∧
    twoInDdr.nati.currState = .hybridDdr ∧
    (afterCall twoInDdr (.delIpv4Rule 4)).nati.currState = .hybrid ∧
    (afterCall twoInDdr (.delIpv4Rule 4)).nati.totRulesInTable .sram = 1 :=
  ⟨backToSram_findsSlots twoInDdr_run 0 4, twoInDdr_answers.2⟩

end Sm8850.Ipanat
