/-
  The state machine keeps its invariant, whatever it runs inside of itself.

  * `SmKeeps`: what a callback relies on when it runs the machine again.
  * `smSwitch_keeps`, `smAddRuleHybrid_keeps`, `smDelRuleHybrid_keeps` and
    `addTable_keeps`: the callbacks that do.
  * `statemach_keeps`: the machine itself, by induction on the depth.
-/
import Sm8850.Ipanat.Migration

namespace Sm8850.Ipanat

/-- The trigger that focuses the hardware on the table of a memory. -/
def gotoTrigger : MemIn → NatiTrigger
  | .ddr => .gotoDdr
  | .sram => .gotoSram

/-- **What the machine does for its own callbacks.** -/
structure SmKeeps (env : Env) (sm : NatiTrigger → NatiLib → Option (ℤ × NatiLib)) : Prop where
  goto : ∀ (dst : MemIn) {s : NatiLib} {ret : ℤ} {s' : NatiLib}, s.nati.inHybridState = true →
    sm (gotoTrigger dst) s = some (ret, s') → s.Quiet s' ∧ s'.nati.inHybridState = true
  tblSwitch : ∀ {s : NatiLib} {ret : ℤ} {s' : NatiLib}, NatiInv env s →
    s.nati.inHybridState = true → sm .tblSwitch s = some (ret, s') →
      NatiInv env s' ∧ s'.nati.inHybridState = true ∧ s'.clnt.tblHdl = s.clnt.tblHdl
  back : ∀ {s : NatiLib} {ret : ℤ} {s' : NatiLib}, NatiInv env s →
    s.nati.currState = .hybridDdr →
    s.nati.totRulesInTable .ddr ≤ s.nati.backToSramThresh →
    sm .tblSwitch s = some (ret, s') → s'.noSlots = s.noSlots
  addRule : ∀ {s : NatiLib} {clntRule : Ipv4Rule} {ret : ℤ} {s' : NatiLib}, NatiInv env s →
    sm (.addRule s.clnt.tblHdl clntRule) s = some (ret, s') → NatiInv env s'
  addTable : ∀ {s : NatiLib} {ip : UInt32} {n : ℕ} {mem : String} {ret : ℤ} {s' : NatiLib},
    NatiTbls env s → s.clnt.tblHdl = 0 → s.nati.currState ≠ .hybridDdr →
    sm (.addTable ip n mem) s = some (ret, s') → NatiInv env s'

variable {env : Env} {sm : NatiTrigger → NatiLib → Option (ℤ × NatiLib)} {s : NatiLib} {ret : ℤ}
  {s' : NatiLib}

/-! ## Switches -/

theorem smGoTo_quiet (env : Env) (dst : MemIn) (hyb : s.nati.inHybridState = true) :
    s.Quiet (smGoTo env dst s).2 ∧ (smGoTo env dst s).2.nati.inHybridState = true := by
  have hsame := postInitCmd_sameTbls env s.drv (s.nati.tblHdl dst)
  rcases hpost : ipaNATIPostIpv4InitCmd env s.drv (s.nati.tblHdl dst) with ⟨ret, w⟩
  rw [hpost] at hsame
  have hs := s.quiet_setDrv hsame
  simp only [smGoTo, hpost]
  split_ifs
  · refine ⟨hs.trans (NatiLib.quiet_setState _ _), ?_⟩
    rw [NatiObj.inHybridState_iff]
    cases dst
    · exact Or.inr rfl
    · exact Or.inl rfl
  · exact ⟨hs, hyb⟩

theorem NatiLib.quiet_countSwitch (s : NatiLib) (sub : MemIn) (passed : Bool) :
    s.Quiet (s.setNati (s.nati.countSwitch sub passed)) :=
  ⟨⟨.refl _, fun m => by cases m <;> rfl, rfl, rfl, rfl⟩, fun _ => rfl, rfl, rfl, rfl⟩

/-- A switch focuses the hardware, and then copies or not. -/
theorem smSwitch_cases {src dst : MemIn} (hcall : smSwitch env sm src dst s = some (ret, s')) :
    ∃ ret₁ s₁, sm (gotoTrigger dst) s = some (ret₁, s₁) ∧ (s' = s₁ ∨ ∃ s₂ sub passed,
      s₂ = (ipaNatiCopyIpv4Tbl env (s₁.nati.tblHdl src) (s₁.nati.tblHdl dst)
        (s₁.setNati (s₁.nati.clearMem dst))).2 ∧
      s' = s₂.setNati (s₂.nati.countSwitch sub passed)) := by
  simp only [smSwitch, Option.bind_eq_bind, Option.bind_eq_some_iff] at hcall
  obtain ⟨⟨ret₁, s₁⟩, hgoto, hcall⟩ := hcall
  refine ⟨ret₁, s₁, by cases dst <;> exact hgoto, ?_⟩
  dsimp only at hcall
  split_ifs at hcall
  · cases hcall
    exact Or.inr ⟨_, _, _, rfl, rfl⟩
  · cases hcall
    exact Or.inl rfl

/-- **A switch, in one direction or the other**, whether it passes or fails. -/
theorem smSwitch_keeps (K : SmKeeps env sm) (h : NatiInv env s)
    (hyb : s.nati.inHybridState = true) {src dst : MemIn} (hne : dst ≠ src)
    (hcall : smSwitch env sm src dst s = some (ret, s')) :
    NatiInv env s' ∧ s'.nati.inHybridState = true ∧ s'.clnt.tblHdl = s.clnt.tblHdl := by
  obtain ⟨ret₁, s₁, hgoto, hcases⟩ := smSwitch_cases hcall
  obtain ⟨hquiet, hyb₁⟩ := K.goto dst hyb hgoto
  have h₁ := h.toNatiBase.hybrid hquiet.toSteady hyb ((h.hybrid hyb).quiet hquiet)
  rcases hcases with rfl | ⟨s₂, sub, passed, hs₂, rfl⟩
  · exact ⟨h₁, hyb₁, hquiet.clnt⟩
  have hclear := s₁.within_clearMem dst
  obtain ⟨hcopy, hddr⟩ := copy_keeps
    (h₁.toNatiBase.sameState hclear.toSteady hclear.currState) src dst hne fun hd => by
      subst hd
      exact ⟨rfl, rfl⟩
  have hh : ∀ m, (s₁.setNati (s₁.nati.clearMem dst)).nati.tblHdl m = s₁.nati.tblHdl m :=
    hclear.tblHdl
  rw [hh, hh, ← hs₂] at hcopy hddr
  have hcount := s₂.quiet_countSwitch sub passed
  have hs := hclear.trans hcopy
  have h₂ := h₁.within hs fun hd _ => hddr hd
  have hstate : s₂.nati.inHybridState = true := by
    rwa [NatiObj.inHybridState_iff, hs.currState, ← NatiObj.inHybridState_iff]
  exact ⟨h₂.quiet hcount rfl, hstate, hs.clnt.trans hquiet.clnt⟩

/-- **The switch back to SRAM lacks no slot** at or below the threshold. -/
theorem smSwitch_noSlots (K : SmKeeps env sm) (h : NatiInv env s)
    (hstate : s.nati.currState = .hybridDdr)
    (hle : s.nati.totRulesInTable .ddr ≤ s.nati.backToSramThresh)
    (hcall : smSwitch env sm .ddr .sram s = some (ret, s')) : s'.noSlots = s.noSlots := by
  have hyb : s.nati.inHybridState = true := s.nati.inHybridState_iff.2 (Or.inr hstate)
  obtain ⟨ret₁, s₁, hgoto, hcases⟩ := smSwitch_cases hcall
  obtain ⟨hquiet, hyb₁⟩ := K.goto .sram hyb hgoto
  rcases hcases with rfl | ⟨s₂, sub, passed, hs₂, rfl⟩
  · exact hquiet.noSlots
  have h₁ := h.toNatiBase.hybrid hquiet.toSteady hyb ((h.hybrid hyb).quiet hquiet)
  have hclear := s₁.within_clearMem .sram
  have hcopy := copy_noSlots (h₁.toNatiBase.sameState hclear.toSteady hclear.currState)
    ((h₁.hybrid hyb₁).within hclear) (by
      rw [hclear.cntr .ddr (by decide), hclear.thresh, hquiet.cntr, hquiet.thresh]
      exact hle)
  have hh : ∀ m, (s₁.setNati (s₁.nati.clearMem .sram)).nati.tblHdl m = s₁.nati.tblHdl m :=
    hclear.tblHdl
  rw [hh, hh, ← hs₂] at hcopy
  exact hcopy.trans hquiet.noSlots

/-! ## Rules -/

theorem NatiObj.setCntr_self (o : NatiObj) (sub : MemIn) :
    o.setCntr sub (o.totRulesInTable sub) = o := by
  rw [setCntr, Function.update_eq_self]

/-- Of the object, an add to a table changes a counter only. -/
theorem smAddRuleToTbl_nati (env : Env) (hdl : ℕ) (clntRule : Ipv4Rule) (s : NatiLib) :
    ∃ c, (smAddRuleToTbl env hdl clntRule s).2.nati = s.nati.setCntr s.nati.chooseMemSub c := by
  unfold smAddRuleToTbl
  dsimp only
  split_ifs
  · exact ⟨_, rfl⟩
  · exact ⟨_, (s.nati.setCntr_self _).symm⟩

theorem smDelRuleFromTbl_nati (env : Env) (hdl ruleHdl : ℕ) (s : NatiLib) :
    ∃ c, (smDelRuleFromTbl env hdl ruleHdl s).2.nati = s.nati.setCntr s.nati.chooseMemSub c := by
  unfold smDelRuleFromTbl
  dsimp only
  split_ifs
  · exact ⟨_, rfl⟩
  · exact ⟨_, (s.nati.setCntr_self _).symm⟩

/-- An add enters its rule in the maps; one that fails in SRAM switches and tries DDR. -/
theorem smAddRuleHybrid_cases {hdl : ℕ} {clntRule : Ipv4Rule}
    (hcall : smAddRuleHybrid env sm hdl clntRule s = some (ret, s')) :
    ∃ ret₁ s₁, smAddRuleToTbl env (s.nati.hybridTblHdl hdl) clntRule s = (ret₁, s₁) ∧
      (ret₁ = 0 ∧
          ret = ((s₁.nati.mapPairs s.nati.chooseMemSub).add s₁.clnt.ruleHdl s₁.clnt.ruleHdl).1 ∧
          s' = s₁.setNati (s₁.nati.setMaps s.nati.chooseMemSub
            ((s₁.nati.mapPairs s.nati.chooseMemSub).add s₁.clnt.ruleHdl s₁.clnt.ruleHdl).2) ∨
        ret₁ ≠ 0 ∧ s₁.nati.currState = .hybrid ∧ ! s₁.nati.holdState ∧ (∃ ret₂ s₂,
          sm .tblSwitch s₁ = some (ret₂, s₂) ∧ (ret₂ ≠ 0 ∧ s' = s₂ ∨
            sm (.addRule hdl clntRule) (s₂.setNati (s₂.nati.setState .hybridDdr)) =
              some (ret, s'))) ∨
        ret₁ ≠ 0 ∧ ret = ret₁ ∧ s' = s₁) := by
  rcases hadd : smAddRuleToTbl env (s.nati.hybridTblHdl hdl) clntRule s with ⟨ret₁, s₁⟩
  refine ⟨ret₁, s₁, rfl, ?_⟩
  have hsub : s₁.nati.chooseMemSub = s.nati.chooseMemSub := by
    obtain ⟨c, hc⟩ := smAddRuleToTbl_nati env (s.nati.hybridTblHdl hdl) clntRule s
    rw [hadd] at hc
    rw [show s₁.nati = s.nati.setCntr s.nati.chooseMemSub c from hc]
    rfl
  simp only [smAddRuleHybrid, hadd, hsub] at hcall
  split_ifs at hcall with hret hfull
  · cases hcall
    exact Or.inl ⟨hret, rfl, rfl⟩
  · simp only [Option.bind_eq_bind, Option.bind_eq_some_iff] at hcall
    obtain ⟨⟨ret₂, s₂⟩, hswitch, hcall⟩ := hcall
    refine Or.inr (Or.inl ⟨hret, hfull.1, hfull.2, ret₂, s₂, hswitch, ?_⟩)
    dsimp only at hcall
    split_ifs at hcall with hret₂
    · exact Or.inr hcall
    · cases hcall
      exact Or.inl ⟨hret₂, rfl⟩
  · cases hcall
    exact Or.inr (Or.inr ⟨hret, rfl, rfl⟩)

theorem smAddRuleHybrid_keeps (K : SmKeeps env sm) (h : NatiInv env s)
    (hyb : s.nati.inHybridState = true) {clntRule : Ipv4Rule}
    (hcall : smAddRuleHybrid env sm s.clnt.tblHdl clntRule s = some (ret, s')) :
    NatiInv env s' := by
  obtain ⟨ret₁, s₁, hadd, hcases⟩ := smAddRuleHybrid_cases hcall
  obtain ⟨hs, -, hfail, hdone⟩ := h.addRuleToTbl hadd
  have hyb₁ : s₁.nati.inHybridState = true := by
    rwa [NatiObj.inHybridState_iff, hs.currState, ← NatiObj.inHybridState_iff]
  rcases hcases with ⟨hret, -, rfl⟩ | ⟨hret, -, -, ret₂, s₂, hswitch, hcases⟩ | ⟨hret, -, rfl⟩
  · exact hdone hret
  · obtain ⟨h₂, hyb₂, hclnt⟩ := K.tblSwitch (hfail hret) hyb₁ hswitch
    rcases hcases with ⟨-, rfl⟩ | hagain
    · exact h₂
    · have hquiet := s₂.quiet_setState .hybridDdr
      have h₃ := h₂.toNatiBase.hybrid hquiet.toSteady hyb₂ ((h₂.hybrid hyb₂).quiet hquiet)
      have hhdl : s.clnt.tblHdl = (s₂.setNati (s₂.nati.setState .hybridDdr)).clnt.tblHdl :=
        (hclnt.trans hs.clnt).symm
      rw [hhdl] at hagain
      exact K.addRule h₃ hagain
  · exact hfail hret

/-- A delete drops the rule from the maps and from the table, and then switches or not. -/
theorem smDelRuleHybrid_cases {hdl orig : ℕ}
    (hcall : smDelRuleHybrid env sm hdl orig s = some (ret, s')) :
    (s.nati.mapPairs s.nati.chooseMemSub).orig2new orig = none ∧ s' = s ∨ ∃ new ret₁ s₁,
      (s.nati.mapPairs s.nati.chooseMemSub).orig2new orig = some new ∧
      smDelRuleFromTbl env (s.nati.hybridTblHdl hdl) new (s.setNati (s.nati.setMaps
        s.nati.chooseMemSub ((s.nati.mapPairs s.nati.chooseMemSub).unmap orig new))) =
          (ret₁, s₁) ∧
      (s' = s₁ ∨ s₁.nati.currState = .hybridDdr ∧
        s₁.nati.totRulesInTable s₁.nati.chooseMemSub ≤ s₁.nati.backToSramThresh ∧
        ! s₁.nati.holdState ∧ ∃ ret₂ s₂, sm .tblSwitch s₁ = some (ret₂, s₂) ∧
          (ret₂ ≠ 0 ∧ s' = s₂ ∨ s' = s₂.setNati (s₂.nati.setState .hybrid))) := by
  unfold smDelRuleHybrid at hcall
  cases ho : (s.nati.mapPairs s.nati.chooseMemSub).orig2new orig with
  | none =>
    simp only [ipaNatMapDel, ho] at hcall
    cases hcall
    exact Or.inl ⟨rfl, rfl⟩
  | some new =>
    rcases hdel : smDelRuleFromTbl env (s.nati.hybridTblHdl hdl) new
      (s.setNati (s.nati.setMaps s.nati.chooseMemSub
        ((s.nati.mapPairs s.nati.chooseMemSub).unmap orig new))) with ⟨ret₁, s₁⟩
    refine Or.inr ⟨new, ret₁, s₁, rfl, hdel, ?_⟩
    have hhdl : ∀ p, (s.setNati (s.nati.setMaps s.nati.chooseMemSub p)).nati.hybridTblHdl hdl =
        s.nati.hybridTblHdl hdl := fun _ => rfl
    have hbody : ∀ p, p = (s.nati.mapPairs s.nati.chooseMemSub).unmap orig new →
        smDelRuleFromTbl env (s.nati.hybridTblHdl hdl) new
          (s.setNati (s.nati.setMaps s.nati.chooseMemSub p)) = (ret₁, s₁) := fun p hp => hp ▸ hdel
    simp only [ipaNatMapDel, ho, hhdl] at hcall
    rw [hbody _ (by cases hn : (s.nati.mapPairs s.nati.chooseMemSub).new2orig new <;>
      simp only [NatiMapPair.unmap, ipaNatMapDel, hn])] at hcall
    split_ifs at hcall with h₁ h₂
    · simp only [Option.bind_eq_bind, Option.bind_eq_some_iff] at hcall
      obtain ⟨⟨ret₂, s₂⟩, hswitch, hcall⟩ := hcall
      refine Or.inr ⟨h₁.2, h₂.1, h₂.2, ret₂, s₂, hswitch, ?_⟩
      dsimp only at hcall
      split_ifs at hcall with hret
      · cases hcall
        exact Or.inr rfl
      · cases hcall
        exact Or.inl ⟨hret, rfl⟩
    · cases hcall
      exact Or.inl rfl
    · cases hcall
      exact Or.inl rfl

/-- **A delete**, with the switch back to SRAM that it may trigger. -/
theorem smDelRuleHybrid_keeps (K : SmKeeps env sm) (h : NatiInv env s)
    (hyb : s.nati.inHybridState = true) {orig : ℕ}
    (hcall : smDelRuleHybrid env sm s.clnt.tblHdl orig s = some (ret, s')) :
    NatiInv env s' ∧ s'.noSlots = s.noSlots := by
  rcases smDelRuleHybrid_cases hcall with ⟨-, rfl⟩ | ⟨new, ret₁, s₁, ho, hdel, hcases⟩
  · exact ⟨h, rfl⟩
  obtain ⟨-, hno, h₁⟩ := h.delRuleFromTbl ho rfl hdel
  rcases hcases with rfl | ⟨hstate, hle, -, ret₂, s₂, hswitch, hcases⟩
  · exact ⟨h₁, hno⟩
  have hyb₁ : s₁.nati.inHybridState = true := s₁.nati.inHybridState_iff.2 (Or.inr hstate)
  have hsub : s₁.nati.chooseMemSub = .ddr := by
    rw [NatiObj.chooseMemSub, hstate]
    rfl
  rw [hsub] at hle
  obtain ⟨h₂, hyb₂, -⟩ := K.tblSwitch h₁ hyb₁ hswitch
  have hno₂ := (K.back h₁ hstate hle hswitch).trans hno
  rcases hcases with ⟨-, rfl⟩ | rfl
  · exact ⟨h₂, hno₂⟩
  · have hquiet := s₂.quiet_setState .hybrid
    exact ⟨h₂.toNatiBase.hybrid hquiet.toSteady hyb₂ ((h₂.hybrid hyb₂).quiet hquiet), hno₂⟩

/-! ## Creating tables -/

/-- With cleared maps the tables and the client's handle are all there is to it. -/
theorem NatiTbls.cleared (h : NatiTbls env s) (hc : HdlFor s.clnt.tblHdl .sram)
    (hm : s.nati.mapPairs .ddr = .empty) (hn : s.nati.totRulesInTable .ddr = 0) : NatiInv env s :=
  ⟨⟨h, Or.inl hc⟩, fun _ => .of_clear hm hn⟩

/-- The one table is in DDR, under the client's handle. -/
theorem NatiTbls.ddrOnly (h : NatiTbls env s) (hc : s.clnt.tblHdl = makeTblHdl 1 .ddr)
    (hstate : s.nati.currState = .ddrOnly) : NatiInv env s := by
  refine ⟨⟨h, Or.inr ⟨hc, Or.inl hstate⟩⟩, fun hyb => ?_⟩
  rw [NatiObj.inHybridState_iff, hstate] at hyb
  rcases hyb with hyb | hyb <;> cases hyb

/-- The client's handle names SRAM or nothing, outside of the hybrid states. -/
theorem NatiTbls.apart (h : NatiTbls env s) (hc : HdlFor s.clnt.tblHdl .sram)
    (hyb : ¬ s.nati.inHybridState = true) : NatiInv env s :=
  ⟨⟨h, Or.inl hc⟩, fun hyb' => absurd hyb' hyb⟩

theorem smAddSramAndDdrTbl_keeps (K : SmKeeps env sm) (h : NatiTbls env s)
    (hc : s.clnt.tblHdl = 0) (hstate : s.nati.currState = .hybrid) {ip : UInt32} {n : ℕ}
    (hcall : smAddSramAndDdrTbl env sm ip n s = some (ret, s')) : NatiInv env s' := by
  have hclear : s.Steady (s.setNati ((s.nati.clearMem .sram).clearMem .ddr)) :=
    (s.within_clearMem .sram).toSteady.trans (NatiLib.within_clearMem _ .ddr).toSteady
  simp only [smAddSramAndDdrTbl, Option.bind_eq_bind, Option.bind_eq_some_iff] at hcall
  obtain ⟨⟨ret₁, s₁⟩, hsram, hcall⟩ := hcall
  obtain ⟨h₁, hsame₁, hclnt₁⟩ := smAddSramTbl_spec (h.steady hclear) hsram
  have hm₁ : s₁.nati.mapPairs .ddr = .empty := congrFun hsame₁.maps .ddr
  have hn₁ : s₁.nati.totRulesInTable .ddr = 0 := congrFun hsame₁.cntr .ddr
  dsimp only at hcall
  split_ifs at hcall with hret₁ hslots
  · cases hcall
    rw [if_pos hret₁] at hclnt₁
    have hs := s₁.quiet_setState .sramOnly
    exact (h₁.steady hs.toSteady).cleared (Or.inr hclnt₁) hm₁ hn₁
  · rw [if_pos hret₁] at hclnt₁
    rcases hddr : smAddDdrTbl env ip n false s₁ with ⟨ret₂, s₂⟩
    obtain ⟨h₂, hsame₂, hclnt₂⟩ := smAddDdrTbl_spec h₁ hddr
    rw [if_neg (fun hand => Bool.false_ne_true hand.2), hclnt₁] at hclnt₂
    have hinv₂ := h₂.cleared (Or.inr hclnt₂) ((congrFun hsame₂.maps .ddr).trans hm₁)
      ((congrFun hsame₂.cntr .ddr).trans hn₁)
    have hyb₂ : s₂.nati.inHybridState = true :=
      s₂.nati.inHybridState_iff.2 (Or.inl ((hsame₂.currState.trans hsame₁.currState).trans hstate))
    rw [hddr] at hcall
    split at hcall
    · next heq =>
      cases heq
      obtain ⟨hquiet, -⟩ := K.goto .sram hyb₂ hcall
      exact hinv₂.toNatiBase.hybrid hquiet.toSteady hyb₂ ((hinv₂.hybrid hyb₂).quiet hquiet)
    · next heq =>
      cases heq
      cases hcall
      exact hinv₂
  · rw [if_neg hret₁] at hclnt₁
    rcases hddr : smAddDdrTbl env ip n true s₁ with ⟨ret₂, s₂⟩
    obtain ⟨h₂, hsame₂, hclnt₂⟩ := smAddDdrTbl_spec h₁ hddr
    rw [hddr] at hcall
    split at hcall
    · next heq =>
      cases heq
      cases hcall
      have hs := s₂.quiet_setState .ddrOnly
      exact (h₂.steady hs.toSteady).ddrOnly (hclnt₂.trans (if_pos ⟨rfl, rfl⟩)) rfl
    · next hne heq =>
      cases heq
      cases hcall
      rw [if_neg (fun hand => hne hand.1), hclnt₁] at hclnt₂
      exact h₂.cleared (Or.inl (hclnt₂.trans hc)) ((congrFun hsame₂.maps .ddr).trans hm₁)
        ((congrFun hsame₂.cntr .ddr).trans hn₁)

theorem memTypeStrToIpaNatiState_ne (mem : String) :
    memTypeStrToIpaNatiState mem ≠ .hybridDdr := by
  unfold memTypeStrToIpaNatiState
  split_ifs <;> decide

theorem addTable_keeps (K : SmKeeps env sm) (h : NatiTbls env s) (hc : s.clnt.tblHdl = 0)
    (ht : s.nati.currState = .hybridDdr → s.TrackedDdr) {ip : UInt32} {n : ℕ} {mem : String}
    (hcall : stateMachTbl env sm s.nati.currState (.addTable ip n mem) s = some (ret, s')) :
    NatiInv env s' := by
  cases hstate : s.nati.currState with
  | null =>
    rw [hstate] at hcall
    have hs := fun st => s.quiet_setState st
    refine K.addTable (h.steady (hs _).toSteady) hc ?_ hcall
    show (if s.nati.holdState ∧ s.nati.stateToHold ≠ .null then s.nati.stateToHold
      else memTypeStrToIpaNatiState mem) ≠ .hybridDdr
    split_ifs
    · exact h.hold
    · exact memTypeStrToIpaNatiState_ne mem
  | ddrOnly =>
    rw [hstate] at hcall
    obtain ⟨h', hsame, hclnt⟩ := smAddDdrTbl_spec h (Option.some.inj hcall)
    by_cases hret : ret = 0
    · rw [if_pos ⟨hret, rfl⟩] at hclnt
      exact h'.ddrOnly hclnt (hsame.currState.trans hstate)
    · rw [if_neg fun hand => hret hand.1] at hclnt
      refine h'.apart (Or.inl (hclnt.trans hc)) ?_
      rw [NatiObj.inHybridState_iff, hsame.currState, hstate]
      rintro (hyb | hyb) <;> cases hyb
  | sramOnly =>
    rw [hstate] at hcall
    obtain ⟨h', hsame, hclnt⟩ := smAddSramTbl_spec h hcall
    have hyb : ¬ s'.nati.inHybridState = true := by
      rw [NatiObj.inHybridState_iff, hsame.currState, hstate]
      rintro (hyb | hyb) <;> cases hyb
    by_cases hret : ret = 0
    · rw [if_pos hret] at hclnt
      exact h'.apart (Or.inr hclnt) hyb
    · rw [if_neg hret] at hclnt
      exact h'.apart (Or.inl (hclnt.trans hc)) hyb
  | hybrid =>
    rw [hstate] at hcall
    exact smAddSramAndDdrTbl_keeps K h hc hstate hcall
  | hybridDdr =>
    rw [hstate] at hcall
    cases hcall
    exact ⟨⟨h, Or.inl (Or.inl hc)⟩, fun _ => ht hstate⟩

/-! ## The machine -/

/-- A trigger about the client's table; one that creates it finds no handle stored. -/
def NatiTrigger.On (hdl : ℕ) : NatiTrigger → Prop
  | .addTable .. => hdl = 0
  | .delTable h | .clrTable h | .wlkTable h _ | .tblStats h | .addRule h _ | .delRule h _
  | .getTstamp h _ => h = hdl
  | .tblSwitch | .gotoDdr | .gotoSram => True

theorem smGetTmStmpHybrid_keeps (h : NatiInv env s) (hdl orig : ℕ) :
    NatiInv env (smGetTmStmpHybrid hdl orig s).2 := by
  unfold smGetTmStmpHybrid
  split
  · exact h
  · exact h.setClnt rfl

/-- The callbacks with one table. -/
theorem oneTbl_keeps (h : NatiInv env s)
    (hstate : s.nati.currState = .ddrOnly ∨ s.nati.currState = .sramOnly) {t : NatiTrigger}
    (ht : t.On s.clnt.tblHdl) (hadd : ∀ ip n mem, t ≠ .addTable ip n mem)
    (hcall : stateMachTbl env sm s.nati.currState t s = some (ret, s')) : NatiInv env s' := by
  have hyb : ¬ s.nati.inHybridState = true := by
    rw [NatiObj.inHybridState_iff]
    rcases hstate with hst | hst <;> rw [hst] <;> rintro (hyb | hyb) <;> cases hyb
  have hcall' : stateMachTbl env sm .ddrOnly t s = some (ret, s') := by
    rcases hstate with hst | hst <;> rw [hst] at hcall
    · exact hcall
    · cases t with
      | addTable ip n mem => exact absurd rfl (hadd ip n mem)
      | _ => exact hcall
  cases t with
  | addTable ip n mem => exact absurd rfl (hadd ip n mem)
  | delTable hdl =>
    obtain rfl : hdl = s.clnt.tblHdl := ht
    obtain rfl := congrArg Prod.snd (Option.some.inj hcall')
    exact h.delTbl hyb
  | clrTable hdl =>
    obtain rfl : hdl = s.clnt.tblHdl := ht
    obtain rfl := congrArg Prod.snd (Option.some.inj hcall')
    exact h.clrTbl h.clnt_hdlAt
  | wlkTable hdl which =>
    obtain rfl := congrArg Prod.snd (Option.some.inj hcall')
    rw [smWalkTbl_state]
    exact h
  | tblStats hdl =>
    obtain rfl := congrArg Prod.snd (Option.some.inj hcall')
    exact h.setClnt rfl
  | addRule hdl r =>
    obtain rfl : hdl = s.clnt.tblHdl := ht
    obtain rfl := congrArg Prod.snd (Option.some.inj hcall')
    obtain ⟨hs, hcurr⟩ := smAddRuleToTbl_steady h.toNatiBase r
    exact h.apart hs hcurr hyb
  | delRule hdl r =>
    obtain rfl : hdl = s.clnt.tblHdl := ht
    obtain rfl := congrArg Prod.snd (Option.some.inj hcall')
    obtain ⟨hs, hcurr⟩ := smDelRuleFromTbl_steady h.toNatiBase r
    exact h.apart hs hcurr hyb
  | getTstamp hdl r =>
    obtain rfl := congrArg Prod.snd (Option.some.inj hcall')
    exact h.setClnt rfl
  | _ =>
    obtain rfl := congrArg Prod.snd (Option.some.inj hcall')
    exact h

/-- The callbacks that focus the hardware and switch. -/
theorem hybrid_goto (dst : MemIn) (hyb : s.nati.inHybridState = true)
    (hcall : stateMachTbl env sm s.nati.currState (gotoTrigger dst) s = some (ret, s')) :
    s.Quiet s' ∧ s'.nati.inHybridState = true := by
  have hgoto := smGoTo_quiet env dst hyb
  have hcall' : some (smGoTo env dst s) = some (ret, s') := by
    rcases s.nati.inHybridState_iff.1 hyb with hst | hst <;> rw [hst] at hcall <;> cases dst <;>
      exact hcall
  rw [Option.some.inj hcall'] at hgoto
  exact hgoto

theorem hybrid_switch (K : SmKeeps env sm) (h : NatiInv env s)
    (hyb : s.nati.inHybridState = true)
    (hcall : stateMachTbl env sm s.nati.currState .tblSwitch s = some (ret, s')) :
    NatiInv env s' ∧ s'.nati.inHybridState = true ∧ s'.clnt.tblHdl = s.clnt.tblHdl := by
  rcases s.nati.inHybridState_iff.1 hyb with hst | hst <;> rw [hst] at hcall
  · exact smSwitch_keeps K h hyb (by decide : MemIn.ddr ≠ .sram) hcall
  · exact smSwitch_keeps K h hyb (by decide : MemIn.sram ≠ .ddr) hcall

/-- The callbacks with two tables. -/
theorem hybrid_keeps (K : SmKeeps env sm) (h : NatiInv env s)
    (hyb : s.nati.inHybridState = true) {t : NatiTrigger} (ht : t.On s.clnt.tblHdl)
    (hadd : ∀ ip n mem, t ≠ .addTable ip n mem)
    (hcall : stateMachTbl env sm s.nati.currState t s = some (ret, s')) : NatiInv env s' := by
  have hquiet : s.Quiet s' ∧ s'.nati.inHybridState = true → NatiInv env s' := fun hq =>
    h.toNatiBase.hybrid hq.1.toSteady hyb ((h.hybrid hyb).quiet hq.1)
  have hboth : ∀ {f : NatiLib → Option (ℤ × NatiLib)},
      (∀ st, st = .hybrid ∨ st = .hybridDdr → stateMachTbl env sm st t s = f s) →
      f s = some (ret, s') := fun hf => by
    rw [← hf _ (s.nati.inHybridState_iff.1 hyb)]
    exact hcall
  cases t with
  | addTable ip n mem => exact absurd rfl (hadd ip n mem)
  | delTable hdl =>
    obtain rfl : hdl = s.clnt.tblHdl := ht
    have hcall' := hboth (f := fun s => some (smDelSramAndDdrTbl env s.clnt.tblHdl s)) (by
      rintro st (rfl | rfl) <;> rfl)
    obtain rfl := congrArg Prod.snd (Option.some.inj hcall')
    exact h.delSramAndDdrTbl hyb
  | clrTable hdl =>
    obtain rfl : hdl = s.clnt.tblHdl := ht
    have hcall' := hboth (f := fun s => some (smClrTblHybrid s.clnt.tblHdl s)) (by
      rintro st (rfl | rfl) <;> rfl)
    obtain rfl := congrArg Prod.snd (Option.some.inj hcall')
    exact h.clrTbl ⟨_, h.hybrid_hdlAt⟩
  | wlkTable hdl which =>
    have hcall' := hboth (f := fun s => some (smWalkTblHybrid hdl which s)) (by
      rintro st (rfl | rfl) <;> rfl)
    obtain rfl := congrArg Prod.snd (Option.some.inj hcall')
    rw [smWalkTblHybrid, smWalkTbl_state]
    exact h
  | tblStats hdl =>
    have hcall' := hboth (f := fun s => some (smStatTblHybrid hdl s)) (by
      rintro st (rfl | rfl) <;> rfl)
    obtain rfl := congrArg Prod.snd (Option.some.inj hcall')
    exact h.setClnt rfl
  | addRule hdl r =>
    obtain rfl : hdl = s.clnt.tblHdl := ht
    exact smAddRuleHybrid_keeps K h hyb (hboth (f := smAddRuleHybrid env sm s.clnt.tblHdl r) (by
      rintro st (rfl | rfl) <;> rfl))
  | delRule hdl r =>
    obtain rfl : hdl = s.clnt.tblHdl := ht
    exact (smDelRuleHybrid_keeps K h hyb (hboth (f := smDelRuleHybrid env sm s.clnt.tblHdl r) (by
      rintro st (rfl | rfl) <;> rfl))).1
  | getTstamp hdl r =>
    have hcall' := hboth (f := fun s => some (smGetTmStmpHybrid hdl r s)) (by
      rintro st (rfl | rfl) <;> rfl)
    obtain rfl := congrArg Prod.snd (Option.some.inj hcall')
    exact smGetTmStmpHybrid_keeps h hdl r
  | tblSwitch => exact (hybrid_switch K h hyb hcall).1
  | gotoDdr => exact hquiet (hybrid_goto .ddr hyb hcall)
  | gotoSram => exact hquiet (hybrid_goto .sram hyb hcall)

/-- **Every callback keeps the invariant.** -/
theorem stateMachTbl_keeps (K : SmKeeps env sm) (h : NatiInv env s) {t : NatiTrigger}
    (ht : t.On s.clnt.tblHdl)
    (hcall : stateMachTbl env sm s.nati.currState t s = some (ret, s')) : NatiInv env s' := by
  by_cases hadd : ∃ ip n mem, t = .addTable ip n mem
  · obtain ⟨ip, n, mem, rfl⟩ := hadd
    exact addTable_keeps K h.toNatiTbls ht
      (fun hst => h.hybrid (s.nati.inHybridState_iff.2 (Or.inr hst))) hcall
  · have hadd' : ∀ ip n mem, t ≠ .addTable ip n mem := fun ip n mem he => hadd ⟨ip, n, mem, he⟩
    cases hst : s.nati.currState with
    | null =>
      rw [hst] at hcall
      have hcall' : some (smUndef s) = some (ret, s') := by
        cases t with
        | addTable ip n mem => exact absurd rfl (hadd' ip n mem)
        | _ => exact hcall
      cases hcall'
      exact h
    | ddrOnly => exact oneTbl_keeps h (Or.inl hst) ht hadd' hcall
    | sramOnly => exact oneTbl_keeps h (Or.inr hst) ht hadd' hcall
    | hybrid =>
      exact hybrid_keeps K h (s.nati.inHybridState_iff.2 (Or.inl hst)) ht hadd' hcall
    | hybridDdr =>
      exact hybrid_keeps K h (s.nati.inHybridState_iff.2 (Or.inr hst)) ht hadd' hcall

/-- The machine runs the callback, or fails to get the vote that it needs for that. -/
theorem ipaNatiStatemach_cases {depth : ℕ} {t : NatiTrigger}
    (h : ipaNatiStatemach env (depth + 1) t s = some (ret, s')) :
    ∃ w, s.drv.SameTbls w ∧ (voteRequired s.nati t = true ∧ s' = s.setDrv w ∨
      ∃ ret₁ s₁ w', s₁.drv.SameTbls w' ∧
      stateMachTbl env (ipaNatiStatemach env depth) s.nati.currState t (s.setDrv w) =
        some (ret₁, s₁) ∧ s' = s₁.setDrv w') := by
  unfold ipaNatiStatemach at h
  have hsame := voteClock_sameTbls env s.drv
  split_ifs at h with hreq
  · rcases hvote : ipaNatiVoteClock env s.drv with ⟨ret₀, w⟩
    rw [hvote] at h hsame
    refine ⟨w, hsame, ?_⟩
    split at h
    · next heq =>
      cases heq
      simp only [Option.bind_eq_bind, Option.bind_eq_some_iff] at h
      obtain ⟨⟨ret₁, s₁⟩, hcb, h⟩ := h
      cases h
      exact Or.inr ⟨ret₁, s₁, _, voteClock_sameTbls env s₁.drv, hcb, rfl⟩
    · next heq =>
      cases heq
      cases h
      exact Or.inl ⟨hreq, rfl⟩
  · simp only [Option.bind_eq_bind, Option.bind_eq_some_iff] at h
    obtain ⟨⟨ret₁, s₁⟩, hcb, h⟩ := h
    cases h
    exact ⟨s.drv, fun _ => rfl, Or.inr ⟨ret₁, s₁, s₁.drv, fun _ => rfl, hcb, rfl⟩⟩

theorem NatiInv.setDrv (h : NatiInv env s) {w : Drv} (hw : s.drv.SameTbls w) :
    NatiInv env (s.setDrv w) :=
  h.quiet (s.quiet_setDrv hw) rfl

/-- **The machine at every depth**: by induction, its callbacks find the machine they run
    as good as itself. -/
theorem smKeeps (env : Env) (depth : ℕ) : SmKeeps env (ipaNatiStatemach env depth) := by
  induction depth with
  | zero => constructor <;> intros <;> contradiction
  | succ depth K =>
    constructor
    · intro dst s ret s' hyb h
      obtain ⟨w, hw, ⟨-, rfl⟩ | ⟨ret₁, s₁, w', hw', hcall, rfl⟩⟩ := ipaNatiStatemach_cases h
      · exact ⟨s.quiet_setDrv hw, hyb⟩
      · obtain ⟨hq, hyb₁⟩ := hybrid_goto (s := s.setDrv w) dst hyb hcall
        exact ⟨((s.quiet_setDrv hw).trans hq).trans (s₁.quiet_setDrv hw'), hyb₁⟩
    · intro s ret s' hinv hyb h
      obtain ⟨w, hw, ⟨-, rfl⟩ | ⟨ret₁, s₁, w', hw', hcall, rfl⟩⟩ := ipaNatiStatemach_cases h
      · exact ⟨hinv.setDrv hw, hyb, rfl⟩
      · obtain ⟨h₁, hyb₁, hclnt⟩ := hybrid_switch K (hinv.setDrv hw) hyb hcall
        exact ⟨h₁.setDrv hw', hyb₁, hclnt⟩
    · intro s ret s' hinv hstate hle h
      obtain ⟨w, hw, ⟨-, rfl⟩ | ⟨ret₁, s₁, w', hw', hcall, rfl⟩⟩ := ipaNatiStatemach_cases h
      · rfl
      · rw [hstate] at hcall
        have hswitch : smSwitch env (ipaNatiStatemach env depth) .ddr .sram (s.setDrv w) =
            some (ret₁, s₁) := hcall
        have hno := smSwitch_noSlots K (hinv.setDrv hw) hstate hle hswitch
        exact hno
    · intro s clntRule ret s' hinv h
      obtain ⟨w, hw, ⟨-, rfl⟩ | ⟨ret₁, s₁, w', hw', hcall, rfl⟩⟩ := ipaNatiStatemach_cases h
      · exact hinv.setDrv hw
      · exact (stateMachTbl_keeps (t := .addRule s.clnt.tblHdl clntRule) K (hinv.setDrv hw) rfl
          hcall).setDrv hw'
    · intro s ip n mem ret s' htbls hc hne h
      obtain ⟨w, hw, ⟨hreq, -⟩ | ⟨ret₁, s₁, w', hw', hcall, rfl⟩⟩ := ipaNatiStatemach_cases h
      · cases hreq
      · exact (addTable_keeps K (htbls.steady (s.quiet_setDrv hw).toSteady) hc
          (fun he => absurd he hne) hcall).setDrv hw'

/-- **What a trigger about the client's table leaves.** -/
theorem statemach_keeps (h : NatiInv env s) {t : NatiTrigger} (ht : t.On s.clnt.tblHdl)
    {depth : ℕ} (hrun : ipaNatiStatemach env depth t s = some (ret, s')) : NatiInv env s' := by
  cases depth with
  | zero => cases hrun
  | succ depth =>
    obtain ⟨w, hw, ⟨-, rfl⟩ | ⟨ret₁, s₁, w', hw', hcall, rfl⟩⟩ := ipaNatiStatemach_cases hrun
    · exact h.setDrv hw
    · exact (stateMachTbl_keeps (smKeeps env depth) (h.setDrv hw) ht hcall).setDrv hw'

end Sm8850.Ipanat
