/-
  Additions, deletions and switches of the machine in the hybrid states.

  * `VoteGranted`, `NatiLib.voted`: the machine gets the vote it needs, and the state that
    its callback then finds.
  * `SwitchMoves`, `SwitchSettles`: a switch that moves every rule, and one that may stay.
  * `AddMeets`, `DelMeets`: what a callback has to meet.
  * `HandleInv.addRule`, `HandleInv.delRule`, `HandleInv.switchTo`: the handles match after
    each of them, and an add hands out one that was not held.
-/
import Sm8850.Ipanat.Handles

namespace Sm8850.Ipanat

variable {env : Env} {s s' : NatiLib} {held : Set ℕ} {depth : ℕ} {ret : ℤ}

/-! ## The machine and its vote -/

/-- The machine gets the vote that it needs for a trigger. -/
def VoteGranted (env : Env) (t : NatiTrigger) (s : NatiLib) : Prop :=
  voteRequired s.nati t = true → (ipaNatiVoteClock env s.drv).1 = 0

/-- The state that the callback of a trigger finds. -/
def NatiLib.voted (env : Env) (t : NatiTrigger) (s : NatiLib) : NatiLib :=
  if voteRequired s.nati t then s.setDrv (ipaNatiVoteClock env s.drv).2 else s

section Voted
variable (env) (t : NatiTrigger) (s)

@[simp] theorem NatiLib.voted_nati : (s.voted env t).nati = s.nati := by
  unfold voted
  split_ifs <;> rfl

@[simp] theorem NatiLib.voted_clnt : (s.voted env t).clnt = s.clnt := by
  unfold voted
  split_ifs <;> rfl

end Voted

theorem HandleInv.voted (h : HandleInv env s held) (t : NatiTrigger) :
    HandleInv env (s.voted env t) held := by
  unfold NatiLib.voted
  split_ifs
  · exact h.setDrv (voteClock_sameTbls env s.drv)
  · exact h

/-- The machine is refused its vote, or runs the callback. -/
theorem ipaNatiStatemach_voted {t : NatiTrigger}
    (h : ipaNatiStatemach env depth t s = some (ret, s')) :
    ¬ VoteGranted env t s ∧ s' = s.voted env t ∨ VoteGranted env t s ∧ ∃ ret₁ s₁ w',
      stateMachTbl env (ipaNatiStatemach env (depth - 1)) s.nati.currState t (s.voted env t) =
        some (ret₁, s₁) ∧ s₁.drv.SameTbls w' ∧ s' = s₁.setDrv w' := by
  cases depth with
  | zero => cases h
  | succ depth =>
    unfold ipaNatiStatemach at h
    unfold VoteGranted NatiLib.voted
    split_ifs at h ⊢ with hreq
    · rcases hvote : ipaNatiVoteClock env s.drv with ⟨ret₀, w⟩
      rw [hvote] at h
      split at h
      · next heq =>
        cases heq
        simp only [Option.bind_eq_bind, Option.bind_eq_some_iff] at h
        obtain ⟨⟨ret₁, s₁⟩, hcb, h⟩ := h
        cases h
        exact Or.inr ⟨fun _ => rfl, ret₁, s₁, _, hcb, voteClock_sameTbls env s₁.drv, rfl⟩
      · next hne heq =>
        cases heq
        cases h
        exact Or.inl ⟨fun hv => hne (hv hreq), rfl⟩
    · simp only [Option.bind_eq_bind, Option.bind_eq_some_iff] at h
      obtain ⟨⟨ret₁, s₁⟩, hcb, h⟩ := h
      cases h
      exact Or.inr ⟨fun hr => absurd hr hreq, ret₁, s₁, s₁.drv, hcb, fun _ => rfl, rfl⟩

/-! ## Switches of the machine -/

/-- What the switch that the machine makes from `s` answers. -/
def switchFrom (env : Env) (depth : ℕ) (s : NatiLib) : Option (ℤ × NatiLib) :=
  smSwitch env (ipaNatiStatemach env (depth - 1)) s.nati.chooseMemSub s.nati.chooseMemSub.other
    (s.voted env .tblSwitch)

/-- The switch gets its vote and copies every rule. -/
def SwitchMoves (env : Env) (depth : ℕ) (s : NatiLib) : Prop :=
  VoteGranted env .tblSwitch s ∧ ∀ ret s', switchFrom env depth s = some (ret, s') → ret = 0

/-- The switch copies every rule, or stays in the memory in use. -/
def SwitchSettles (env : Env) (depth : ℕ) (s : NatiLib) : Prop :=
  VoteGranted env .tblSwitch s → ∀ ret s', switchFrom env depth s = some (ret, s') →
    ret = 0 ∨ s'.nati.currState = s.nati.currState

/-- The handles match as soon as the state says which memory is in use. -/
theorem HandleInv.of_matched (h : NatiInv env s) (hyb : s.nati.inHybridState = true) {m : MemIn}
    (hm : Matched (s.drv.natCache m).ip4Tbl (s.nati.mapPairs m) held)
    (hsub : s.nati.chooseMemSub = m) : HandleInv env s held := by
  refine ⟨h, hyb, ?_⟩
  unfold HandlesMatch
  rw [hsub]
  exact hm

/-- **A switch of the machine that moves every rule.** -/
theorem HandleInv.machineSwitch (h : HandleInv env s held) (hmoves : SwitchMoves env depth s)
    (hcall : ipaNatiStatemach env depth .tblSwitch s = some (ret, s')) :
    NatiInv env s' ∧ s'.nati.inHybridState = true ∧ s'.clnt = s.clnt ∧
      Matched (s'.drv.natCache s.nati.chooseMemSub.other).ip4Tbl
        (s'.nati.mapPairs s.nati.chooseMemSub.other) held := by
  rcases ipaNatiStatemach_voted hcall with ⟨hno, -⟩ | ⟨-, ret₁, s₁, w', hcb, hw', rfl⟩
  · exact absurd hmoves.1 hno
  have hv := h.voted .tblSwitch
  have hnati := s.voted_nati env .tblSwitch
  rw [stateMachTbl_switch h.inHybrid] at hcb
  obtain rfl := hmoves.2 _ _ hcb
  rw [← hnati] at hcb ⊢
  obtain ⟨hinv, hyb, -⟩ := smSwitch_keeps (smKeeps env _) hv.toNatiInv hv.inHybrid
    (MemIn.other_ne _) hcb
  refine ⟨hinv.setDrv hw', hyb, ?_, ?_⟩
  · exact (smSwitch_clnt hcb).trans (s.voted_clnt env .tblSwitch)
  · show Matched (w'.natCache _).ip4Tbl _ held
    rw [hw']
    exact hv.switched hcb

/-! ## The calls on rules -/

/-- The add finds no room in SRAM, so that the machine moves on to DDR. -/
def AddMovesOn (env : Env) (clntRule : Ipv4Rule) (s : NatiLib) : Prop :=
  s.nati.currState = .hybrid ∧ s.nati.holdState = false ∧
    (smAddRuleToTbl env (s.nati.hybridTblHdl s.clnt.tblHdl) clntRule s).1 ≠ 0

/-- The rule takes no slot that gave a held handle, neither in the memory in use nor, when
    the add moves on, in DDR; and then every rule is moved there. -/
def AddMeets (env : Env) (depth : ℕ) (clntRule : Ipv4Rule) (s : NatiLib) (held : Set ℕ) : Prop :=
  SlotHandleFree env s clntRule held ∧
    (AddMovesOn env clntRule s →
      let s₁ := (smAddRuleToTbl env (s.nati.hybridTblHdl s.clnt.tblHdl) clntRule s).2
      SwitchMoves env depth s₁ ∧
        ∀ ret s₂, ipaNatiStatemach env depth .tblSwitch s₁ = some (ret, s₂) →
          SlotHandleFree env (s₂.setNati (s₂.nati.setState .hybridDdr)) clntRule held)

/-- The delete leaves few enough rules in DDR for the switch back to SRAM. -/
def DelMovesBack (s : NatiLib) : Prop :=
  s.nati.currState = .hybridDdr ∧
    s.nati.totRulesInTable s.nati.chooseMemSub ≤ s.nati.backToSramThresh ∧
    s.nati.holdState = false

/-- The delete of the rule `new` that was `orig` is posted, and a switch back moves every
    other rule. -/
def DelMeets (env : Env) (depth orig new : ℕ) (s : NatiLib) : Prop :=
  let r := smDelRuleFromTbl env (s.nati.hybridTblHdl s.clnt.tblHdl) new
    (s.setNati (s.nati.setMaps s.nati.chooseMemSub
      ((s.nati.mapPairs s.nati.chooseMemSub).unmap orig new)))
  r.1 = 0 ∧ (DelMovesBack r.2 → SwitchMoves env depth r.2)

/-- What a call hands out: nothing, or a handle that was not held. -/
def HandedOut (env : Env) (held : Set ℕ) (s' : NatiLib) : Prop :=
  s'.clnt.ruleHdl = 0 ∧ HandleInv env s' held ∨
    s'.clnt.ruleHdl ≠ 0 ∧ s'.clnt.ruleHdl ∉ held ∧
      HandleInv env s' (insert s'.clnt.ruleHdl held)

section Rules
variable {sm : NatiTrigger → NatiLib → Option (ℤ × NatiLib)} {clntRule : Ipv4Rule}

/-- An add enters its rule, fails, or moves on. -/
theorem HandleInv.addRuleCb (h : HandleInv env s held) (hz : s.clnt.ruleHdl = 0)
    (hfree : SlotHandleFree env s clntRule held)
    (hcall : smAddRuleHybrid env sm s.clnt.tblHdl clntRule s = some (ret, s')) :
    HandedOut env held s' ∨ AddMovesOn env clntRule s ∧ ∃ s₁ ret₂ s₂,
      s₁ = (smAddRuleToTbl env (s.nati.hybridTblHdl s.clnt.tblHdl) clntRule s).2 ∧
      HandleInv env s₁ held ∧ s₁.clnt.ruleHdl = 0 ∧ s₁.clnt.tblHdl = s.clnt.tblHdl ∧
      s₁.nati.currState = .hybrid ∧ sm .tblSwitch s₁ = some (ret₂, s₂) ∧ (ret₂ ≠ 0 ∧ s' = s₂ ∨
        sm (.addRule s.clnt.tblHdl clntRule) (s₂.setNati (s₂.nati.setState .hybridDdr)) =
          some (ret, s')) := by
  obtain ⟨ret₁, s₁, hadd, hcases⟩ := smAddRuleHybrid_cases hcall
  obtain ⟨c, hc⟩ := smAddRuleToTbl_nati env (s.nati.hybridTblHdl s.clnt.tblHdl) clntRule s
  rw [hadd] at hc
  obtain ⟨hs, -⟩ := h.toNatiInv.addRuleToTbl hadd
  rcases h.addRuleToTbl hfree hz hadd with ⟨hret, hhdl, h₁⟩ | ⟨rfl, hne, hnew, h₁⟩
  · rcases hcases with ⟨h0, -⟩ | ⟨-, hst, hhold, ret₂, s₂, hswitch, hrest⟩ | ⟨-, -, rfl⟩
    · exact absurd h0 hret
    · refine Or.inr ⟨⟨hs.currState ▸ hst, ?_, by rwa [hadd]⟩, s₁, ret₂, s₂, by rw [hadd], h₁,
        hhdl, hs.clnt, hst, hswitch, hrest⟩
      rw [show s₁.nati = _ from hc, Bool.not_eq_true'] at hhold
      exact hhold
    · exact Or.inl (Or.inl ⟨hhdl, h₁⟩)
  · rcases hcases with ⟨-, -, rfl⟩ | ⟨h0, -⟩ | ⟨h0, -⟩
    · exact Or.inl (Or.inr ⟨hne, hnew, h₁⟩)
    · exact absurd rfl h0
    · exact absurd rfl h0

/-- The hybrid states have one callback for an add and one for a delete. -/
theorem stateMachTbl_rule (hyb : s.nati.inHybridState = true) (hdl : ℕ) (x : NatiLib) :
    (∀ r, stateMachTbl env sm s.nati.currState (.addRule hdl r) x =
      smAddRuleHybrid env sm hdl r x) ∧
    ∀ orig, stateMachTbl env sm s.nati.currState (.delRule hdl orig) x =
      smDelRuleHybrid env sm hdl orig x := by
  rcases s.nati.inHybridState_iff.1 hyb with hst | hst <;> rw [hst] <;>
    exact ⟨fun _ => rfl, fun _ => rfl⟩

theorem HandedOut.setDrv (h : HandedOut env held s) {w : Drv} (hw : s.drv.SameTbls w) :
    HandedOut env held (s.setDrv w) :=
  h.imp (And.imp_right fun h => h.setDrv hw) (And.imp_right (And.imp_right fun h => h.setDrv hw))

/-- An add in DDR needs no vote and no switch. -/
theorem HandleInv.addRule_ddr (h : HandleInv env s held) (hst : s.nati.currState = .hybridDdr)
    (hz : s.clnt.ruleHdl = 0) (hfree : SlotHandleFree env s clntRule held)
    (hcall : ipaNatiStatemach env depth (.addRule s.clnt.tblHdl clntRule) s = some (ret, s')) :
    HandedOut env held s' := by
  have hreq : ¬ voteRequired s.nati (.addRule s.clnt.tblHdl clntRule) = true := by
    simp only [voteRequired, NatiObj.sramCurrentlyActive, hst]
    decide
  rcases ipaNatiStatemach_voted hcall with ⟨hno, -⟩ | ⟨-, ret₁, s₁, w', hcb, hw', rfl⟩
  · exact absurd (fun hr => absurd hr hreq) hno
  rw [show s.voted env _ = s from if_neg hreq, (stateMachTbl_rule h.inHybrid _ _).1] at hcb
  rcases h.addRuleCb hz hfree hcb with hout | ⟨hon, -⟩
  · exact hout.setDrv hw'
  · exact absurd (hst.symm.trans hon.1) (by decide)

/-- **An add of the machine**, with the switch to DDR that it may need. -/
theorem HandleInv.addRule (h : HandleInv env s held) (hz : s.clnt.ruleHdl = 0)
    (hmeets : VoteGranted env (.addRule s.clnt.tblHdl clntRule) s →
      AddMeets env (depth - 1) clntRule (s.voted env (.addRule s.clnt.tblHdl clntRule)) held)
    (hcall : ipaNatiStatemach env depth (.addRule s.clnt.tblHdl clntRule) s = some (ret, s')) :
    HandedOut env held s' := by
  generalize ht : NatiTrigger.addRule s.clnt.tblHdl clntRule = t at hmeets hcall
  have hv := h.voted t
  have hclnt := s.voted_clnt env t
  rcases ipaNatiStatemach_voted hcall with ⟨-, rfl⟩ | ⟨hgrant, ret₁, s₁, w', hcb, hw', rfl⟩
  · exact Or.inl ⟨by rw [hclnt, hz], hv⟩
  obtain ⟨hfree, hon⟩ := hmeets hgrant
  subst ht
  rw [(stateMachTbl_rule h.inHybrid _ _).1] at hcb
  generalize s.voted env _ = v at hv hclnt hfree hon hcb
  rw [← hclnt] at hz hcb
  rcases hv.addRuleCb hz hfree hcb with
    hout | ⟨hmovesOn, s₂, ret₂, s₃, rfl, h₂, hz₂, hhdl₂, hst₂, hswitch, hrest⟩
  · exact hout.setDrv hw'
  obtain ⟨hmoves, hfree₃⟩ := hon hmovesOn
  rcases hrest with ⟨hret, -⟩ | hagain
  · exact absurd (ipaNatiStatemach_status hswitch) hret
  -- every rule is in DDR now, and the add is made there
  obtain ⟨h₃, hyb₃, hclnt₃, hm₃⟩ := h₂.machineSwitch hmoves hswitch
  have hquiet := s₃.quiet_setState .hybridDdr
  have hother : (smAddRuleToTbl env (v.nati.hybridTblHdl v.clnt.tblHdl) clntRule
      v).2.nati.chooseMemSub.other = .ddr := by
    rw [NatiObj.chooseMemSub, hst₂]
    rfl
  rw [hother] at hm₃
  have h₄ : HandleInv env (s₃.setNati (s₃.nati.setState .hybridDdr)) held :=
    .of_matched (m := .ddr) (h₃.toNatiBase.hybrid hquiet.toSteady hyb₃
      ((h₃.hybrid hyb₃).quiet hquiet)) rfl hm₃ rfl
  have hhdl : v.clnt.tblHdl = (s₃.setNati (s₃.nati.setState .hybridDdr)).clnt.tblHdl := by
    rw [← hhdl₂, ← hclnt₃]
    rfl
  rw [hhdl] at hagain
  exact (h₄.addRule_ddr rfl (by rw [← hz₂, ← hclnt₃]; rfl) (hfree₃ _ _ hswitch)
    hagain).setDrv hw'

/-- A handle that is not held is not in the maps. -/
theorem HandleInv.notHeld (h : HandleInv env s held) {orig : ℕ}
    (hn : (s.nati.mapPairs s.nati.chooseMemSub).orig2new orig = none) :
    HandleInv env s (held \ {orig}) := by
  have hnot : orig ∉ held := fun hmem => by
    have hsome := (h.handles.held orig).2 hmem
    rw [hn] at hsome
    cases hsome
  rwa [Set.sdiff_singleton_eq_self hnot]

/-- A delete of a held rule that is posted, with the switch back to SRAM that it may
    trigger. -/
theorem HandleInv.delRuleCb (h : HandleInv env s held) {orig new : ℕ}
    (ho : (s.nati.mapPairs s.nati.chooseMemSub).orig2new orig = some new)
    (hmeets : DelMeets env depth orig new s)
    (hcall : smDelRuleHybrid env (ipaNatiStatemach env depth) s.clnt.tblHdl orig s =
      some (ret, s')) : HandleInv env s' (held \ {orig}) := by
  obtain ⟨hposted, hmoves⟩ := hmeets
  rcases hdel : smDelRuleFromTbl env (s.nati.hybridTblHdl s.clnt.tblHdl) new
    (s.setNati (s.nati.setMaps s.nati.chooseMemSub
      ((s.nati.mapPairs s.nati.chooseMemSub).unmap orig new))) with ⟨ret₁, s₁⟩
  rw [hdel] at hposted hmoves
  obtain rfl : ret₁ = 0 := hposted
  have h₁ := h.delRuleFromTbl ho hdel
  rcases smDelRuleHybrid_cases hcall with ⟨ho', -⟩ | ⟨new', ret₂, s₂, ho', hdel', hcases⟩
  · rw [ho] at ho'
    cases ho'
  · obtain rfl : new = new' := Option.some.inj (ho.symm.trans ho')
    obtain ⟨rfl, rfl⟩ := Prod.mk.inj (hdel.symm.trans hdel')
    rcases hcases with rfl | ⟨hst, hle, hhold, ret₃, s₃, hswitch, hrest⟩
    · exact h₁
    obtain ⟨h₃, hyb₃, -, hm₃⟩ := h₁.machineSwitch
      (hmoves ⟨hst, hle, (Bool.not_eq_true' _).mp hhold⟩) hswitch
    rcases hrest with ⟨hret, -⟩ | rfl
    · exact absurd (ipaNatiStatemach_status hswitch) hret
    have hquiet := s₃.quiet_setState .hybrid
    have hother : s₁.nati.chooseMemSub.other = .sram := by
      rw [NatiObj.chooseMemSub, hst]
      rfl
    rw [hother] at hm₃
    exact .of_matched (m := .sram) (h₃.toNatiBase.hybrid hquiet.toSteady hyb₃
      ((h₃.hybrid hyb₃).quiet hquiet)) rfl hm₃ rfl

/-- **A delete of the machine.** -/
theorem HandleInv.delRule (h : HandleInv env s held) {orig : ℕ}
    (hmeets : ∀ new, (s.nati.mapPairs s.nati.chooseMemSub).orig2new orig = some new →
      VoteGranted env (.delRule s.clnt.tblHdl orig) s ∧
        DelMeets env (depth - 1) orig new (s.voted env (.delRule s.clnt.tblHdl orig)))
    (hcall : ipaNatiStatemach env depth (.delRule s.clnt.tblHdl orig) s = some (ret, s')) :
    HandleInv env s' (held \ {orig}) := by
  generalize ht : NatiTrigger.delRule s.clnt.tblHdl orig = t at hmeets hcall
  have hv := h.voted t
  have hclnt := s.voted_clnt env t
  have hnati := s.voted_nati env t
  rcases ipaNatiStatemach_voted hcall with ⟨hno, rfl⟩ | ⟨-, ret₁, s₁, w', hcb, hw', rfl⟩
  · rcases ho : (s.nati.mapPairs s.nati.chooseMemSub).orig2new orig with _ | new
    · exact hv.notHeld (by rw [hnati, ho])
    · exact absurd (hmeets new ho).1 hno
  subst ht
  rw [(stateMachTbl_rule h.inHybrid _ _).2] at hcb
  refine HandleInv.setDrv ?_ hw'
  rcases ho : (s.nati.mapPairs s.nati.chooseMemSub).orig2new orig with _ | new
  · rw [← hnati] at ho
    rcases smDelRuleHybrid_cases hcb with ⟨-, rfl⟩ | ⟨new, -, -, ho', -⟩
    · exact hv.notHeld ho
    · rw [ho] at ho'
      cases ho'
  · have hdel := (hmeets new ho).2
    rw [← hnati] at ho
    generalize s.voted env _ = v at hv hclnt ho hdel hcb
    rw [← hclnt] at hcb
    exact hv.delRuleCb ho hdel hcb

end Rules

/-- **A switch of the machine that settles.** -/
theorem HandleInv.machineSettles (h : HandleInv env s held) (hsettles : SwitchSettles env depth s)
    (hcall : ipaNatiStatemach env depth .tblSwitch s = some (ret, s')) :
    HandleInv env s' held := by
  have hv := h.voted .tblSwitch
  have hnati := s.voted_nati env .tblSwitch
  rcases ipaNatiStatemach_voted hcall with ⟨-, rfl⟩ | ⟨hgrant, ret₁, s₁, w', hcb, hw', rfl⟩
  · exact hv
  rw [stateMachTbl_switch h.inHybrid] at hcb
  have hcases := hsettles hgrant _ _ hcb
  rw [← hnati] at hcb hcases
  refine HandleInv.setDrv ?_ hw'
  by_cases hst : s₁.nati.currState = (s.voted env .tblSwitch).nati.currState
  · exact hv.stayed hcb hst
  obtain rfl := hcases.resolve_right hst
  obtain ⟨h₁, hyb₁, -⟩ := smSwitch_keeps (smKeeps env _) hv.toNatiInv hv.inHybrid
    (MemIn.other_ne _) hcb
  -- both states are hybrid, and they are not the same
  refine .of_matched h₁ hyb₁ (hv.switched hcb) ?_
  rcases (NatiObj.inHybridState_iff _).1 hyb₁ with h' | h' <;>
    rcases (NatiObj.inHybridState_iff _).1 hv.inHybrid with h'' | h'' <;>
    simp only [NatiObj.chooseMemSub, h', h'', not_true_eq_false, if_true] at hst ⊢ <;> rfl

theorem HandleInv.setHold (h : HandleInv env s held) (b : Bool) {st : NatiState}
    (hst : st ≠ .hybridDdr) :
    HandleInv env (s.setNati { s.nati with holdState := b, stateToHold := st }) held :=
  ⟨h.toNatiInv.setHold b hst, h.inHybrid, h.handles⟩

/-- **A switch that the client asks for.** -/
theorem HandleInv.switchTo (h : HandleInv env s held) {nmi : MemIn} {b : Bool}
    (hsettles : s.nati.compatibleNmi4Switch nmi = true → SwitchSettles env depth s)
    (hcall : ipaNatSwitchTo env depth s nmi b = some (ret, s')) : HandleInv env s' held := by
  unfold ipaNatSwitchTo at hcall
  by_cases hun : s.nati.inUnstartedState = true
  · rw [if_pos hun] at hcall
    cases hcall
    exact h.setHold b (by cases nmi <;> decide)
  have hheld : ∀ {r : ℤ} {s₁ : NatiLib}, HandleInv env s₁ held →
      some (giveMutex, if r = 0 then s₁.setNati { s₁.nati with
        holdState := b
        stateToHold := if b then s₁.nati.genHoldState else s₁.nati.stateToHold } else s₁) =
        some (ret, s') → HandleInv env s' held := fun h₁ heq => by
    cases heq
    split_ifs
    · exact h₁.setHold _ (NatiObj.genHoldState_ne _)
    · exact h₁.setHold _ h₁.hold
    · exact h₁
  rw [if_neg hun, if_pos h.inHybrid] at hcall
  dsimp only at hcall
  by_cases hcomp : s.nati.compatibleNmi4Switch nmi = true
  · rw [if_pos hcomp] at hcall
    simp only [Option.bind_eq_bind, Option.bind_eq_some_iff] at hcall
    obtain ⟨⟨ret₁, s₁⟩, hswitch, hcall⟩ := hcall
    exact hheld (h.machineSettles (hsettles hcomp) hswitch) hcall
  · rw [if_neg hcomp] at hcall
    exact hheld (r := 0) h hcall

end Sm8850.Ipanat
