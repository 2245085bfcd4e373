/-
  The handles of the application, in the memory in use.

  * `HandlesMatch`: the maps of the memory in use are inverse to each other, from the held
    handles to those of the live rules.
  * `SlotHandleFree`: a new rule takes no slot that gave a held handle.
  * `HandleInv.addRuleToTbl`, `HandleInv.delRuleFromTbl`: a rule added to the table in use
    and one deleted from it.
  * `HandleInv.switched`, `HandleInv.stayed`: a switch that passes, and one that stays.
-/
import Sm8850.Ipanat.Matched
import Sm8850.Ipanat.FailedSwitch

namespace Sm8850.Ipanat

variable {env : Env} {s s' : NatiLib} {held : Set ℕ}

/-! ## The memory in use -/

/-- **The maps of the memory in use match its table and what the application holds.** -/
def HandlesMatch (s : NatiLib) (held : Set ℕ) : Prop :=
  Matched (s.drv.natCache s.nati.chooseMemSub).ip4Tbl (s.nati.mapPairs s.nati.chooseMemSub) held

/-- What the calls of a run keep. -/
structure HandleInv (env : Env) (s : NatiLib) (held : Set ℕ) : Prop extends NatiInv env s where
  inHybrid : s.nati.inHybridState = true
  handles : HandlesMatch s held

theorem NatiObj.chooseMemSub_congr {o o' : NatiObj} (h : o'.currState = o.currState) :
    o'.chooseMemSub = o.chooseMemSub := by
  unfold chooseMemSub
  rw [h]

theorem HandlesMatch.quiet (h : HandlesMatch s held) (hs : s.Quiet s')
    (hc : s'.nati.currState = s.nati.currState) : HandlesMatch s' held := by
  unfold HandlesMatch
  rw [NatiObj.chooseMemSub_congr hc, hs.tables, hs.maps]
  exact h

theorem HandleInv.quiet (h : HandleInv env s held) (hs : s.Quiet s')
    (hc : s'.nati.currState = s.nati.currState) : HandleInv env s' held := by
  refine ⟨h.toNatiInv.quiet hs hc, ?_, h.handles.quiet hs hc⟩
  rw [NatiObj.inHybridState_iff, hc, ← NatiObj.inHybridState_iff]
  exact h.inHybrid

theorem HandleInv.setDrv (h : HandleInv env s held) {w : Drv} (hw : s.drv.SameTbls w) :
    HandleInv env (s.setDrv w) held :=
  h.quiet (s.quiet_setDrv hw) rfl

/-! ## Where a new rule goes -/

/-- The slot that a new rule of the bucket `b` goes to: the bucket, or the first free
    expansion slot when there is a record in it. -/
def Ip4Tbl.NextSlot {d : Dims} (tbl : Ip4Tbl d) (b i : ℕ) : Prop :=
  ¬ tbl.natLinks.occ b ∧ i = b ∨
    tbl.natLinks.occ b ∧ findExpnTblFreeEntry entryInterface tbl.table = .ok i

/-- The new rule takes a slot whose handle the application does not hold: no held rule was
    added in that slot and has been moved since. -/
def SlotHandleFree (env : Env) (s : NatiLib) (clntRule : Ipv4Rule) (held : Set ℕ) : Prop :=
  ∀ (d : Dims) (tbl : Ip4Tbl d) (i : ℕ),
    (s.drv.natCache s.nati.chooseMemSub).ip4Tbl = some ⟨d, tbl⟩ →
    tbl.NextSlot (natBucket env d s.drv.pdns s.drv.hashToken clntRule) i →
      makeEntryHdl tbl.table i ∉ held

theorem AddDone.nextSlot {d : Dims} {pdns : List PdnEntry} {tok : ℕ} {clnt : Ipv4Rule}
    {tbl tbl' : Ip4Tbl d} {p : PreparedAdd d} (h : AddDone env pdns tok clnt tbl tbl' p) :
    tbl.NextSlot (natBucket env d pdns tok clnt) p.newEntryIndex := by
  have hnat := h.nat
  generalize p.newEntryIndex = i at hnat
  cases hnat with
  | head free => exact Or.inl ⟨free, rfl⟩
  | tail taken _ free => exact Or.inr ⟨taken, free⟩

/-- The handle of a slot other than 0 is no null handle. -/
theorem makeEntryHdl_ne_zero {d : Dims} (tbl : Ip4Tbl d) {i : ℕ} (hi : i ≠ 0) :
    makeEntryHdl tbl.table i ≠ 0 := by
  unfold makeEntryHdl
  dsimp only
  split_ifs <;> omega

theorem addIpv4Rule_failed {w w' : Drv} {hdl : ℕ} {clnt : Ipv4Rule} {ret : ℤ} {out : Option ℕ}
    (h : ipaNATIAddIpv4Rule env w hdl clnt = (ret, out, w')) (hret : ret ≠ 0) :
    out.getD 0 = 0 := by
  unfold ipaNATIAddIpv4Rule at h
  split_ifs at h
  · cases h
    rfl
  · cases h
    rfl
  · dsimp only at h
    split at h
    · cases h
      rfl
    · split at h
      · cases h
        rfl
      · split at h
        · cases h
          exact absurd rfl hret
        · cases h
          rfl

/-- **An add to the table in use**: it fails and stores 0, or it stores a handle that was
    not held. -/
theorem HandleInv.addRuleToTbl (h : HandleInv env s held) {clntRule : Ipv4Rule}
    (hfree : SlotHandleFree env s clntRule held) (hz : s.clnt.ruleHdl = 0) {ret : ℤ}
    {s₁ : NatiLib}
    (hcall : smAddRuleToTbl env (s.nati.hybridTblHdl s.clnt.tblHdl) clntRule s = (ret, s₁)) :
    ret ≠ 0 ∧ s₁.clnt.ruleHdl = 0 ∧ HandleInv env s₁ held ∨
      ret = 0 ∧ s₁.clnt.ruleHdl ≠ 0 ∧ s₁.clnt.ruleHdl ∉ held ∧
        HandleInv env (s₁.setNati (s₁.nati.setMaps s.nati.chooseMemSub
          ((s₁.nati.mapPairs s.nati.chooseMemSub).add s₁.clnt.ruleHdl s₁.clnt.ruleHdl).2))
          (insert s₁.clnt.ruleHdl held) := by
  obtain ⟨hs, -, hkept, hinv'⟩ := h.toNatiInv.addRuleToTbl hcall
  have hyb₁ : s₁.nati.inHybridState = true := by
    rw [NatiObj.inHybridState_iff, hs.currState, ← NatiObj.inHybridState_iff]
    exact h.inHybrid
  have hsub := NatiObj.chooseMemSub_congr hs.currState
  have hm := h.handles
  unfold HandlesMatch at hm
  rcases hadd : ipaNATIAddIpv4Rule env s.drv (s.nati.hybridTblHdl s.clnt.tblHdl)
    { clntRule with redirect := 0, enable := 0, timeStamp := 0 } with ⟨ret', out, w⟩
  have hdrv : s₁.drv = w ∧ s₁.clnt.ruleHdl = out.getD 0 ∧ ret = ret' ∧
      s₁.nati.mapPairs = s.nati.mapPairs := by
    simp only [smAddRuleToTbl, hadd, Prod.mk.injEq] at hcall
    obtain ⟨rfl, rfl⟩ := hcall
    rw [← hz]
    split_ifs <;> exact ⟨rfl, rfl, rfl, rfl⟩
  obtain ⟨hdrv, hhdl, rfl, hmaps⟩ := hdrv
  rw [hhdl]
  by_cases hret : ret = 0
  · rcases h.hybrid_hdlAt with hn | ⟨hh, d, tbl, ht⟩
    · have hnone := (addIpv4Rule_none hn env
        { clntRule with redirect := 0, enable := 0, timeStamp := 0 }).1
      rw [hadd] at hnone
      exact absurd hret hnone
    obtain ⟨hnmi, g, hinv⟩ := h.sound _ d tbl ht
    obtain ⟨-, tbl', g', ht', -, -, ⟨hne, -⟩ | ⟨-, i, rfl, hslot⟩⟩ := hinv.addSlots hh ht hadd
    · exact absurd hret hne
    obtain ⟨-, tbl₂, ht₂, ⟨hne, -⟩ | ⟨-, -, p, hp, hdone⟩⟩ :=
      ipaNATIAddIpv4Rule_cases hh ht hinv.tables hadd
    · exact absurd hret hne
    -- the slot taken is the one the bucket leads to
    have hb := hdone.nat.slot hinv.tables.nat
      (newEntryIndex_bounds env d s.drv.pdns s.drv.hashToken _).2
      (newEntryIndex_bounds env d s.drv.pdns s.drv.hashToken _).1.ne'
    obtain rfl : i = p.newEntryIndex :=
      makeEntryHdl_inj tbl.table hslot.lt hb.2.1 ((Option.some.inj hp).trans hdone.handle)
    have hnew : makeEntryHdl tbl.table p.newEntryIndex ∉ held :=
      hfree d tbl _ ht hdone.nextSlot
    rw [ht] at hm
    obtain ⟨henter, hm'⟩ := hm.enter hslot hnew
    rw [Option.getD_some] at hhdl ⊢
    refine Or.inr ⟨hret, makeEntryHdl_ne_zero tbl hb.2.2.1, hnew, ?_⟩
    have hinv₁ := hinv' hret
    rw [hhdl] at hinv₁
    refine ⟨hinv₁, hyb₁, ?_⟩
    show Matched (s₁.drv.natCache s₁.nati.chooseMemSub).ip4Tbl
      (Function.update s₁.nati.mapPairs s.nati.chooseMemSub _ s₁.nati.chooseMemSub) _
    rw [hsub, Function.update_self, hdrv, ht', hmaps, henter]
    exact hm'
  · refine Or.inl ⟨hret, addIpv4Rule_failed hadd hret, hkept hret, hyb₁, ?_⟩
    unfold HandlesMatch
    rw [hsub, hdrv, hmaps]
    rcases h.hybrid_hdlAt with hn | ⟨hh, d, tbl, ht⟩
    · have hsame := (addIpv4Rule_none hn env
        { clntRule with redirect := 0, enable := 0, timeStamp := 0 }).2
      rw [hadd] at hsame
      rw [show w = s.drv from hsame]
      exact hm
    · obtain ⟨-, g, hinv⟩ := h.sound _ d tbl ht
      obtain ⟨-, tbl', g', ht', -, -, ⟨-, hslots⟩ | ⟨h0, -⟩⟩ := hinv.addSlots hh ht hadd
      · rw [ht']
        rw [ht] at hm
        exact hm.congr hslots.liveHandles
      · exact absurd h0 hret

/-- **A delete from the table in use** that is posted, of a rule that the maps have just
    dropped. -/
theorem HandleInv.delRuleFromTbl (h : HandleInv env s held) {orig new : ℕ}
    (ho : (s.nati.mapPairs s.nati.chooseMemSub).orig2new orig = some new) {s₁ : NatiLib}
    (hcall : smDelRuleFromTbl env (s.nati.hybridTblHdl s.clnt.tblHdl) new
      (s.setNati (s.nati.setMaps s.nati.chooseMemSub
        ((s.nati.mapPairs s.nati.chooseMemSub).unmap orig new))) = (0, s₁)) :
    HandleInv env s₁ (held \ {orig}) := by
  obtain ⟨hs, -, hinv₁⟩ := h.toNatiInv.delRuleFromTbl ho rfl hcall
  have hyb₁ : s₁.nati.inHybridState = true := by
    rw [NatiObj.inHybridState_iff, hs.currState, ← NatiObj.inHybridState_iff]
    exact h.inHybrid
  refine ⟨hinv₁, hyb₁, ?_⟩
  have hm := h.handles
  unfold HandlesMatch at hm ⊢
  rw [NatiObj.chooseMemSub_congr hs.currState]
  rcases hdel : ipaNATIDelIpv4Rule env s.drv (s.nati.hybridTblHdl s.clnt.tblHdl) new with ⟨ret, w⟩
  have hdone : s₁.drv = w ∧ ret = 0 ∧ s₁.nati.mapPairs s.nati.chooseMemSub =
      (s.nati.mapPairs s.nati.chooseMemSub).unmap orig new := by
    simp only [smDelRuleFromTbl, NatiLib.setNati, hdel, Prod.mk.injEq] at hcall
    obtain ⟨rfl, rfl⟩ := hcall
    exact ⟨rfl, rfl, Function.update_self ..⟩
  obtain ⟨hdrv, rfl, hmaps⟩ := hdone
  rw [hdrv, hmaps]
  rcases h.hybrid_hdlAt with hn | ⟨hh, d, tbl, ht⟩
  · rw [delIpv4Rule_none hn] at hdel
    cases hdel
  obtain ⟨-, g, hinv⟩ := h.sound _ d tbl ht
  rw [ht] at hm
  have hback := (hm.inverse orig new).1 ho
  obtain ⟨i, hl, rfl⟩ := (hm.live new).1 (Option.isSome_iff_exists.2 ⟨orig, hback⟩)
  have hi := Ip4Tbl.lt_of_live hl
  obtain ⟨tbl', g', ht', -, ⟨hne, -⟩ | ⟨-, j, hget, hslot⟩⟩ := hinv.delSlots hh ht hdel
  · exact absurd rfl hne
  · rw [ipaTableGetEntry_makeEntryHdl tbl.table hi] at hget
    obtain rfl := Except.ok.inj hget
    rw [ht', NatiMapPair.unmap_eq_drop hback]
    exact hm.drop hi ho hslot

/-! ## Switches -/

/-- The memory that a switch from `m` goes to. -/
def MemIn.other : MemIn → MemIn
  | .ddr => .sram
  | .sram => .ddr

theorem MemIn.other_ne (m : MemIn) : m.other ≠ m := by cases m <;> decide

/-- The switch of a hybrid state leaves the memory in use. -/
theorem stateMachTbl_switch {sm : NatiTrigger → NatiLib → Option (ℤ × NatiLib)}
    (hyb : s.nati.inHybridState = true) (x : NatiLib) :
    stateMachTbl env sm s.nati.currState .tblSwitch x =
      smSwitch env sm s.nati.chooseMemSub s.nati.chooseMemSub.other x := by
  unfold NatiObj.chooseMemSub
  rcases s.nati.inHybridState_iff.1 hyb with hst | hst <;> rw [hst] <;> rfl

/-- **A switch that passes** hands the handles on to the memory it goes to. -/
theorem HandleInv.switched (h : HandleInv env s held) {depth : ℕ}
    (hcall : smSwitch env (ipaNatiStatemach env depth) s.nati.chooseMemSub
      s.nati.chooseMemSub.other s = some (0, s')) :
    Matched (s'.drv.natCache s.nati.chooseMemSub.other).ip4Tbl
      (s'.nati.mapPairs s.nati.chooseMemSub.other) held := by
  obtain ⟨s₁, s₂, hgoto, hcopy, rfl⟩ := smSwitch_ok hcall
  obtain ⟨hquiet, hyb₁⟩ := (smKeeps env depth).goto _ h.inHybrid hgoto
  have hm := h.handles
  unfold HandlesMatch at hm
  have hne := s.nati.chooseMemSub.other_ne
  generalize s.nati.chooseMemSub.other = dst at hgoto hcopy hne ⊢
  generalize s.nati.chooseMemSub = src at hm hcopy hne
  have h₁ : NatiInv env s₁ :=
    h.toNatiBase.hybrid hquiet.toSteady h.inHybrid ((h.hybrid h.inHybrid).quiet hquiet)
  have hclear := s₁.within_clearMem dst
  have hhdl : ∀ m, (s₁.setNati (s₁.nati.clearMem dst)).nati.tblHdl m = s₁.nati.tblHdl m :=
    hclear.tblHdl
  rw [← hhdl, ← hhdl] at hcopy
  show Matched (s₂.drv.natCache dst).ip4Tbl (s₂.nati.mapPairs dst) held
  refine copy_matched (h₁.toNatiBase.sameState hclear.toSteady hclear.currState).toNatiTbls hne
    ?_ ((NatiObj.clearMem_mapPairs ..).trans (if_pos rfl)) hcopy
  rw [hclear.table src hne.symm, hclear.maps src hne.symm, hquiet.tables, hquiet.maps]
  exact hm

/-- A switch that does not leave the memory in use leaves its handles alone. -/
theorem HandleInv.stayed (h : HandleInv env s held) {depth : ℕ} {ret : ℤ}
    (hcall : smSwitch env (ipaNatiStatemach env depth) s.nati.chooseMemSub
      s.nati.chooseMemSub.other s = some (ret, s'))
    (hst : s'.nati.currState = s.nati.currState) : HandleInv env s' held := by
  have hne := s.nati.chooseMemSub.other_ne
  obtain ⟨hinv, hyb', -⟩ := smSwitch_keeps (smKeeps env depth) h.toNatiInv h.inHybrid hne hcall
  refine ⟨hinv, hyb', ?_⟩
  have hm := h.handles
  unfold HandlesMatch at hm ⊢
  rw [NatiObj.chooseMemSub_congr hst]
  obtain ⟨ret₁, s₁, hgoto, hcases⟩ := smSwitch_cases hcall
  obtain ⟨hquiet, hyb₁⟩ := (smKeeps env depth).goto _ h.inHybrid hgoto
  rcases hcases with rfl | ⟨s₂, sub, passed, hs₂, rfl⟩
  · rw [hquiet.tables, hquiet.maps]
    exact hm
  generalize s.nati.chooseMemSub.other = dst at hgoto hs₂ hne
  generalize s.nati.chooseMemSub = src at hm hs₂ hne ⊢
  have h₁ : NatiInv env s₁ :=
    h.toNatiBase.hybrid hquiet.toSteady h.inHybrid ((h.hybrid h.inHybrid).quiet hquiet)
  have hclear := s₁.within_clearMem dst
  have hhdl : ∀ m, (s₁.setNati (s₁.nati.clearMem dst)).nati.tblHdl m = s₁.nati.tblHdl m :=
    hclear.tblHdl
  obtain ⟨hcopy, -⟩ := copy_keeps (h₁.toNatiBase.sameState hclear.toSteady hclear.currState) src dst
    hne fun hd => by
      subst hd
      exact ⟨rfl, rfl⟩
  rw [hhdl, hhdl, ← hs₂] at hcopy
  have hs := hclear.trans hcopy
  show Matched (s₂.drv.natCache src).ip4Tbl (s₂.nati.mapPairs src) held
  rw [hs.table src hne.symm, hs.maps src hne.symm, hquiet.tables, hquiet.maps]
  exact hm

/-! ## What a switch stores for the client -/

theorem migrateRule_clnt {d : Dims} (table : Table d NatRule) (hdl : ℕ) (a : WalkArgs NatRule)
    (s : NatiLib) : (migrateRule env table hdl a s).2.clnt = s.clnt := by
  unfold migrateRule
  dsimp only
  split_ifs
  all_goals
    first
    | rfl
    | split
      · rfl
      · dsimp only
        split <;> rfl

theorem copy_clnt (env : Env) (srcHdl dstHdl : ℕ) (s : NatiLib) :
    (ipaNatiCopyIpv4Tbl env srcHdl dstHdl s).2.clnt = s.clnt := by
  unfold ipaNatiCopyIpv4Tbl
  split
  · next w _ =>
    rcases walkIpv4Tbl_cases entryInterface (fun tbl => tbl.table) w srcHdl
      (fun table => migrateRule env table dstHdl) (s.setDrv w) with heq | ⟨d, tbl, -, heq⟩
    · rw [heq]
      rfl
    · obtain ⟨-, hclnt⟩ := walkLoop_inv entryInterface tbl.table .slotFilled
        (migrateRule env tbl.table dstHdl) (fun _ s' => s'.clnt = s.clnt) (fun _ _ h => h)
        (fun i s' _ h => (migrateRule_clnt tbl.table dstHdl _ s').trans h) d.totTblEnts 0
        (s.setDrv w) (by omega) rfl
      rw [heq]
      exact hclnt
  · rfl

/-- A trigger whose callback leaves the client's variables alone. -/
theorem ipaNatiStatemach_clnt {depth : ℕ} {t : NatiTrigger} {ret : ℤ}
    (hcb : ∀ x ret₁ s₁, stateMachTbl env (ipaNatiStatemach env (depth - 1)) s.nati.currState t x =
      some (ret₁, s₁) → s₁.clnt = x.clnt)
    (h : ipaNatiStatemach env depth t s = some (ret, s')) : s'.clnt = s.clnt := by
  cases depth with
  | zero => cases h
  | succ depth =>
    obtain ⟨w, -, ⟨-, rfl⟩ | ⟨ret₁, s₁, w', -, hcall, rfl⟩⟩ := ipaNatiStatemach_cases h
    · rfl
    · exact hcb (s.setDrv w) ret₁ s₁ hcall

theorem goto_clnt {depth : ℕ} {dst : MemIn} {ret : ℤ}
    (h : ipaNatiStatemach env depth (gotoTrigger dst) s = some (ret, s')) : s'.clnt = s.clnt := by
  have hgoto : ∀ x, (smGoTo env dst x).2.clnt = x.clnt := fun x => by
    unfold smGoTo
    dsimp only
    split_ifs <;> rfl
  refine ipaNatiStatemach_clnt (fun x ret₁ s₁ hcall => ?_) h
  cases hst : s.nati.currState <;> rw [hst] at hcall <;> cases dst <;> cases hcall <;>
    first | rfl | exact hgoto x

theorem smSwitch_clnt {depth : ℕ} {src dst : MemIn} {ret : ℤ}
    (h : smSwitch env (ipaNatiStatemach env depth) src dst s = some (ret, s')) :
    s'.clnt = s.clnt := by
  obtain ⟨ret₁, s₁, hgoto, rfl | ⟨s₂, sub, passed, rfl, rfl⟩⟩ := smSwitch_cases h
  · exact goto_clnt hgoto
  · have hs₁ : s₁.clnt = s.clnt := goto_clnt hgoto
    exact (copy_clnt env ..).trans hs₁

end Sm8850.Ipanat
