/-
  The callbacks of the state machine that do not run it again.

  * `walkLoop_inv`: what the callback of a walk keeps, the walk keeps.
  * `NatiInv.clrTbl`, `NatiInv.delTbl`, `NatiInv.delSramAndDdrTbl`: clearing and deleting
    tables.
  * `addDdrTbl_spec`, `addSramTbl_spec`: creating them.
  * `addRuleToTbl_hybrid`, `delRuleFromTbl_hybrid`: rules in the hybrid states, with
    what becomes of the maps and the counter of DDR.
-/
import Sm8850.Ipanat.StatemachInv

namespace Sm8850.Ipanat

/-! ## Walks -/

section Walks
variable {d : Dims} {ρ υ σ : Type} (I : EntryInterface ρ υ)

/-- **What holds before every slot holds where the walk ends.** -/
theorem walkLoop_inv (t : Table d ρ) (when2cb : When2Callback)
    (walkCb : WalkArgs ρ → σ → ℤ × σ) (P : ℕ → σ → Prop) (hskip : ∀ i s, P i s → P (i + 1) s)
    (hstep : ∀ i s, i < d.totTblEnts → P i s → P (i + 1) (walkCb (walkArgs I t i) s).2) :
    ∀ n i s, i + n ≤ d.totTblEnts → P i s →
      ∃ j, P j (walkLoop I t when2cb walkCb n i s).2 := by
  intro n
  induction n with
  | zero => exact fun i s _ hs => ⟨i, hs⟩
  | succ n ih =>
    intro i s hle hs
    have hskipped := ih (i + 1) s (by omega) (hskip i s hs)
    have hnext := hstep i s (by omega) hs
    rw [walkLoop]
    generalize walkCb (walkArgs I t i) s = r at hnext ⊢
    -- the callback is run on a slot that it is for, the other slots are skipped
    split_ifs <;> first
      | exact hskipped
      | split
        · exact ih (i + 1) _ (by omega) hnext
        · exact ⟨_, hnext⟩

/-- A walk finds no table, or goes over the slots of the one it finds. -/
theorem walkIpv4Tbl_cases (which : {d : Dims} → Ip4Tbl d → Table d ρ) (w : Drv) (hdl : ℕ)
    (cb : {d : Dims} → Table d ρ → WalkArgs ρ → σ → ℤ × σ) (s : σ) :
    (ipaNATIWalkIpv4Tbl I which w hdl cb s).2 = s ∨ ∃ d tbl, ip4TblAt w hdl = some ⟨d, tbl⟩ ∧
      (ipaNATIWalkIpv4Tbl I which w hdl cb s).2 =
        (walkLoop I (which tbl) .slotFilled (cb (which tbl)) d.totTblEnts 0 s).2 := by
  unfold ipaNATIWalkIpv4Tbl
  split
  · exact Or.inl rfl
  split
  · exact Or.inl rfl
  split
  · exact Or.inl rfl
  · next d tbl ht =>
    unfold ipaTableWalk
    split
    · exact Or.inl rfl
    · exact Or.inr ⟨d, tbl, ht, rfl⟩

/-- A walk whose callback changes nothing changes nothing. -/
theorem walkIpv4Tbl_const {which : {d : Dims} → Ip4Tbl d → Table d ρ} {w : Drv} {hdl : ℕ}
    {cb : WalkArgs ρ → ℤ} {s : σ} :
    (ipaNATIWalkIpv4Tbl I which w hdl (fun _ a s => (cb a, s)) s).2 = s := by
  rcases walkIpv4Tbl_cases I which w hdl (fun _ a s => (cb a, s)) s with
    heq | ⟨d, tbl, -, heq⟩
  · exact heq
  · rw [heq]
    obtain ⟨-, hs⟩ := walkLoop_inv I (which tbl) .slotFilled (fun a s => (cb a, s))
      (fun _ s' => s' = s) (fun _ _ h => h) (fun _ _ _ h => h) d.totTblEnts 0 s (by omega) rfl
    exact hs

end Walks

theorem smWalkTbl_state (hdl : ℕ) (which : WalkWhich) (s : NatiLib) :
    (smWalkTbl hdl which s).2 = s := by
  cases which with
  | natTable cb => exact walkIpv4Tbl_const ..
  | indexTable cb => exact walkIpv4Tbl_const ..

section Leaves
variable {env : Env} {s : NatiLib}

/-- What a call stores for the client, its table handle apart, is nothing to the
    invariant. -/
theorem NatiInv.setClnt (h : NatiInv env s) {c : ClntVars} (hc : c.tblHdl = s.clnt.tblHdl) :
    NatiInv env { s with clnt := c } :=
  h.quiet ⟨⟨.refl _, fun _ => rfl, rfl, hc, rfl⟩, fun _ => rfl, rfl, rfl, rfl⟩ rfl

/-! ## Clearing and deleting tables -/

/-- A handle that is no other memory's works on its own. -/
theorem Drv.HdlAt.of_break {w : Drv} {hdl : ℕ} (hh : ∃ m, w.HdlAt hdl m) :
    w.HdlAt hdl (breakTblHdl hdl).1 := by
  obtain ⟨m, hn | ⟨hm, ht⟩⟩ := hh
  · exact Or.inl hn
  · rw [hm.breaks]
    exact Or.inr ⟨hm, ht⟩

theorem NatiInv.clrTbl (h : NatiInv env s) {hdl : ℕ} (hh : ∃ m, s.drv.HdlAt hdl m) :
    NatiInv env (smClrTbl hdl s).2 := by
  have hclear := s.within_clearMem (breakTblHdl hdl).1
  have hcall := clearIpv4Tbl_tblCall h.sound (Drv.HdlAt.of_break hh)
  refine h.within (hclear.trans (NatiLib.within_setDrv _ hcall)) fun hm _ => .of_clear ?_ ?_
  · exact (NatiObj.clearMem_mapPairs ..).trans (if_pos hm.symm)
  · exact (NatiObj.clearMem_cntr ..).trans (if_pos hm.symm)

/-- The deletion of a table; in the states with one table the machine starts over. -/
theorem smDelTbl_spec (env : Env) {hdl : ℕ} {m : MemIn} (hh : s.drv.HdlAt hdl m) :
    ∃ w, s.drv.Fewer w ∧ ((smDelTbl env hdl s).1 = 0 → (w.natCache m).ip4Tbl = none) ∧
      (smDelTbl env hdl s).2 = if (smDelTbl env hdl s).1 = 0 ∧ ! s.nati.inHybridState then
        (s.setDrv w).setNati s.nati.back2Unstarted else s.setDrv w := by
  rcases hcall : ipaNATIDelIpv4Table env s.drv hdl with ⟨ret, w⟩
  obtain ⟨hfew, hgone⟩ := delIpv4Table_spec hh hcall
  refine ⟨w, hfew, ?_, ?_⟩
  · simpa only [smDelTbl, hcall] using hgone
  · simp only [smDelTbl, hcall]
    rfl

theorem NatiLib.steady_back2Unstarted (s : NatiLib) :
    s.Steady (s.setNati s.nati.back2Unstarted) :=
  ⟨.refl _, fun m => by cases m <;> rfl, rfl, rfl, rfl⟩

theorem NatiLib.steady_setDrv (s : NatiLib) {w : Drv} (h : s.drv.Onward w) :
    s.Steady (s.setDrv w) :=
  ⟨h, fun _ => rfl, rfl, rfl, rfl⟩

theorem NatiObj.back2Unstarted_not_hybrid (o : NatiObj) :
    ¬ o.back2Unstarted.inHybridState = true := by
  rw [inHybridState_iff]
  rintro (h | h) <;> cases h

theorem NatiInv.delTbl (h : NatiInv env s) (hyb : ¬ s.nati.inHybridState = true) :
    NatiInv env (smDelTbl env s.clnt.tblHdl s).2 := by
  obtain ⟨m, hh⟩ := h.clnt_hdlAt
  obtain ⟨w, hfew, hgone, heq⟩ := smDelTbl_spec env hh
  rw [heq]
  split_ifs with hret
  · have hs := (s.steady_setDrv hfew.onward).trans (s.setDrv w).steady_back2Unstarted
    refine ⟨h.steady hs fun hc _ => Or.inr ?_, fun hyb' => ?_⟩
    · have hgone := hgone hret.1
      rcases hh with hn | ⟨hm, -⟩
      · rw [hc, (isTblHdl_make .ddr).ip4TblAt] at hn
        exact hfew.onward.gone hn
      · obtain rfl : MemIn.ddr = m := by
          have hb := (isTblHdl_make .ddr).breaks
          rw [← hc, hm.breaks] at hb
          exact (congrArg Prod.fst hb).symm
        exact hgone
    · exact absurd hyb' (NatiObj.back2Unstarted_not_hybrid s.nati)
  · exact h.apart (s.steady_setDrv hfew.onward) rfl hyb

/-- Cleared maps and a zero counter keep the invariant in the hybrid states. -/
theorem NatiInv.cleared (h : NatiInv env s) (hyb : s.nati.inHybridState = true) {s' : NatiLib}
    (hs : s.Steady s') (hm : s'.nati.mapPairs .ddr = .empty)
    (hc : s'.nati.totRulesInTable .ddr = 0) : NatiInv env s' :=
  h.toNatiBase.hybrid hs hyb (.of_clear hm hc)

theorem smDelTbl_hybrid (env : Env) (hyb : s.nati.inHybridState = true) {hdl : ℕ} {m : MemIn}
    (hh : s.drv.HdlAt hdl m) :
    ∃ w, s.drv.Fewer w ∧ (smDelTbl env hdl s).2 = s.setDrv w := by
  obtain ⟨w, hfew, -, heq⟩ := smDelTbl_spec env hh
  refine ⟨w, hfew, heq.trans (if_neg ?_)⟩
  rintro ⟨-, hnot⟩
  rw [hyb] at hnot
  cases hnot

theorem NatiInv.delSramAndDdrTbl (h : NatiInv env s) (hyb : s.nati.inHybridState = true) :
    NatiInv env (smDelSramAndDdrTbl env s.clnt.tblHdl s).2 := by
  obtain ⟨m, hh⟩ := h.clnt_hdlAt
  unfold smDelSramAndDdrTbl
  have hclear : s.Steady (s.setNati ((s.nati.clearMem .sram).clearMem .ddr)) :=
    (s.within_clearMem .sram).toSteady.trans (NatiLib.within_clearMem _ .ddr).toSteady
  have hm : ((s.nati.clearMem .sram).clearMem .ddr).mapPairs .ddr = .empty := rfl
  have hc : ((s.nati.clearMem .sram).clearMem .ddr).totRulesInTable .ddr = 0 := rfl
  have hyb₀ : ((s.nati.clearMem .sram).clearMem .ddr).inHybridState = true := hyb
  generalize (s.nati.clearMem .sram).clearMem .ddr = o at hclear hm hc hyb₀
  obtain ⟨w, hfew, heq⟩ := smDelTbl_hybrid env (s := s.setNati o) hyb₀ hh
  rcases hcall : smDelTbl env s.clnt.tblHdl (s.setNati o) with ⟨ret, s₁⟩
  rw [hcall] at heq
  obtain rfl : s₁ = (s.setNati o).setDrv w := heq
  have hs₁ := hclear.trans (NatiLib.steady_setDrv _ hfew.onward)
  simp only [hcall]
  split
  · next heq₁ =>
    cases heq₁
    obtain ⟨w', hfew', heq'⟩ := smDelTbl_hybrid env (s := (s.setNati o).setDrv w) hyb₀
      (HdlFor.at ((hclear.tblHdl .ddr).symm ▸ h.hdls .ddr) w)
    have hs₂ := hs₁.trans (NatiLib.steady_setDrv _ hfew'.onward)
    split
    · next s₂ heq₂ =>
      obtain rfl : s₂ = _ := (congrArg Prod.snd heq₂).symm.trans heq'
      refine ⟨h.steady (hs₂.trans (NatiLib.steady_back2Unstarted _)) fun _ he => ?_, fun hyb' =>
        absurd hyb' (NatiObj.back2Unstarted_not_hybrid _)⟩
      rw [NatiObj.inHybridState_iff, he] at hyb
      rcases hyb with hyb | hyb <;> cases hyb
    · next s₂ _ heq₂ =>
      obtain rfl : s₂ = _ := (congrArg Prod.snd heq₂).symm.trans heq'
      exact h.cleared hyb hs₂ hm hc
  · next heq₁ =>
    cases heq₁
    exact h.cleared hyb hs₁ hm hc

end Leaves

/-! ## Creating tables -/

/-- A creation leaves the other tables, and adds one of the dimensions it was asked for. -/
theorem addIpv4Tbl_sound {env : Env} {w : Drv} (hw : w.Sound) {nmi : MemIn} {ip : UInt32}
    {n : ℕ} {ret : ℤ} {hdl : ℕ} {w' : Drv}
    (h : ipaNATIAddIpv4Tbl env w nmi ip n = (ret, hdl, w')) :
    w'.Sound ∧ HdlFor hdl nmi ∧ (ret = 0 → hdl = makeTblHdl 1 nmi) ∧
      ∀ (m : MemIn) (d : Dims) (tbl : Ip4Tbl d), (w'.natCache m).ip4Tbl = some ⟨d, tbl⟩ →
        (∃ tbl₀ : Ip4Tbl d, (w.natCache m).ip4Tbl = some ⟨d, tbl₀⟩) ∨
          m = nmi ∧ ipaTableCalculateEntriesNum n nmi = .ok d := by
  by_cases hret : ret = 0
  · subst hret
    obtain ⟨rfl, d, hd, hself, hother, -, -⟩ := ipaNATIAddIpv4Tbl_spec h
    have hcases : ∀ (m : MemIn) (d' : Dims) (tbl : Ip4Tbl d'),
        (w'.natCache m).ip4Tbl = some ⟨d', tbl⟩ →
        (w.natCache m).ip4Tbl = some ⟨d', tbl⟩ ∨ m = nmi ∧ d' = d ∧ tbl.Sound nmi := by
      intro m d' tbl ht
      by_cases hm : m = nmi
      · subst hm
        rw [hself] at ht
        cases ht
        exact Or.inr ⟨rfl, rfl, rfl, _, (PairInv.fresh d m ip env.addrOffset
          ⟨id, id, id, id⟩).1.loose⟩
      · rw [hother m hm] at ht
        exact Or.inl ht
    refine ⟨fun m d' tbl ht => ?_, Or.inr rfl, fun _ => rfl, fun m d' tbl ht => ?_⟩
    · rcases hcases m d' tbl ht with ht | ⟨rfl, -, hs⟩
      · exact hw m d' tbl ht
      · exact hs
    · rcases hcases m d' tbl ht with ht | ⟨hm, rfl, -⟩
      · exact Or.inl ⟨tbl, ht⟩
      · exact Or.inr ⟨hm, hd⟩
  · obtain ⟨rfl, hfew⟩ := addIpv4Tbl_failed h hret
    refine ⟨hfew.onward.sound hw, Or.inl rfl, fun h => absurd h hret, fun m d tbl ht => ?_⟩
    obtain ⟨tbl₀, ht₀, -⟩ := hfew.onward m d tbl ht
    exact Or.inl ⟨tbl₀, ht₀⟩

/-- The same state, maps and counters. -/
structure NatiLib.SameMaps (s s' : NatiLib) : Prop where
  currState : s'.nati.currState = s.nati.currState
  maps : s'.nati.mapPairs = s.nati.mapPairs
  cntr : s'.nati.totRulesInTable = s.nati.totRulesInTable

section Creations
variable {env : Env} {s : NatiLib} (h : NatiTbls env s) {ip : UInt32} {ret : ℤ} {s' : NatiLib}

include h

theorem smAddDdrTbl_spec {n : ℕ} {toClnt : Bool}
    (hcall : smAddDdrTbl env ip n toClnt s = (ret, s')) :
    NatiTbls env s' ∧ s.SameMaps s' ∧ s'.clnt.tblHdl =
      if ret = 0 ∧ toClnt then makeTblHdl 1 .ddr else s.clnt.tblHdl := by
  rcases hadd : ipaNATIAddIpv4Tbl env s.drv .ddr ip n with ⟨ret', hdl, w⟩
  obtain ⟨hsound, hfor, hhdl, htbls⟩ := addIpv4Tbl_sound h.sound hadd
  simp only [smAddDdrTbl, hadd, Prod.mk.injEq] at hcall
  obtain ⟨rfl, rfl⟩ := hcall
  have htbls' : NatiTbls env ((s.setDrv w).setNati { s.nati with ddrTblHdl := hdl }) := by
    refine ⟨hsound, fun m => ?_, fun d tbl ht => ?_, h.hold⟩
    · cases m with
      | ddr => exact hfor
      | sram => exact h.hdls .sram
    · rcases htbls .sram d tbl ht with ⟨tbl₀, ht₀⟩ | ⟨hm, -⟩
      · exact h.sized d tbl₀ ht₀
      · cases hm
  split_ifs with hc
  · exact ⟨⟨htbls'.sound, htbls'.hdls, htbls'.sized, htbls'.hold⟩, ⟨rfl, rfl, rfl⟩, hhdl hc.1⟩
  · exact ⟨htbls', ⟨rfl, rfl, rfl⟩, rfl⟩

theorem smAddSramTbl_spec (hcall : smAddSramTbl env ip s = some (ret, s')) :
    NatiTbls env s' ∧ s.SameMaps s' ∧ s'.clnt.tblHdl =
      if ret = 0 then makeTblHdl 1 .sram else s.clnt.tblHdl := by
  rcases hsize : ipaNatiGetSramSize env s.drv with ⟨ret₁, sramSize, w₁⟩
  obtain ⟨hsame, hsram⟩ := getSramSize_spec hsize
  have h₁ : NatiTbls env (s.setDrv w₁) := h.steady (s.quiet_setDrv hsame).toSteady
  rw [smAddSramTbl, hsize] at hcall
  by_cases hret₁ : ret₁ = 0
  swap
  · split at hcall
    · next heq =>
      cases heq
      exact absurd rfl hret₁
    · next heq =>
      cases heq
      cases hcall
      exact ⟨h₁, ⟨rfl, rfl, rfl⟩, (if_neg hret₁).symm⟩
  subst hret₁
  obtain rfl := hsram rfl
  simp only [Option.bind_eq_bind, Option.bind_eq_some_iff] at hcall
  obtain ⟨⟨ret₂, num⟩, hnum, hcall⟩ := hcall
  dsimp only at hcall
  by_cases hret₂ : ret₂ = 0
  swap
  · rw [if_neg hret₂] at hcall
    cases hcall
    exact ⟨⟨h₁.sound, h₁.hdls, h₁.sized, h₁.hold⟩, ⟨rfl, rfl, rfl⟩, (if_neg hret₂).symm⟩
  subst hret₂
  rw [if_pos rfl] at hcall
  rcases hvote : ipaNatiVoteClock env w₁ with ⟨ret₃, w₂⟩
  have hsame₂ := voteClock_sameTbls env w₁
  rw [hvote] at hsame₂
  have h₂ : NatiTbls env ((s.setDrv w₁).setDrv w₂) :=
    h₁.steady (NatiLib.quiet_setDrv _ hsame₂).toSteady
  -- the threshold is the one of the table that is there
  have hthresh : ∀ (d : Dims) (tbl : Ip4Tbl d), (w₂.natCache .sram).ip4Tbl = some ⟨d, tbl⟩ →
      SramSized env (num / 4) d := fun d tbl ht => by
    have hsized := h₂.sized d tbl ht
    rwa [hsized.thresh_eq hnum]
  simp only [NatiLib.setNati, NatiLib.setDrv, hvote] at hcall
  by_cases hret₃ : ret₃ = 0
  · subst hret₃
    rcases hadd : ipaNATIAddIpv4Tbl env w₂ .sram ip num with ⟨ret₄, hdl, w₃⟩
    simp only [hadd] at hcall
    obtain ⟨rfl, rfl⟩ := Prod.mk.inj (Option.some.inj hcall)
    obtain ⟨hsound, hfor, hhdl, htbls⟩ := addIpv4Tbl_sound h₂.sound hadd
    have hsame₃ := voteClock_sameTbls env w₃
    have hsound' := hsame₃.onward.sound hsound
    have hhdls : ∀ m, HdlFor ({ s.nati with sramTblHdl := hdl }.tblHdl m) m := fun m => by
      cases m with
      | ddr => exact h.hdls .ddr
      | sram => exact hfor
    have hsized : ∀ (d : Dims) (tbl : Ip4Tbl d),
        ((ipaNatiVoteClock env w₃).2.natCache .sram).ip4Tbl = some ⟨d, tbl⟩ →
        SramSized env (num / 4) d := fun d tbl ht => by
      rw [hsame₃ .sram] at ht
      rcases htbls .sram d tbl ht with ⟨tbl₀, ht₀⟩ | ⟨-, hd⟩
      · exact hthresh d tbl₀ ht₀
      · exact ⟨num, hnum, hd, rfl⟩
    split_ifs with hret₄
    · exact ⟨⟨hsound', hhdls, hsized, h.hold⟩, ⟨rfl, rfl, rfl⟩, hhdl hret₄⟩
    · exact ⟨⟨hsound', hhdls, hsized, h.hold⟩, ⟨rfl, rfl, rfl⟩, rfl⟩
  · split at hcall
    · next heq =>
      cases heq
      exact absurd rfl hret₃
    · next heq =>
      cases heq
      cases hcall
      exact ⟨⟨h₂.sound, h₂.hdls, hthresh, h₂.hold⟩, ⟨rfl, rfl, rfl⟩, (if_neg hret₃).symm⟩

end Creations

/-! ## Rules -/

section Rules
variable {env : Env} {s : NatiLib}

theorem NatiLib.within_storeRuleHdl (s : NatiLib) (nmi : MemIn) (out : Option ℕ) :
    s.Within nmi (s.storeRuleHdl out) :=
  ⟨⟨.refl _, fun _ => rfl, rfl, rfl, rfl⟩, rfl, fun _ _ => rfl, fun _ _ => rfl, fun _ _ => rfl⟩

/-- An add to some table leaves the state. -/
theorem smAddRuleToTbl_steady (h : NatiBase env s) (clntRule : Ipv4Rule) :
    s.Steady (smAddRuleToTbl env s.clnt.tblHdl clntRule s).2 ∧
      (smAddRuleToTbl env s.clnt.tblHdl clntRule s).2.nati.currState = s.nati.currState := by
  obtain ⟨m, hh⟩ := h.clnt_hdlAt
  have hcall := addIpv4Rule_tblCall h.sound hh env
    { clntRule with redirect := 0, enable := 0, timeStamp := 0 }
  rcases hadd : ipaNATIAddIpv4Rule env s.drv s.clnt.tblHdl
    { clntRule with redirect := 0, enable := 0, timeStamp := 0 } with ⟨ret, out, w⟩
  rw [hadd] at hcall
  simp only [smAddRuleToTbl, hadd]
  have hs := (s.steady_setDrv hcall.onward).trans
    (NatiLib.within_storeRuleHdl (s.setDrv w) m out).toSteady
  split_ifs
  · exact ⟨hs.trans (NatiLib.within_setCntr _ _ _).toSteady, rfl⟩
  · exact ⟨hs, rfl⟩

theorem smDelRuleFromTbl_steady (h : NatiBase env s) (ruleHdl : ℕ) :
    s.Steady (smDelRuleFromTbl env s.clnt.tblHdl ruleHdl s).2 ∧
      (smDelRuleFromTbl env s.clnt.tblHdl ruleHdl s).2.nati.currState = s.nati.currState := by
  obtain ⟨m, hh⟩ := h.clnt_hdlAt
  have hcall := delIpv4Rule_tblCall h.sound hh env ruleHdl
  rcases hdel : ipaNATIDelIpv4Rule env s.drv s.clnt.tblHdl ruleHdl with ⟨ret, w⟩
  rw [hdel] at hcall
  simp only [smDelRuleFromTbl, hdel]
  have hs := s.steady_setDrv hcall.onward
  split_ifs
  · exact ⟨hs.trans (NatiLib.within_setCntr _ _ _).toSteady, rfl⟩
  · exact ⟨hs, rfl⟩

/-- **An add in a hybrid state** works on the chosen memory; when it succeeds, the entry in
    the maps makes the invariant whole again. -/
theorem NatiInv.addRuleToTbl (h : NatiInv env s) {clntRule : Ipv4Rule} {ret : ℤ} {s₁ : NatiLib}
    (hcall : smAddRuleToTbl env (s.nati.hybridTblHdl s.clnt.tblHdl) clntRule s = (ret, s₁)) :
    s.Within s.nati.chooseMemSub s₁ ∧ s₁.noSlots = s.noSlots ∧ (ret ≠ 0 → NatiInv env s₁) ∧
      (ret = 0 → NatiInv env (s₁.setNati (s₁.nati.setMaps s.nati.chooseMemSub
        ((s₁.nati.mapPairs s.nati.chooseMemSub).add s₁.clnt.ruleHdl s₁.clnt.ruleHdl).2))) := by
  have hh := h.hybrid_hdlAt
  rcases hadd : ipaNATIAddIpv4Rule env s.drv (s.nati.hybridTblHdl s.clnt.tblHdl)
    { clntRule with redirect := 0, enable := 0, timeStamp := 0 } with ⟨ret', out, w⟩
  have htbl := addIpv4Rule_tblCall h.sound hh env
    { clntRule with redirect := 0, enable := 0, timeStamp := 0 }
  rw [hadd] at htbl
  have hsub : ((s.setDrv w).storeRuleHdl out).nati.chooseMemSub = s.nati.chooseMemSub := rfl
  simp only [smAddRuleToTbl, hadd, hsub, Prod.mk.injEq] at hcall
  obtain ⟨rfl, rfl⟩ := hcall
  generalize hnmi : s.nati.chooseMemSub = nmi at hh htbl ⊢
  have hs := (s.within_setDrv htbl).trans (NatiLib.within_storeRuleHdl (s.setDrv w) nmi out)
  split_ifs with hret
  · have hs' := hs.trans (NatiLib.within_setCntr _ nmi (inc32 (s.nati.totRulesInTable nmi)))
    refine ⟨hs', rfl, fun hne => absurd hret hne, fun _ => ?_⟩
    refine h.within (hs'.trans (NatiLib.within_setMaps _ nmi _)) fun hm ht => ?_
    subst hm
    rcases TrackedIn.addCall h.sound hh ht hadd with ⟨hne, -⟩ | ⟨-, new, rfl, ht'⟩
    · exact absurd hret hne
    · unfold NatiLib.TrackedDdr
      exact ht' new
  · refine ⟨hs, rfl, fun _ => h.within hs fun hm ht => ?_, fun h0 => absurd h0 hret⟩
    subst hm
    rcases TrackedIn.addCall h.sound hh ht hadd with ⟨-, ht'⟩ | ⟨h0, -⟩
    · exact ht'
    · exact absurd h0 hret

/-- The maps of a memory without the rule of an original handle, as a delete leaves them. -/
def NatiMapPair.unmap (p : NatiMapPair) (orig new : ℕ) : NatiMapPair :=
  ⟨Function.update p.orig2new orig none, match ipaNatMapDel p.new2orig new with
    | .error _ => p.new2orig
    | .ok (_, new2orig) => new2orig⟩

theorem NatiMapPair.unmap_eq_drop {p : NatiMapPair} {orig new : ℕ}
    (h : p.new2orig new = some orig) : p.unmap orig new = p.drop orig new := by
  simp [unmap, drop, ipaNatMapDel, h]

/-- **A delete in a hybrid state**, of a rule that the maps have just dropped. -/
theorem NatiInv.delRuleFromTbl (h : NatiInv env s) {orig new : ℕ}
    (ho : (s.nati.mapPairs s.nati.chooseMemSub).orig2new orig = some new) {ret : ℤ}
    {s₀ s₁ : NatiLib} (hs₀ : s₀ = s.setNati (s.nati.setMaps s.nati.chooseMemSub
      ((s.nati.mapPairs s.nati.chooseMemSub).unmap orig new)))
    (hcall : smDelRuleFromTbl env (s.nati.hybridTblHdl s.clnt.tblHdl) new s₀ = (ret, s₁)) :
    s.Within s.nati.chooseMemSub s₁ ∧ s₁.noSlots = s.noSlots ∧ NatiInv env s₁ := by
  have hh := h.hybrid_hdlAt
  have hs := s.within_setMaps s.nati.chooseMemSub
    ((s.nati.mapPairs s.nati.chooseMemSub).unmap orig new)
  rcases hdel : ipaNATIDelIpv4Rule env s.drv (s.nati.hybridTblHdl s.clnt.tblHdl) new with ⟨ret', w⟩
  have htbl := delIpv4Rule_tblCall h.sound hh env new
  rw [hdel] at htbl
  have hdel₀ : ipaNATIDelIpv4Rule env s₀.drv (s.nati.hybridTblHdl s.clnt.tblHdl) new =
      (ret', w) := by
    rw [hs₀]
    exact hdel
  have hsub : (s₀.setDrv w).nati.chooseMemSub = s.nati.chooseMemSub := by
    rw [hs₀]
    rfl
  simp only [smDelRuleFromTbl, hdel₀, hsub, Prod.mk.injEq] at hcall
  obtain ⟨rfl, rfl⟩ := hcall
  generalize hnmi : s.nati.chooseMemSub = nmi at hh htbl ho hs hs₀ ⊢
  rw [← hs₀] at hs
  have htbl₀ : s₀.drv.TblCall nmi w := by
    rw [hs₀]
    exact htbl
  have hs₁ := hs.trans (s₀.within_setDrv htbl₀)
  have hddr : nmi = .ddr → s.TrackedDdr → ret' ≠ 0 ∧ (s₀.setDrv w).TrackedDdr ∨ ret' = 0 ∧
      TrackedIn (w.natCache .ddr).ip4Tbl (s₀.nati.mapPairs .ddr)
        (dec32 (s₀.nati.totRulesInTable .ddr)) := by
    rintro rfl ht
    have hmaps : s₀.nati.mapPairs .ddr = (s.nati.mapPairs .ddr).drop orig new := by
      rw [hs₀, ← NatiMapPair.unmap_eq_drop (ht.back ho)]
      rfl
    have hcntr : s₀.nati.totRulesInTable = s.nati.totRulesInTable := by
      rw [hs₀]
      rfl
    have hdone := TrackedIn.delCall h.sound hh ht ho hdel
    rw [← hmaps, ← congrFun hcntr .ddr] at hdone
    exact hdone
  split_ifs with hret
  · refine ⟨hs₁.trans (NatiLib.within_setCntr _ nmi _), by rw [hs₀]; rfl, ?_⟩
    refine h.within (hs₁.trans (NatiLib.within_setCntr _ nmi _)) fun hm ht => ?_
    rcases hddr hm ht with ⟨hne, -⟩ | ⟨-, ht'⟩
    · exact absurd hret hne
    · subst hm
      exact ht'
  · refine ⟨hs₁, by rw [hs₀]; rfl, h.within hs₁ fun hm ht => ?_⟩
    rcases hddr hm ht with ⟨-, ht'⟩ | ⟨h0, -⟩
    · exact ht'
    · exact absurd h0 hret

end Rules

end Sm8850.Ipanat
