/-
  What the state machine keeps, whatever its calls answer.

  * `SramSized`: the SRAM table and the threshold come from one number of entries.
  * `NatiTbls`, `NatiBase`, `NatiInv`: the invariant of the library.  In the hybrid
    states the maps and the counter of DDR count what its table holds, also while SRAM
    is in use: a switch whose vote fails comes back to them without a copy.
  * `Steady`, `Quiet`, `Within`: what a step leaves alone that creates no table, one
    that touches no table, and one that works on one memory.
-/
import Sm8850.Ipanat.Tracked

namespace Sm8850.Ipanat

/-- The dimensions of an SRAM table and the threshold: both from the number of entries
    that was found for the SRAM. -/
def SramSized (env : Env) (backToSramThresh : ℕ) (d : Dims) : Prop :=
  ∃ n, ipaCalcNumSramTableEntries 65536 env.sramSize entryInterface.entrySize
      indexEntryInterface.entrySize = some (0, n) ∧
    ipaTableCalculateEntriesNum n .sram = .ok d ∧ backToSramThresh = n / 4

/-- **A quarter of the entries fits the expansion part alone**, so the threshold leaves a
    free slot there. -/
theorem SramSized.room {env : Env} {thresh : ℕ} {d : Dims} (h : SramSized env thresh d) {m : ℕ}
    (hm : m < thresh) : m < d.expnTableEntries := by
  obtain ⟨n, -, hd, rfl⟩ := h
  rw [(dims_slots hd).2, tightEven]
  omega

/-- Two numbers found for one SRAM are the same. -/
theorem SramSized.thresh_eq {env : Env} {thresh n : ℕ} {d : Dims} (h : SramSized env thresh d)
    (hn : ipaCalcNumSramTableEntries 65536 env.sramSize entryInterface.entrySize
      indexEntryInterface.entrySize = some (0, n)) : n / 4 = thresh := by
  obtain ⟨n', hn', -, rfl⟩ := h
  rw [hn] at hn'
  cases hn'
  rfl

/-! ## The invariant -/

/-- The tables, the handles of the object and the state it may be held in. -/
structure NatiTbls (env : Env) (s : NatiLib) : Prop where
  sound : s.drv.Sound
  hdls : ∀ nmi, HdlFor (s.nati.tblHdl nmi) nmi
  sized : ∀ (d : Dims) (tbl : Ip4Tbl d), (s.drv.natCache .sram).ip4Tbl = some ⟨d, tbl⟩ →
    SramSized env s.nati.backToSramThresh d
  hold : s.nati.stateToHold ≠ .hybridDdr

/-- What holds in every state.  The client's handle names SRAM or nothing; if it names
    DDR, then DDR is all there is, or its table is gone. -/
structure NatiBase (env : Env) (s : NatiLib) : Prop extends NatiTbls env s where
  clnt : HdlFor s.clnt.tblHdl .sram ∨ s.clnt.tblHdl = makeTblHdl 1 .ddr ∧
    (s.nati.currState = .ddrOnly ∨ (s.drv.natCache .ddr).ip4Tbl = none)

/-- The maps and the counter of DDR are right. -/
def NatiLib.TrackedDdr (s : NatiLib) : Prop :=
  TrackedIn (s.drv.natCache .ddr).ip4Tbl (s.nati.mapPairs .ddr) (s.nati.totRulesInTable .ddr)

/-- **The invariant of the state machine.** -/
structure NatiInv (env : Env) (s : NatiLib) : Prop extends NatiBase env s where
  hybrid : s.nati.inHybridState = true → s.TrackedDdr

/-! ## What a step leaves alone -/

namespace NatiLib

/-- What is left alone by everything but the creation of a table. -/
structure Steady (s s' : NatiLib) : Prop where
  onward : s.drv.Onward s'.drv
  tblHdl : ∀ m, s'.nati.tblHdl m = s.nati.tblHdl m
  thresh : s'.nati.backToSramThresh = s.nati.backToSramThresh
  clnt : s'.clnt.tblHdl = s.clnt.tblHdl
  hold : s'.nati.stateToHold = s.nati.stateToHold

/-- A step that touches no table, map or counter. -/
structure Quiet (s s' : NatiLib) : Prop extends s.Steady s' where
  tables : s.drv.SameTbls s'.drv
  maps : s'.nati.mapPairs = s.nati.mapPairs
  cntr : s'.nati.totRulesInTable = s.nati.totRulesInTable
  noSlots : s'.noSlots = s.noSlots

/-- A step that works on the table, the maps and the counter of one memory. -/
structure Within (nmi : MemIn) (s s' : NatiLib) : Prop extends s.Steady s' where
  currState : s'.nati.currState = s.nati.currState
  table : ∀ m, m ≠ nmi → (s'.drv.natCache m).ip4Tbl = (s.drv.natCache m).ip4Tbl
  maps : ∀ m, m ≠ nmi → s'.nati.mapPairs m = s.nati.mapPairs m
  cntr : ∀ m, m ≠ nmi → s'.nati.totRulesInTable m = s.nati.totRulesInTable m

section
variable {s s' s'' : NatiLib} {nmi : MemIn}

theorem Steady.trans (h : s.Steady s') (k : s'.Steady s'') : s.Steady s'' :=
  ⟨h.onward.trans k.onward, fun m => (k.tblHdl m).trans (h.tblHdl m), k.thresh.trans h.thresh,
    k.clnt.trans h.clnt, k.hold.trans h.hold⟩

theorem Quiet.trans (h : s.Quiet s') (k : s'.Quiet s'') : s.Quiet s'' :=
  ⟨h.toSteady.trans k.toSteady, h.tables.trans k.tables, k.maps.trans h.maps, k.cntr.trans h.cntr,
    k.noSlots.trans h.noSlots⟩

theorem Within.refl (nmi : MemIn) (s : NatiLib) : s.Within nmi s :=
  ⟨⟨.refl _, fun _ => rfl, rfl, rfl, rfl⟩, rfl, fun _ _ => rfl, fun _ _ => rfl, fun _ _ => rfl⟩

theorem Within.trans (h : s.Within nmi s') (k : s'.Within nmi s'') : s.Within nmi s'' :=
  ⟨h.toSteady.trans k.toSteady, k.currState.trans h.currState,
    fun m hm => (k.table m hm).trans (h.table m hm), fun m hm => (k.maps m hm).trans (h.maps m hm),
    fun m hm => (k.cntr m hm).trans (h.cntr m hm)⟩

end

section
variable (s : NatiLib)

theorem quiet_setDrv {w : Drv} (h : s.drv.SameTbls w) : s.Quiet (s.setDrv w) :=
  ⟨⟨h.onward, fun _ => rfl, rfl, rfl, rfl⟩, h, rfl, rfl, rfl⟩

theorem quiet_setState (st : NatiState) : s.Quiet (s.setNati (s.nati.setState st)) :=
  ⟨⟨.refl _, fun m => by cases m <;> rfl, rfl, rfl, rfl⟩, fun _ => rfl, rfl, rfl, rfl⟩

theorem within_setDrv {nmi : MemIn} {w : Drv} (h : s.drv.TblCall nmi w) :
    s.Within nmi (s.setDrv w) :=
  ⟨⟨h.onward, fun _ => rfl, rfl, rfl, rfl⟩, rfl, h.other, fun _ _ => rfl, fun _ _ => rfl⟩

theorem within_setCntr (nmi : MemIn) (c : ℕ) : s.Within nmi (s.setNati (s.nati.setCntr nmi c)) :=
  ⟨⟨.refl _, fun m => by cases m <;> rfl, rfl, rfl, rfl⟩, rfl, fun _ _ => rfl, fun _ _ => rfl,
    fun _ hm => Function.update_of_ne hm ..⟩

theorem within_setMaps (nmi : MemIn) (p : NatiMapPair) :
    s.Within nmi (s.setNati (s.nati.setMaps nmi p)) :=
  ⟨⟨.refl _, fun m => by cases m <;> rfl, rfl, rfl, rfl⟩, rfl, fun _ _ => rfl,
    fun _ hm => Function.update_of_ne hm .., fun _ _ => rfl⟩

theorem within_clearMem (nmi : MemIn) : s.Within nmi (s.setNati (s.nati.clearMem nmi)) :=
  (s.within_setCntr nmi 0).trans ((s.setNati (s.nati.setCntr nmi 0)).within_setMaps nmi .empty)

end

/-! ### The maps and the counter of DDR -/

section
variable {s s' : NatiLib}

theorem TrackedDdr.congr (h : s.TrackedDdr)
    (ht : (s'.drv.natCache .ddr).ip4Tbl = (s.drv.natCache .ddr).ip4Tbl)
    (hm : s'.nati.mapPairs .ddr = s.nati.mapPairs .ddr)
    (hc : s'.nati.totRulesInTable .ddr = s.nati.totRulesInTable .ddr) : s'.TrackedDdr := by
  unfold TrackedDdr
  rw [ht, hm, hc]
  exact h

theorem TrackedDdr.quiet (h : s.TrackedDdr) (hs : s.Quiet s') : s'.TrackedDdr :=
  h.congr (hs.tables .ddr) (congrFun hs.maps .ddr) (congrFun hs.cntr .ddr)

theorem TrackedDdr.within (h : s.TrackedDdr) (hs : s.Within .sram s') : s'.TrackedDdr :=
  h.congr (hs.table .ddr (by decide)) (hs.maps .ddr (by decide)) (hs.cntr .ddr (by decide))

/-- Cleared maps and a zero counter are right for any table. -/
theorem TrackedDdr.of_clear (hm : s.nati.mapPairs .ddr = .empty)
    (hc : s.nati.totRulesInTable .ddr = 0) : s.TrackedDdr := by
  unfold TrackedDdr
  rw [hm, hc]
  exact .empty _

end
end NatiLib

/-! ### The object -/

section Object
variable (o : NatiObj) (m k : MemIn)

theorem NatiObj.clearMem_mapPairs :
    (o.clearMem m).mapPairs k = if k = m then .empty else o.mapPairs k :=
  Function.update_apply ..

theorem NatiObj.clearMem_cntr :
    (o.clearMem m).totRulesInTable k = if k = m then 0 else o.totRulesInTable k :=
  Function.update_apply ..

theorem NatiObj.inHybridState_iff :
    o.inHybridState = true ↔ o.currState = .hybrid ∨ o.currState = .hybridDdr :=
  decide_eq_true_iff

theorem NatiObj.genHoldState_ne : o.genHoldState ≠ .hybridDdr := by
  unfold genHoldState
  split_ifs with h
  · intro he
    rw [Bool.not_eq_true', ← Bool.not_eq_true, inHybridState_iff, he] at h
    exact h (Or.inr rfl)
  · decide
  · decide

end Object

/-! ### The invariant under such a step -/

section Kept
variable {env : Env} {s s' : NatiLib}

theorem NatiTbls.steady (h : NatiTbls env s) (hs : s.Steady s') : NatiTbls env s' where
  sound := hs.onward.sound h.sound
  hdls m := by
    rw [hs.tblHdl]
    exact h.hdls m
  sized d tbl ht := by
    obtain ⟨tbl₀, ht₀, -⟩ := hs.onward .sram d tbl ht
    rw [hs.thresh]
    exact h.sized d tbl₀ ht₀
  hold := hs.hold ▸ h.hold

theorem NatiBase.steady (h : NatiBase env s) (hs : s.Steady s')
    (hstate : s.clnt.tblHdl = makeTblHdl 1 .ddr → s.nati.currState = .ddrOnly →
      s'.nati.currState = .ddrOnly ∨ (s'.drv.natCache .ddr).ip4Tbl = none) : NatiBase env s' := by
  refine ⟨h.toNatiTbls.steady hs, ?_⟩
  rw [hs.clnt]
  rcases h.clnt with hc | ⟨hc, hst | hn⟩
  · exact Or.inl hc
  · exact Or.inr ⟨hc, hstate hc hst⟩
  · exact Or.inr ⟨hc, Or.inr (hs.onward.gone hn)⟩

theorem NatiBase.sameState (h : NatiBase env s) (hs : s.Steady s')
    (hstate : s'.nati.currState = s.nati.currState) : NatiBase env s' :=
  h.steady hs fun _ he => Or.inl (hstate.trans he)

theorem NatiInv.quiet (h : NatiInv env s) (hs : s.Quiet s')
    (hstate : s'.nati.currState = s.nati.currState) : NatiInv env s' := by
  refine ⟨h.toNatiBase.sameState hs.toSteady hstate, fun hyb => (h.hybrid ?_).quiet hs⟩
  rwa [NatiObj.inHybridState_iff, ← hstate, ← NatiObj.inHybridState_iff]

/-- In the other states the maps and the counters do not matter. -/
theorem NatiInv.apart (h : NatiInv env s) (hs : s.Steady s')
    (hstate : s'.nati.currState = s.nati.currState) (hyb : ¬ s.nati.inHybridState = true) :
    NatiInv env s' := by
  refine ⟨h.toNatiBase.sameState hs hstate, fun hyb' => absurd ?_ hyb⟩
  rwa [NatiObj.inHybridState_iff, ← hstate, ← NatiObj.inHybridState_iff]

/-- Between the hybrid states: what DDR holds is right in both. -/
theorem NatiBase.hybrid (h : NatiBase env s) (hs : s.Steady s')
    (hyb : s.nati.inHybridState = true) (ht : s'.TrackedDdr) : NatiInv env s' := by
  refine ⟨h.steady hs fun _ he => ?_, fun _ => ht⟩
  rw [NatiObj.inHybridState_iff, he] at hyb
  rcases hyb with hyb | hyb <;> cases hyb

theorem NatiInv.within {nmi : MemIn} (h : NatiInv env s) (hs : s.Within nmi s')
    (hddr : nmi = .ddr → s.TrackedDdr → s'.TrackedDdr) : NatiInv env s' := by
  refine ⟨h.toNatiBase.sameState hs.toSteady hs.currState, fun hyb => ?_⟩
  rw [NatiObj.inHybridState_iff, hs.currState, ← NatiObj.inHybridState_iff] at hyb
  cases nmi with
  | ddr => exact hddr rfl (h.hybrid hyb)
  | sram => exact (h.hybrid hyb).within hs

end Kept

/-! ### The handles of a call -/

section Handles
variable {env : Env} {s : NatiLib} (h : NatiBase env s)

include h

/-- The client's handle names one table, or none. -/
theorem NatiBase.clnt_hdlAt : ∃ m, s.drv.HdlAt s.clnt.tblHdl m := by
  rcases h.clnt with hc | ⟨hc, -⟩
  · exact ⟨_, hc.at s.drv⟩
  · exact ⟨.ddr, HdlFor.at (Or.inr hc) s.drv⟩

/-- A call in a hybrid state reaches the table of the chosen memory, or none. -/
theorem NatiBase.hybrid_hdlAt :
    s.drv.HdlAt (s.nati.hybridTblHdl s.clnt.tblHdl) s.nati.chooseMemSub := by
  unfold NatiObj.hybridTblHdl NatiObj.chooseMemSub
  by_cases hst : s.nati.currState = .hybrid
  · rw [if_pos hst, if_pos hst]
    rcases h.clnt with hc | ⟨hc, hd | hn⟩
    · exact hc.at s.drv
    · rw [hst] at hd
      cases hd
    · refine Or.inl ?_
      rw [hc, (isTblHdl_make .ddr).ip4TblAt, hn]
  · rw [if_neg hst, if_neg hst]
    exact (h.hdls .ddr).at s.drv

end Handles

end Sm8850.Ipanat
