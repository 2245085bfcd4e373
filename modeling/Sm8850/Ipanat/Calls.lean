/-
  The `ipa_NATI_*` calls on a table of one memory.

  * `ipaTableGetEntry_makeEntryHdl`: a rule handle names its slot.
  * `PairInv.clear`, `PairInv.fresh`: a cleared and a new pair.
  * `ipaNATIAddIpv4Rule_spec`, `ipaNATIDelIpv4Rule_spec`,
    `ipaNATIClearIpv4Tbl_spec`, `ipaNATIAddIpv4Tbl_spec`: what each call answers
    and leaves.
-/
import Sm8850.Ipanat.DelSpec

namespace Sm8850.Ipanat

open Lib

variable {d : Dims}

/-! ## Handles -/

theorem MemIn.bit_lt (m : MemIn) : m.bit < 2 := by cases m <;> decide

/-- The handle of a slot names that slot. -/
theorem ipaTableGetEntry_makeEntryHdl {ρ : Type} (t : Table d ρ) {i : ℕ} (hi : i < d.totTblEnts) :
    ipaTableGetEntry d (makeEntryHdl t i) = .ok i := by
  have h₁ := d.base_le
  have h₂ := d.expn_le
  have h₃ := t.nmi.bit_lt
  simp only [Dims.totTblEnts] at hi
  have hidx : (breakRuleHdl d (makeEntryHdl t i)).2.2 = i := by
    unfold breakRuleHdl makeEntryHdl
    dsimp only
    by_cases hb : i ≥ d.tableEntries
    · rw [if_pos hb, if_pos (by omega)]
      omega
    · rw [if_neg hb, if_neg (by omega)]
      omega
  unfold ipaTableGetEntry
  rw [hidx]
  exact if_neg (by simp only [Dims.totTblEnts]; omega)

theorem makeEntryHdl_inj {ρ : Type} (t : Table d ρ) {i j : ℕ} (hi : i < d.totTblEnts)
    (hj : j < d.totTblEnts) (h : makeEntryHdl t i = makeEntryHdl t j) : i = j := by
  have hi' := ipaTableGetEntry_makeEntryHdl t hi
  rw [h, ipaTableGetEntry_makeEntryHdl t hj] at hi'
  exact (Except.ok.inj hi').symm

/-- A handle depends on the memory of its table only. -/
theorem makeEntryHdl_congr {ρ σ : Type} {t : Table d ρ} {t' : Table d σ} (h : t'.nmi = t.nmi)
    (i : ℕ) : makeEntryHdl t' i = makeEntryHdl t i := by
  rw [makeEntryHdl, makeEntryHdl, h]

/-- A handle of the table of one memory. -/
structure IsTblHdl (tblHdl : ℕ) (nmi : MemIn) : Prop where
  breaks : breakTblHdl tblHdl = (nmi, 1)
  valid : validTblHdl tblHdl = true

theorem isTblHdl_make (nmi : MemIn) : IsTblHdl (makeTblHdl 1 nmi) nmi := by
  cases nmi <;> exact ⟨rfl, rfl⟩

theorem IsTblHdl.ip4TblAt {tblHdl : ℕ} {nmi : MemIn} (h : IsTblHdl tblHdl nmi) (w : Drv) :
    ip4TblAt w tblHdl = (w.natCache nmi).ip4Tbl := by
  rw [Ipanat.ip4TblAt, h.breaks, if_pos rfl]

/-! ## The state around a table -/

section Fields
variable (w : Drv) (m k : MemIn) (c : NatCache) (tbl : Ip4Tbl d)

@[simp] theorem Drv.natCache_setNatCache_self : (w.setNatCache m c).natCache m = c := by
  cases m <;> rfl

theorem Drv.natCache_setNatCache_of_ne {w : Drv} {m k : MemIn} {c : NatCache} (h : k ≠ m) :
    (w.setNatCache m c).natCache k = w.natCache k := by
  cases m <;> cases k <;> first | rfl | exact absurd rfl h

@[simp] theorem Drv.setNatCache_pdns : (w.setNatCache m c).pdns = w.pdns := by cases m <;> rfl
@[simp] theorem Drv.setNatCache_calls : (w.setNatCache m c).calls = w.calls := by cases m <;> rfl
@[simp] theorem Drv.setNatCache_hashToken : (w.setNatCache m c).hashToken = w.hashToken := by
  cases m <;> rfl
@[simp] theorem Drv.setNatCache_activeNatCache :
    (w.setNatCache m c).activeNatCache = w.activeNatCache := by cases m <;> rfl
@[simp] theorem Drv.natCache_hashToken (n : ℕ) :
    ({ w with hashToken := n } : Drv).natCache m = w.natCache m := by cases m <;> rfl
@[simp] theorem Drv.natCache_calls (n : ℕ) :
    ({ w with calls := n } : Drv).natCache m = w.natCache m := by cases m <;> rfl

@[simp] theorem Drv.setIp4Tbl_ip4Tbl : ((w.setIp4Tbl m tbl).natCache m).ip4Tbl = some ⟨d, tbl⟩ := by
  rw [setIp4Tbl, natCache_setNatCache_self]
@[simp] theorem Drv.setIp4Tbl_pdns : (w.setIp4Tbl m tbl).pdns = w.pdns := w.setNatCache_pdns ..
@[simp] theorem Drv.setIp4Tbl_calls : (w.setIp4Tbl m tbl).calls = w.calls :=
  w.setNatCache_calls ..

end Fields

/-- What a call on the rules of one memory leaves alone. -/
structure Drv.SameBut (nmi : MemIn) (w w' : Drv) : Prop where
  other : ∀ m, m ≠ nmi → w'.natCache m = w.natCache m
  ipaDesc : ∀ m, (w'.natCache m).ipaDesc = (w.natCache m).ipaDesc
  tableCnt : ∀ m, (w'.natCache m).tableCnt = (w.natCache m).tableCnt
  active : w'.activeNatCache = w.activeNatCache
  pdns : w'.pdns = w.pdns

theorem Drv.SameBut.refl (nmi : MemIn) (w : Drv) : w.SameBut nmi w :=
  ⟨fun _ _ => rfl, fun _ => rfl, fun _ => rfl, rfl, rfl⟩

theorem Drv.SameBut.trans {nmi : MemIn} {w w' w'' : Drv} (h : w.SameBut nmi w')
    (k : w'.SameBut nmi w'') : w.SameBut nmi w'' :=
  ⟨fun m hm => (k.other m hm).trans (h.other m hm),
    fun m => (k.ipaDesc m).trans (h.ipaDesc m), fun m => (k.tableCnt m).trans (h.tableCnt m),
    k.active.trans h.active, k.pdns.trans h.pdns⟩

theorem Drv.setIp4Tbl_sameBut (w : Drv) (nmi : MemIn) (tbl : Ip4Tbl d) :
    w.SameBut nmi (w.setIp4Tbl nmi tbl) := by
  refine ⟨fun m hm => natCache_setNatCache_of_ne hm, fun m => ?_, fun m => ?_,
    w.setNatCache_activeNatCache .., w.setNatCache_pdns ..⟩
  all_goals
    rcases eq_or_ne m nmi with rfl | hm
    · rw [setIp4Tbl, natCache_setNatCache_self]
    · rw [setIp4Tbl, natCache_setNatCache_of_ne hm]

theorem Drv.calls_sameBut (w : Drv) (nmi : MemIn) (n : ℕ) :
    w.SameBut nmi { w with calls := n } :=
  ⟨fun m _ => by simp, fun m => by simp, fun m => by simp, rfl, rfl⟩

theorem Drv.hashToken_sameBut (w : Drv) (nmi : MemIn) (n : ℕ) :
    w.SameBut nmi { w with hashToken := n } :=
  ⟨fun m _ => by simp, fun m => by simp, fun m => by simp, rfl, rfl⟩

/-! ## Clearing and creating -/

/-- A table of cleared records and counters is well formed under any ghosts. -/
theorem TableInv.of_zero {ρ υ : Type} {I : EntryInterface ρ υ} [LawfulInterface I] {t : Table d ρ}
    (h : ∀ i, t.gotoRec I i = I.zero) (hc : t.curTblCnt = 0) (he : t.curExpnTblCnt = 0)
    (root rank : ℕ → ℕ) : TableInv I t root rank := by
  have hfree : ∀ i, ¬ (t.links I).occ i := fun i => by simp [Table.links, h]
  refine ⟨?_, ?_, ?_, fun i _ => h i⟩
  · constructor <;> intros <;> first | exact hfree _ | exact absurd ‹(t.links I).occ _› (hfree _)
  · rw [hc, Table.baseOccupied, Finset.filter_false_of_mem fun i _ => hfree i, Finset.card_empty]
  · rw [he, Table.expnOccupied, Finset.filter_false_of_mem fun i _ => hfree i, Finset.card_empty]

/-- A pair of cleared tables holds no rule. -/
theorem PairInv.of_zero (tbl : Ip4Tbl d) (hn : ∀ i, tbl.natRec i = NatRule.zero)
    (hi : ∀ i, tbl.indxRec i = IndxTblRule.zero)
    (hc : tbl.table.curTblCnt = 0 ∧ tbl.table.curExpnTblCnt = 0 ∧
      tbl.indexTable.curTblCnt = 0 ∧ tbl.indexTable.curExpnTblCnt = 0)
    (hm : tbl.table.tblMeta = none)
    (hm' : ∃ m, tbl.indexTable.tblMeta = some m ∧ m.length = d.expnTableEntries)
    (g : PairGhost) : PairInv tbl g ∧ tbl.liveAt = fun _ => none := by
  have hdead : ∀ i, ¬ (tbl.natRec i).live = true := fun i => by
    rw [hn]
    exact zero_not_live
  have hnocc : ∀ i, ¬ tbl.natLinks.occ i := fun i => by simp [Table.links, hn]; rfl
  have hiocc : ∀ i, ¬ tbl.indxLinks.occ i := fun i => by simp [Table.links, hi]; rfl
  exact ⟨⟨.of_zero hn hc.1 hc.2.1 .., .of_zero hi hc.2.2.1 hc.2.2.2 .., hm, hm',
    fun i h => absurd h (hdead i), fun j h => absurd h (hiocc j),
    fun i h => absurd h (hnocc i)⟩, funext fun i => if_neg (hdead i)⟩

theorem gotoRec_replicate {ρ υ : Type} {I : EntryInterface ρ υ} {t : Table d ρ}
    (h : t.recs = List.replicate d.totTblEnts I.zero) (i : ℕ) : t.gotoRec I i = I.zero := by
  rw [Table.gotoRec, h, List.getD_eq_getElem?_getD, List.getElem?_replicate]
  split <;> rfl

theorem TablesInv.clear {tbl : Ip4Tbl d} {g : PairGhost} (h : TablesInv tbl g) (g' : PairGhost) :
    PairInv (clearIp4Tbl tbl) g' ∧ (clearIp4Tbl tbl).liveAt = fun _ => none :=
  PairInv.of_zero (clearIp4Tbl tbl) (gotoRec_replicate rfl) (gotoRec_replicate rfl)
    ⟨rfl, rfl, rfl, rfl⟩ h.natMeta h.indxMeta g'

theorem PairInv.fresh (d : Dims) (nmi : MemIn) (publicAddr : UInt32) (addrOffset : ℕ)
    (g : PairGhost) : PairInv (freshIp4Tbl d nmi publicAddr addrOffset) g ∧
      (freshIp4Tbl d nmi publicAddr addrOffset).liveAt = fun _ => none :=
  PairInv.of_zero _ (gotoRec_replicate rfl) (gotoRec_replicate rfl) ⟨rfl, rfl, rfl, rfl⟩ rfl
    ⟨_, rfl, List.length_replicate⟩ g

/-! ## Adding -/

/-- What an add that answers 0 leaves: one more live rule, in a slot that held none. -/
structure RuleAdded (env : Env) (w : Drv) (clnt : Ipv4Rule) (tbl tbl' : Ip4Tbl d)
    (g g' : PairGhost) (i : ℕ) : Prop where
  lt : i < d.totTblEnts
  ne_zero : i ≠ 0
  valid : clntRuleValid w.pdns clnt = true
  free : tbl.liveAt i = none
  liveAt : tbl'.liveAt = Function.update tbl.liveAt i (some (installedContent w.pdns clnt))
  natRoot : g'.natRoot =
    Function.update g.natRoot i (natBucket env d w.pdns w.hashToken clnt)
  srcRoot : ∀ k, (tbl'.natRec k).live → g'.srcRoot tbl' k =
    if k = i then indxBucket env d w.pdns w.hashToken clnt else g.srcRoot tbl k

theorem clntRuleValid_iff {pdns : List PdnEntry} {clnt : Ipv4Rule} :
    clntRuleValid pdns clnt = true ↔ clnt.protocol ≠ ipahalNatInvalidProtocol ∧
      clnt.pdnIndex.toNat < 16 ∧ (pdnAt pdns clnt.pdnIndex.toNat).publicIp ≠ 0 :=
  decide_eq_true_iff

/-- **What an add can do**: answer 0 once both entries are made and posted, or leave both
    tables as they were. -/
theorem ipaNATIAddIpv4Rule_cases {env : Env} {w : Drv} {tblHdl : ℕ} {nmi : MemIn}
    {tbl : Ip4Tbl d} {g : PairGhost} (hh : IsTblHdl tblHdl nmi)
    (ht : (w.natCache nmi).ip4Tbl = some ⟨d, tbl⟩) (hinv : TablesInv tbl g)
    {clnt : Ipv4Rule} {ret : ℤ} {out : Option ℕ} {w' : Drv}
    (h : ipaNATIAddIpv4Rule env w tblHdl clnt = (ret, out, w')) :
    w.SameBut nmi w' ∧ ∃ tbl', (w'.natCache nmi).ip4Tbl = some ⟨d, tbl'⟩ ∧
      (ret ≠ 0 ∧ out = some 0 ∧ TablesInv tbl' g ∧ tbl.Restored tbl' ∧
          SameLayout tbl.table tbl'.table ∨
        ret = 0 ∧ clntRuleValid w.pdns clnt = true ∧ ∃ p : PreparedAdd d,
          out = some p.newEntryHandle ∧ AddDone env w.pdns w.hashToken clnt tbl tbl' p) := by
  rw [← hh.ip4TblAt] at ht
  simp only [ipaNATIAddIpv4Rule, hh.valid, Bool.not_true, Bool.false_eq_true, if_false,
    hh.breaks, ht] at h
  rw [hh.ip4TblAt] at ht
  by_cases hv : clntRuleValid w.pdns clnt = true
  swap
  · simp only [hv, Bool.not_false, if_true, Prod.mk.injEq] at h
    obtain ⟨rfl, rfl, rfl⟩ := h
    exact ⟨.refl .., tbl, ht, Or.inl ⟨by decide, rfl, hinv, .refl tbl, ⟨rfl, rfl⟩⟩⟩
  simp only [hv, Bool.not_true, Bool.false_eq_true, if_false] at h
  rcases hp : prepareAdd env w.pdns w.hashToken tbl clnt with ⟨tok, ⟨ret', tbl'⟩ | p⟩
  · obtain ⟨hret, htables, hres, hlay, -⟩ := prepareAdd_restores hinv hp
    simp only [hp, Prod.mk.injEq] at h
    obtain ⟨rfl, rfl, rfl⟩ := h
    exact ⟨(w.hashToken_sameBut nmi tok).trans (Drv.setIp4Tbl_sameBut ..), tbl',
      Drv.setIp4Tbl_ip4Tbl .., Or.inl ⟨hret, rfl, htables, hres, hlay⟩⟩
  · simp only [hp, ipaNatiPostIpv4DmaCmd, sysCall] at h
    have hsame : w.SameBut nmi { w with hashToken := tok, calls := w.calls + 1 } :=
      (w.hashToken_sameBut nmi tok).trans (Drv.calls_sameBut ..)
    cases hio : env.io w.calls
    · obtain ⟨htables, hres, hlay, -⟩ := eraseBoth_restores hinv hp
      simp only [hio, eio, Int.reduceNeg, Prod.mk.injEq] at h
      obtain ⟨rfl, rfl, rfl⟩ := h
      exact ⟨hsame.trans ((Drv.setIp4Tbl_sameBut ..).trans (Drv.setIp4Tbl_sameBut ..)), _,
        Drv.setIp4Tbl_ip4Tbl .., Or.inl ⟨by decide, rfl, htables, hres, hlay⟩⟩
    · simp only [hio, Prod.mk.injEq] at h
      obtain ⟨rfl, rfl, rfl⟩ := h
      exact ⟨hsame.trans (Drv.setIp4Tbl_sameBut ..), _, Drv.setIp4Tbl_ip4Tbl ..,
        Or.inr ⟨rfl, hv, p, rfl, prepareAdd_entries hinv hp⟩⟩

/-- **An add answers 0 and adds exactly its rule, or changes no rule.** -/
theorem ipaNATIAddIpv4Rule_spec {env : Env} {w : Drv} {tblHdl : ℕ} {nmi : MemIn}
    {tbl : Ip4Tbl d} {g : PairGhost} (hh : IsTblHdl tblHdl nmi)
    (ht : (w.natCache nmi).ip4Tbl = some ⟨d, tbl⟩) (hinv : PairInv tbl g)
    (clnt : Ipv4Rule) {ret : ℤ} {out : Option ℕ} {w' : Drv}
    (h : ipaNATIAddIpv4Rule env w tblHdl clnt = (ret, out, w')) :
    w.SameBut nmi w' ∧ ∃ tbl' g', (w'.natCache nmi).ip4Tbl = some ⟨d, tbl'⟩ ∧ PairInv tbl' g' ∧
      SameLayout tbl.table tbl'.table ∧
      (ret ≠ 0 ∧ out = some 0 ∧ g' = g ∧ tbl'.liveAt = tbl.liveAt ∨
        ret = 0 ∧ ∃ i, out = some (makeEntryHdl tbl.table i) ∧
          RuleAdded env w clnt tbl tbl' g g' i) := by
  obtain ⟨hsame, tbl', ht', ⟨hret, hout, htables, hres, hlay⟩ | ⟨hret, hv, p, hout, hdone⟩⟩ :=
    ipaNATIAddIpv4Rule_cases hh ht hinv.tables h
  · obtain ⟨hinv', hlive⟩ := hinv.restored htables hres
    exact ⟨hsame, tbl', g, ht', hinv', hlay, Or.inl ⟨hret, hout, rfl, hlive⟩⟩
  · obtain ⟨g', hinv', hroot, hsrc, hfree, hlive⟩ := hinv.add (clntRuleValid_iff.1 hv).1 hdone
    obtain ⟨hn0, hnb⟩ := newEntryIndex_bounds env d w.pdns w.hashToken clnt
    obtain ⟨-, hlt, hne, -⟩ := hdone.nat.slot hinv.nat hnb hn0.ne'
    exact ⟨hsame, tbl', g', ht', hinv', hdone.natLayout, Or.inr ⟨hret, _,
      hout.trans (congrArg some hdone.handle), hlt, hne, hv, hfree, hlive, hroot, hsrc⟩⟩

/-! ## Deleting -/

/-- **A delete of a live rule answers 0 exactly when its command is posted.** -/
theorem ipaNATIDelIpv4Rule_spec {env : Env} {w : Drv} {tblHdl : ℕ} {nmi : MemIn}
    {tbl : Ip4Tbl d} {g : PairGhost} (hh : IsTblHdl tblHdl nmi)
    (ht : (w.natCache nmi).ip4Tbl = some ⟨d, tbl⟩) (hinv : PairInv tbl g)
    {hdl i : ℕ} (hget : ipaTableGetEntry d hdl = .ok i) (hl : (tbl.natRec i).live) {ret : ℤ}
    {w' : Drv} (h : ipaNATIDelIpv4Rule env w tblHdl hdl = (ret, w')) :
    w.SameBut nmi w' ∧
      (env.io w.calls = true ∧ ret = 0 ∧
          (w'.natCache nmi).ip4Tbl = some ⟨d, tbl.delete i⟩ ∨
        env.io w.calls = false ∧ ret ≠ 0 ∧ (w'.natCache nmi).ip4Tbl =
          some ⟨d, { tbl with table := natRepaired tbl (tbl.natRec i).indxTblEntry }⟩) := by
  obtain ⟨p, hp, hdone⟩ := prepareDel_ok hinv.tables hget (Ip4Tbl.occ_of_live hl)
    (hinv.rule_entry i hl).1
  rw [← hh.ip4TblAt] at ht
  simp only [ipaNATIDelIpv4Rule, hh.breaks, ht, hp, ipaNatiPostIpv4DmaCmd, sysCall] at h
  have hsame := w.calls_sameBut nmi (w.calls + 1)
  cases hio : env.io w.calls
  · simp only [hio, eio, Int.reduceNeg, Prod.mk.injEq] at h
    obtain ⟨rfl, rfl⟩ := h
    exact ⟨hsame.trans (Drv.setIp4Tbl_sameBut ..), Or.inr ⟨rfl, by decide,
      Drv.setIp4Tbl_ip4Tbl ..⟩⟩
  · simp only [hio, Prod.mk.injEq, hdone] at h
    obtain ⟨rfl, rfl⟩ := h
    exact ⟨hsame.trans ((Drv.setIp4Tbl_sameBut ..).trans (Drv.setIp4Tbl_sameBut ..)),
      Or.inl ⟨rfl, rfl, Drv.setIp4Tbl_ip4Tbl ..⟩⟩

/-! ## Whole tables -/

theorem ipaNATIClearIpv4Tbl_spec {w : Drv} {tblHdl : ℕ} {nmi : MemIn} {tbl : Ip4Tbl d}
    (hh : IsTblHdl tblHdl nmi) (ht : (w.natCache nmi).ip4Tbl = some ⟨d, tbl⟩) {ret : ℤ} {w' : Drv}
    (h : ipaNATIClearIpv4Tbl w tblHdl = (ret, w')) :
    (w.natCache nmi).tableCnt = 0 ∧ ret ≠ 0 ∧ w' = w ∨
      (w.natCache nmi).tableCnt ≠ 0 ∧ ret = 0 ∧ w' = w.setIp4Tbl nmi (clearIp4Tbl tbl) := by
  rw [← hh.ip4TblAt] at ht
  simp only [ipaNATIClearIpv4Tbl, hh.breaks, ht] at h
  split at h
  · next hc =>
    obtain ⟨rfl, rfl⟩ := Prod.mk.inj h
    exact Or.inl ⟨hc, by decide, rfl⟩
  · next hc =>
    obtain ⟨rfl, rfl⟩ := Prod.mk.inj h
    exact Or.inr ⟨hc, rfl, rfl⟩

theorem openDesc_frame (env : Env) (w : Drv) (nmi : MemIn) :
    (∀ m, m ≠ nmi → (openDesc env w nmi).2.natCache m = w.natCache m) ∧
      (openDesc env w nmi).2.pdns = w.pdns := by
  unfold openDesc sysCall
  split
  · exact ⟨fun _ _ => rfl, rfl⟩
  · split
    · next h =>
      obtain ⟨-, rfl⟩ := Prod.mk.inj h
      exact ⟨fun m hm => by rw [Drv.natCache_setNatCache_of_ne hm, Drv.natCache_calls],
        by rw [Drv.setNatCache_pdns]⟩
    · next h =>
      obtain ⟨-, rfl⟩ := Prod.mk.inj h
      exact ⟨fun m _ => by rw [Drv.natCache_calls], rfl⟩

theorem ipaTableCalculateEntriesNum_error {n : ℕ} {nmi : MemIn} {e : ℤ}
    (h : ipaTableCalculateEntriesNum n nmi = .error e) : e ≠ 0 := by
  unfold ipaTableCalculateEntriesNum at h
  split at h
  · cases h
    decide
  · split at h
    · cases h
      decide
    · cases h

/-- A table that has been created is a fresh one, under the handle of its memory. -/
theorem ipaNATIAddIpv4Tbl_spec {env : Env} {w : Drv} {nmi : MemIn} {publicIpAddr : UInt32}
    {n hdl : ℕ} {w' : Drv}
    (h : ipaNATIAddIpv4Tbl env w nmi publicIpAddr n = (0, hdl, w')) :
    hdl = makeTblHdl 1 nmi ∧ ∃ d, ipaTableCalculateEntriesNum n nmi = .ok d ∧
      w'.natCache nmi = ⟨true, 1, some ⟨d, freshIp4Tbl d nmi publicIpAddr env.addrOffset⟩⟩ ∧
      (∀ m, m ≠ nmi → w'.natCache m = w.natCache m) ∧
      w'.pdns = w.pdns.modify 0 (fun p => { p with publicIp := publicIpAddr }) ∧
      w'.numPdns = 1 := by
  unfold ipaNATIAddIpv4Tbl at h
  generalize makeTblHdl 1 nmi = H at h ⊢
  obtain ⟨hother, hpdns⟩ := openDesc_frame env w nmi
  split at h
  · cases h
  rcases hopen : openDesc env w nmi with ⟨_ | _, w₁⟩
  · simp only [hopen] at h
    cases h
  rw [hopen] at hother hpdns
  simp only [hopen, ipaNatiCreateTable, sysCall, ipaNatiPostIpv4InitCmd] at h
  cases hd : ipaTableCalculateEntriesNum n nmi with
  | error e =>
    simp only [hd, Prod.mk.injEq] at h
    exact absurd h.1 (ipaTableCalculateEntriesNum_error hd)
  | ok d =>
    simp only [hd] at h
    cases h₁ : env.io w₁.calls
    · simp only [h₁] at h
      cases h
    cases h₂ : env.io (w₁.calls + 1)
    · simp only [h₁, h₂] at h
      cases h
    simp only [h₁, h₂, Prod.mk.injEq, true_and] at h
    obtain ⟨rfl, rfl⟩ := h
    refine ⟨rfl, d, rfl, Drv.natCache_setNatCache_self .., fun m hm => ?_, ?_, ?_⟩
    · rw [Drv.natCache_setNatCache_of_ne hm, ← hother m hm]
      cases m <;> rfl
    · rw [Drv.setNatCache_pdns, ← hpdns]
    · cases nmi <;> rfl

end Sm8850.Ipanat
