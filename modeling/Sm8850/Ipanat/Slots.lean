/-
  What the calls on one table do to its slots, failed calls included.

  * `SameSlots`, `SlotTaken`, `SlotFreed`: which slots hold live rules, before and
    after.
  * `LooseInv.addSlots`, `LooseInv.delSlots`: an add takes one free slot or none, a
    delete frees the slot it names or none.
  * `prepareAdd_of_room`: with an expansion slot free in both tables, no rule lacks a
    slot, whatever its hashes are.
-/
import Sm8850.Ipanat.FailedCalls

namespace Sm8850.Ipanat

open Lib

variable {d : Dims}

/-! ## Slots before and after -/

/-- The same slots hold live rules, under the same handles. -/
structure Ip4Tbl.SameSlots (tbl tbl' : Ip4Tbl d) : Prop where
  nmi : tbl'.table.nmi = tbl.table.nmi
  live : ∀ k, (tbl'.natRec k).live = (tbl.natRec k).live

/-- Slot `i` held no rule and now does. -/
structure Ip4Tbl.SlotTaken (tbl tbl' : Ip4Tbl d) (i : ℕ) : Prop where
  nmi : tbl'.table.nmi = tbl.table.nmi
  lt : i < d.totTblEnts
  free : ¬ (tbl.natRec i).live
  taken : (tbl'.natRec i).live
  keep : ∀ k, k ≠ i → (tbl'.natRec k).live = (tbl.natRec k).live

/-- Slot `i` holds no rule any more. -/
structure Ip4Tbl.SlotFreed (tbl tbl' : Ip4Tbl d) (i : ℕ) : Prop where
  nmi : tbl'.table.nmi = tbl.table.nmi
  gone : ¬ (tbl'.natRec i).live
  keep : ∀ k, k ≠ i → (tbl'.natRec k).live = (tbl.natRec k).live

theorem Ip4Tbl.Restored.sameSlots {tbl tbl' : Ip4Tbl d} (h : tbl.Restored tbl')
    (hl : SameLayout tbl.table tbl'.table) : tbl.SameSlots tbl' :=
  ⟨hl.nmi, fun k => congrArg NatRule.live (h.nat.recs k)⟩

/-- At most `m` expansion slots of either table are taken. -/
structure Ip4Tbl.ExpnAtMost (tbl : Ip4Tbl d) (m : ℕ) : Prop where
  nat : tbl.table.expnOccupied entryInterface ≤ m
  indx : tbl.indexTable.expnOccupied indexEntryInterface ≤ m

section Added
variable {ρ υ : Type} {I : EntryInterface ρ υ} [LawfulInterface I] {t t' : Table d ρ}
  {root rank : ℕ → ℕ} {b i : ℕ} {R : ℕ → ρ}

/-- A new entry takes at most one expansion slot. -/
theorem EntryAdded.expnOccupied_le (h : TableInv I t root rank) (a : EntryAdded I t t' b R i)
    (hb : b < d.tableEntries) (h0 : b ≠ 0) : t'.expnOccupied I ≤ t.expnOccupied I + 1 := by
  obtain ⟨-, -, -, -, hother⟩ := a.slot h hb h0
  have hsub : (Finset.Ico d.tableEntries d.totTblEnts).filter (t'.links I).occ ⊆
      insert i ((Finset.Ico d.tableEntries d.totTblEnts).filter (t.links I).occ) := by
    intro k hk
    obtain ⟨hk, hocc⟩ := Finset.mem_filter.1 hk
    rw [Finset.mem_insert, Finset.mem_filter]
    by_cases hki : k = i
    · exact Or.inl hki
    · refine Or.inr ⟨hk, ?_⟩
      rcases hother k hki with he | ⟨hocc', -⟩
      · simpa only [Table.links, he] using hocc
      · exact hocc'
  exact (Finset.card_le_card hsub).trans (Finset.card_insert_le _ _)

omit [LawfulInterface I] in
theorem Table.Restored.expnOccupied {t t' : Table d ρ} (h : Table.Restored I t t') :
    t'.expnOccupied I = t.expnOccupied I :=
  congrArg Finset.card (Finset.filter_congr fun k _ => (h.links.occ k).symm)

/-- With a free expansion slot every bucket takes one more entry. -/
theorem ipaTableAddEntry_of_room (h : TableInv I t root rank)
    (hroom : t.expnOccupied I < d.expnTableEntries) (u : υ) (hb : b < d.tableEntries)
    (h0 : b ≠ 0) (cmd : DmaCmd) :
    ∃ a, ipaTableAddEntry I t u b cmd = .ok a ∧
      ipaTableGetEntryByIndex d a.recIndex = some a.recIndex := by
  cases hadd : ipaTableAddEntry I t u b cmd with
  | error e =>
    obtain ⟨-, hocc, hend | hfull⟩ := ipaTableAddEntry_error hadd
    · obtain ⟨last, hlast, -⟩ := ipaTableIteratorEnd_ok h.chained hocc
      exact absurd hlast (hend last)
    · rw [findExpnTblFreeEntry_error] at hfull
      have hall : t.expnOccupied I = d.expnTableEntries := by
        rw [Table.expnOccupied, Finset.filter_true_of_mem, Nat.card_Ico, Dims.totTblEnts,
          Nat.add_sub_cancel_left]
        intro k hk
        obtain ⟨hk, hk'⟩ := Finset.mem_Ico.1 hk
        exact hfull k hk hk'
      omega
  | ok a =>
    refine ⟨a, rfl, ipaTableGetEntryByIndex_of ?_ (ipaTableAddEntry_frame h hb hadd).2.1⟩
    have hlast : (t.links I).occ b → ∀ last, ipaTableIteratorEnd I t b = .ok last →
        last < d.totTblEnts := fun hv last hl => t.lt_of_occ (h.last_lt hv hl)
    rcases ipaTableAddEntry_ok (hb.trans d.tableEntries_lt_tot) hlast hadd with
      ⟨-, rfl⟩ | ⟨-, last, f, -, hf, rfl⟩
    · exact h0
    · have h2 := d.two_le_base
      have hf' : d.tableEntries ≤ f := (findExpnTblFreeEntry_ok hf).1
      show f ≠ 0
      omega

end Added

/-- **With room in both expansion parts every rule gets its two entries**, whatever
    buckets it hashes to. -/
theorem prepareAdd_of_room {tbl : Ip4Tbl d} {g : PairGhost} (h : TablesInv tbl g) {m : ℕ}
    (hm : tbl.ExpnAtMost m) (hroom : m < d.expnTableEntries) (env : Env) (pdns : List PdnEntry)
    (tok : ℕ) (clnt : Ipv4Rule) : ∃ p, (prepareAdd env pdns tok tbl clnt).2 = .ok p := by
  obtain ⟨hn0, hnb⟩ := newEntryIndex_bounds env d pdns tok clnt
  obtain ⟨hi0, hib⟩ := newIndexTblEntryIndex_bounds d (newEntryIndex env d pdns tok clnt).2 clnt
  obtain ⟨nat, hnat, hget⟩ := ipaTableAddEntry_of_room h.nat (hm.nat.trans_lt hroom) ⟨pdns, clnt⟩
    hnb hn0.ne' []
  obtain ⟨indx, hindx, -⟩ := ipaTableAddEntry_of_room h.indx (hm.indx.trans_lt hroom) nat.recIndex
    hib hi0.ne' nat.cmd
  simp only [prepareAdd, hnat, hindx, hget]
  exact ⟨_, rfl⟩

/-! ## The calls -/

section Calls
variable {w : Drv} {tblHdl : ℕ} {nmi : MemIn} {tbl : Ip4Tbl d} {g : PairGhost}
  (hh : IsTblHdl tblHdl nmi) (ht : (w.natCache nmi).ip4Tbl = some ⟨d, tbl⟩)
  (hinv : LooseInv tbl g)

include hh ht hinv

/-- **An add takes one free slot, or none.** -/
theorem LooseInv.addSlots {env : Env} {clnt : Ipv4Rule} {ret : ℤ} {out : Option ℕ} {w' : Drv}
    (h : ipaNATIAddIpv4Rule env w tblHdl clnt = (ret, out, w')) :
    w.SameBut nmi w' ∧ ∃ tbl' g', (w'.natCache nmi).ip4Tbl = some ⟨d, tbl'⟩ ∧
      LooseInv tbl' g' ∧ (∀ m, tbl.ExpnAtMost m → tbl'.ExpnAtMost (m + 1)) ∧
      (ret ≠ 0 ∧ tbl.SameSlots tbl' ∨ ret = 0 ∧ ∃ i, out = some (makeEntryHdl tbl.table i) ∧
        tbl.SlotTaken tbl' i) := by
  obtain ⟨hsame, tbl', ht', ⟨hret, -, htables, hres, hlay⟩ | ⟨hret, hv, p, hout, hdone⟩⟩ :=
    ipaNATIAddIpv4Rule_cases hh ht hinv.tables h
  · refine ⟨hsame, tbl', g, ht', hinv.restored htables hres, fun m hm => ⟨?_, ?_⟩,
      Or.inl ⟨hret, hres.sameSlots hlay⟩⟩
    · exact hres.nat.expnOccupied.trans_le (hm.nat.trans (Nat.le_succ m))
    · exact hres.indx.expnOccupied.trans_le (hm.indx.trans (Nat.le_succ m))
  · obtain ⟨g', hinv'⟩ := hinv.add (clntRuleValid_iff.1 hv).1 hdone
    obtain ⟨hn0, hnb⟩ := newEntryIndex_bounds env d w.pdns w.hashToken clnt
    obtain ⟨hi0, hib⟩ :=
      newIndexTblEntryIndex_bounds d (newEntryIndex env d w.pdns w.hashToken clnt).2 clnt
    have hf := hdone.frame hinv.tables (clntRuleValid_iff.1 hv).1
    have hnat := hdone.nat.expnOccupied_le hinv.tables.nat hnb hn0.ne'
    have hindx := hdone.indx.expnOccupied_le hinv.tables.indx hib hi0.ne'
    obtain ⟨-, hlt, -⟩ := hdone.nat.slot hinv.tables.nat hnb hn0.ne'
    refine ⟨hsame, tbl', g', ht', hinv', fun m hm => ⟨?_, ?_⟩, Or.inr ⟨hret, p.newEntryIndex,
      hout.trans (congrArg some hdone.handle), hdone.natLayout.nmi, hlt, ?_, hf.live,
      fun k hk => (hf.natKeep k hk).1⟩⟩
    · exact hnat.trans (Nat.succ_le_succ hm.nat)
    · exact hindx.trans (Nat.succ_le_succ hm.indx)
    · exact fun hl => hf.natFree (Ip4Tbl.occ_of_live hl)

/-- **A delete frees the slot it names, or none.** -/
theorem LooseInv.delSlots {env : Env} {hdl : ℕ} {ret : ℤ} {w' : Drv}
    (h : ipaNATIDelIpv4Rule env w tblHdl hdl = (ret, w')) :
    ∃ tbl' g', (w'.natCache nmi).ip4Tbl = some ⟨d, tbl'⟩ ∧ LooseInv tbl' g' ∧
      (ret ≠ 0 ∧ tbl.SameSlots tbl' ∨
        ret = 0 ∧ ∃ i, ipaTableGetEntry d hdl = .ok i ∧ tbl.SlotFreed tbl' i) := by
  by_cases hfree : ∀ i, ipaTableGetEntry d hdl = .ok i → tbl.natLinks.occ i →
      ¬ tbl.indxLinks.occ (tbl.natRec i).indxTblEntry
  · obtain ⟨hret, ht'⟩ := hinv.delRefused hh ht env hfree
    rw [h] at hret ht'
    exact ⟨tbl, g, ht', hinv, Or.inl ⟨hret, rfl, fun _ => rfl⟩⟩
  · push Not at hfree
    obtain ⟨i, hget, hi, hj⟩ := hfree
    have hdel := hinv.delPosted hh ht env hget hi hj
    have hkeep := natRepaired_keeps (hinv.second_rule hj)
    have hlay := (natRepaired_frame tbl (tbl.natRec i).indxTblEntry).2.2.2
    rw [h] at hdel
    split at hdel
    · have hN := hinv.natDeleted hi hj
      refine ⟨_, g, hdel.2, hinv.del hi hj, Or.inr ⟨hdel.1, i, hget, ?_, hN.gone, fun k hk => ?_⟩⟩
      · exact hN.layout.nmi.trans hlay.nmi
      · exact (hN.keep k hk).trans (hkeep k).1
    · exact ⟨_, g, hdel.2, hinv.repaired hj, Or.inl ⟨hdel.1, hlay.nmi, fun k => (hkeep k).1⟩⟩

end Calls

/-- A delete touches the table it works on only. -/
theorem ipaNATIDelIpv4Rule_sameBut (env : Env) {w : Drv} {tblHdl : ℕ} {nmi : MemIn}
    (hh : IsTblHdl tblHdl nmi) (hdl : ℕ) :
    w.SameBut nmi (ipaNATIDelIpv4Rule env w tblHdl hdl).2 := by
  unfold ipaNATIDelIpv4Rule
  simp only [hh.breaks]
  cases ip4TblAt w tblHdl with
  | none => exact .refl ..
  | some s =>
    rcases hp : prepareDel s.2 hdl with ⟨T, e | p⟩
    · simp only [hp]
      exact Drv.setIp4Tbl_sameBut ..
    · simp only [hp, ipaNatiPostIpv4DmaCmd, sysCall]
      have hsame := w.calls_sameBut nmi (w.calls + 1)
      cases env.io w.calls
      · exact hsame.trans (Drv.setIp4Tbl_sameBut ..)
      · exact hsame.trans ((Drv.setIp4Tbl_sameBut ..).trans (Drv.setIp4Tbl_sameBut ..))

end Sm8850.Ipanat
