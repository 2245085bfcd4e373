/-
  The NAT table and its index table together.

  * `liveAt`: the rule a slot of the NAT table holds for its clients, if any.
  * `PairInv`: both tables well formed, live rules and index entries pointing at
    each other, dead heads only in front of a tail.
  * `applyDmaOne_nat`, `applyDmaOne_indx`: a queued command writes one field of one
    table.
-/
import Sm8850.Ipanat.TableSpec

namespace Sm8850.Ipanat

open Lib

variable {d : Dims}

instance : LawfulInterface entryInterface where
  zero_free := rfl
  setNext_valid _ _ := rfl
  setNext_next _ _ := rfl
  setNext_prev _ _ _ _ _ := rfl
  setPrev_other _ _ _ _ _ _ _ _ := rfl
  fieldOffset_lt ht := by cases ht <;> exact of_decide_eq_true rfl

theorem indx_setPrev_other (i k p : ℕ) (m : Option (List ℕ)) (b : ℕ) (h : k ≠ i) :
    indexTableEntryGetPrevIndex k (indexTableEntrySetPrevIndex i p m b) b =
      indexTableEntryGetPrevIndex k m b := by
  unfold indexTableEntryGetPrevIndex indexTableEntrySetPrevIndex
  by_cases hk : b ≤ k
  · by_cases hi : b ≤ i
    · have hne : i - b ≠ k - b := by omega
      cases m <;> simp [hk, hi, List.getD_eq_getElem?_getD, hne]
    · simp [hi]
  · simp [hk]

instance : LawfulInterface indexEntryInterface where
  zero_free := rfl
  setNext_valid _ _ := rfl
  setNext_next _ _ := rfl
  setNext_prev _ _ _ _ _ := rfl
  setPrev_other _ _ i k p m b h := indx_setPrev_other i k p m b h
  fieldOffset_lt ht := by cases ht <;> exact of_decide_eq_true rfl

/-- The record of a NAT slot. -/
abbrev Ip4Tbl.natRec (tbl : Ip4Tbl d) (i : ℕ) : NatRule := tbl.table.gotoRec entryInterface i

/-- The record of an index slot. -/
abbrev Ip4Tbl.indxRec (tbl : Ip4Tbl d) (j : ℕ) : IndxTblRule :=
  tbl.indexTable.gotoRec indexEntryInterface j

abbrev Ip4Tbl.natLinks (tbl : Ip4Tbl d) : Links ℕ := tbl.table.links entryInterface

abbrev Ip4Tbl.indxLinks (tbl : Ip4Tbl d) : Links ℕ := tbl.indexTable.links indexEntryInterface

/-- A live rule: enabled, and not the dead head of a chain. -/
def NatRule.live (r : NatRule) : Bool := r.enable && r.protocol != ipahalNatInvalidProtocol

/-- What a rule says, without where it is kept. -/
def NatRule.content (r : NatRule) : NatRule :=
  { r with nextIndex := 0, prevIndex := 0, indxTblEntry := 0 }

/-- The rule a NAT slot holds for its clients. -/
def Ip4Tbl.liveAt (tbl : Ip4Tbl d) (i : ℕ) : Option NatRule :=
  if (tbl.natRec i).live then some (tbl.natRec i).content else none

/-- The ghosts of both tables. -/
structure PairGhost where
  natRoot : ℕ → ℕ
  natRank : ℕ → ℕ
  indxRoot : ℕ → ℕ
  indxRank : ℕ → ℕ

/-- Both tables well formed, each on its own. -/
structure TablesInv (tbl : Ip4Tbl d) (g : PairGhost) : Prop where
  nat : TableInv entryInterface tbl.table g.natRoot g.natRank
  indx : TableInv indexEntryInterface tbl.indexTable g.indxRoot g.indxRank
  natMeta : tbl.table.tblMeta = none
  indxMeta : ∃ m, tbl.indexTable.tblMeta = some m ∧ m.length = d.expnTableEntries

/-- The invariant of a table pair. -/
structure PairInv (tbl : Ip4Tbl d) (g : PairGhost) : Prop where
  nat : TableInv entryInterface tbl.table g.natRoot g.natRank
  indx : TableInv indexEntryInterface tbl.indexTable g.indxRoot g.indxRank
  natMeta : tbl.table.tblMeta = none
  indxMeta : ∃ m, tbl.indexTable.tblMeta = some m ∧ m.length = d.expnTableEntries
  /-- A live rule names its index entry, which names it. -/
  rule_entry : ∀ i, (tbl.natRec i).live → tbl.indxLinks.occ (tbl.natRec i).indxTblEntry ∧
    (tbl.indxRec (tbl.natRec i).indxTblEntry).tblEntry = i
  /-- An index entry names a live rule, which names it. -/
  entry_rule : ∀ j, tbl.indxLinks.occ j → (tbl.natRec (tbl.indxRec j).tblEntry).live ∧
    (tbl.natRec (tbl.indxRec j).tblEntry).indxTblEntry = j
  /-- A rule that is occupied but not live is a base slot kept for its tail. -/
  dead_head : ∀ i, tbl.natLinks.occ i → ¬ (tbl.natRec i).live →
    i < d.tableEntries ∧ tbl.natLinks.next i ≠ 0

theorem PairInv.tables {tbl : Ip4Tbl d} {g : PairGhost} (h : PairInv tbl g) : TablesInv tbl g :=
  ⟨h.nat, h.indx, h.natMeta, h.indxMeta⟩

/-- The root of the chain that holds a rule's index entry. -/
def PairGhost.srcRoot (g : PairGhost) (tbl : Ip4Tbl d) (i : ℕ) : ℕ :=
  g.indxRoot (tbl.natRec i).indxTblEntry

theorem NatRule.live_iff {r : NatRule} :
    r.live = true ↔ r.enable = true ∧ r.protocol ≠ ipahalNatInvalidProtocol := by
  simp [live]

theorem Ip4Tbl.occ_of_live {tbl : Ip4Tbl d} {i : ℕ} (h : (tbl.natRec i).live) :
    tbl.natLinks.occ i := (NatRule.live_iff.1 h).1

theorem Ip4Tbl.liveAt_eq_some {tbl : Ip4Tbl d} {i : ℕ} {r : NatRule} :
    tbl.liveAt i = some r ↔ (tbl.natRec i).live = true ∧ (tbl.natRec i).content = r := by
  simp [liveAt]

/-! ## Commands on a pair -/

theorem applyDmaOne_nat (tbl : Ip4Tbl d) {t : Table d NatRule}
    (ho : tbl.table.addrOffset = t.addrOffset) (ht : DmaHelpType) (i data : ℕ) :
    applyDmaOne tbl (t.dmaOf entryInterface ht i data) =
      { tbl with table := tbl.table.writeField entryInterface ht i data } := by
  have hw := Table.dmaWrite_dmaOf (I := entryInterface) ho ht i data
  by_cases hi : d.tableEntries ≤ i
  · simp only [hi, if_true] at hw
    simp only [applyDmaOne, Table.dmaOf, hi, if_true]
    exact congrArg (fun t => { tbl with table := t }) hw
  · simp only [hi, if_false] at hw
    simp only [applyDmaOne, Table.dmaOf, hi, if_false]
    exact congrArg (fun t => { tbl with table := t }) hw

theorem applyDmaOne_indx (tbl : Ip4Tbl d) {t : Table d IndxTblRule}
    (ho : tbl.indexTable.addrOffset = t.addrOffset) (ht : DmaHelpType) (i data : ℕ) :
    applyDmaOne tbl (t.dmaOf indexEntryInterface ht i data) =
      { tbl with indexTable := tbl.indexTable.writeField indexEntryInterface ht i data } := by
  have hw := Table.dmaWrite_dmaOf (I := indexEntryInterface) ho ht i data
  by_cases hi : d.tableEntries ≤ i
  · simp only [hi, if_true] at hw
    simp only [applyDmaOne, Table.dmaOf, hi, if_true]
    exact congrArg (fun t => { tbl with indexTable := t }) hw
  · simp only [hi, if_false] at hw
    simp only [applyDmaOne, Table.dmaOf, hi, if_false]
    exact congrArg (fun t => { tbl with indexTable := t }) hw

end Sm8850.Ipanat
