/-
  What the generic table operations do.

  * `Table.links`: a table as a set of chained slots.
  * `TableInv`: the chains, the counters and the cleared free slots.
  * `findExpnTblFreeEntry_ok`, `ipaTableIteratorEnd_ok`: the two searches.
  * `TableInv.insertHead` and its companions: one link operation keeps the
    invariant.
-/
import Sm8850.Ipanat.Drvi

namespace Sm8850.Ipanat

open Lib

section Generic
variable {d : Dims} {ρ υ : Type} {I : EntryInterface ρ υ}

/-! ## Records -/

theorem Table.gotoRec_modifyRec (t : Table d ρ) (i j : ℕ) (f : ρ → ρ) (hj : j < d.totTblEnts) :
    (t.modifyRec j f).gotoRec I i = if i = j then f (t.gotoRec I i) else t.gotoRec I i := by
  simp only [gotoRec, modifyRec, List.getD_eq_getElem?_getD, List.getElem?_modify]
  rcases eq_or_ne i j with rfl | hne
  · have : i < t.recs.length := t.len.symm ▸ hj
    simp [this]
  · simp [hne, hne.symm]

section Fields
variable (t : Table d ρ) (i c : ℕ) (f : ρ → ρ) (m : Option (List ℕ))

@[simp] theorem Table.gotoRec_setTblCnt : (t.setTblCnt c).gotoRec I i = t.gotoRec I i := rfl
@[simp] theorem Table.gotoRec_setExpnTblCnt :
    (t.setExpnTblCnt c).gotoRec I i = t.gotoRec I i := rfl
@[simp] theorem Table.gotoRec_setMeta : (t.setMeta m).gotoRec I i = t.gotoRec I i := rfl
@[simp] theorem Table.setTblCnt_curTblCnt : (t.setTblCnt c).curTblCnt = c := rfl
@[simp] theorem Table.setTblCnt_curExpnTblCnt :
    (t.setTblCnt c).curExpnTblCnt = t.curExpnTblCnt := rfl
@[simp] theorem Table.setTblCnt_tblMeta : (t.setTblCnt c).tblMeta = t.tblMeta := rfl
@[simp] theorem Table.setTblCnt_addrOffset : (t.setTblCnt c).addrOffset = t.addrOffset := rfl
@[simp] theorem Table.setTblCnt_nmi : (t.setTblCnt c).nmi = t.nmi := rfl
@[simp] theorem Table.setExpnTblCnt_curTblCnt :
    (t.setExpnTblCnt c).curTblCnt = t.curTblCnt := rfl
@[simp] theorem Table.setExpnTblCnt_curExpnTblCnt : (t.setExpnTblCnt c).curExpnTblCnt = c := rfl
@[simp] theorem Table.setExpnTblCnt_tblMeta : (t.setExpnTblCnt c).tblMeta = t.tblMeta := rfl
@[simp] theorem Table.setExpnTblCnt_addrOffset :
    (t.setExpnTblCnt c).addrOffset = t.addrOffset := rfl
@[simp] theorem Table.setExpnTblCnt_nmi : (t.setExpnTblCnt c).nmi = t.nmi := rfl
@[simp] theorem Table.setMeta_curTblCnt : (t.setMeta m).curTblCnt = t.curTblCnt := rfl
@[simp] theorem Table.setMeta_curExpnTblCnt : (t.setMeta m).curExpnTblCnt = t.curExpnTblCnt := rfl
@[simp] theorem Table.setMeta_tblMeta : (t.setMeta m).tblMeta = m := rfl
@[simp] theorem Table.setMeta_addrOffset : (t.setMeta m).addrOffset = t.addrOffset := rfl
@[simp] theorem Table.setMeta_nmi : (t.setMeta m).nmi = t.nmi := rfl
@[simp] theorem Table.modifyRec_curTblCnt : (t.modifyRec i f).curTblCnt = t.curTblCnt := rfl
@[simp] theorem Table.modifyRec_curExpnTblCnt :
    (t.modifyRec i f).curExpnTblCnt = t.curExpnTblCnt := rfl
@[simp] theorem Table.modifyRec_tblMeta : (t.modifyRec i f).tblMeta = t.tblMeta := rfl
@[simp] theorem Table.modifyRec_addrOffset : (t.modifyRec i f).addrOffset = t.addrOffset := rfl
@[simp] theorem Table.modifyRec_nmi : (t.modifyRec i f).nmi = t.nmi := rfl

end Fields

/-- A 16-bit field of one record, written in place. -/
def Table.writeField (I : EntryInterface ρ υ) (t : Table d ρ) (ht : DmaHelpType) (i data : ℕ) :
    Table d ρ :=
  t.modifyRec i fun r => I.write16 r (I.fieldOffset ht) data

theorem Table.gotoRec_writeField (t : Table d ρ) (ht : DmaHelpType) (k i data : ℕ)
    (hi : i < d.totTblEnts) : (t.writeField I ht i data).gotoRec I k =
      if k = i then I.write16 (t.gotoRec I k) (I.fieldOffset ht) data else t.gotoRec I k :=
  t.gotoRec_modifyRec k i _ hi

/-- A slot beyond the table reads as cleared. -/
theorem Table.gotoRec_of_ge (t : Table d ρ) {i : ℕ} (hi : d.totTblEnts ≤ i) :
    t.gotoRec I i = I.zero := by
  rw [gotoRec, List.getD_eq_getElem?_getD, List.getElem?_eq_none (by rw [t.len]; exact hi)]
  rfl

/-- A table as a set of chained slots. -/
def Table.links (I : EntryInterface ρ υ) (t : Table d ρ) : Links ℕ where
  occ i := I.entryIsValid (t.gotoRec I i) = true
  next i := I.entryGetNextIndex (t.gotoRec I i)
  prev i := I.entryGetPrevIndex (t.gotoRec I i) i t.tblMeta d.tableEntries

instance (t : Table d ρ) : DecidablePred (t.links I).occ :=
  fun i => inferInstanceAs (Decidable (I.entryIsValid (t.gotoRec I i) = true))

/-- A record with its next field written by a DMA command. -/
def EntryInterface.setNext (I : EntryInterface ρ υ) (r : ρ) (next : ℕ) : ρ :=
  I.write16 r (I.fieldOffset .updateEntry) next

/-- What both record kinds promise: a cleared record is free, and a write to the
    next field writes nothing else. -/
class LawfulInterface (I : EntryInterface ρ υ) : Prop where
  zero_free : I.entryIsValid I.zero = false
  setNext_valid : ∀ r x, I.entryIsValid (I.setNext r x) = I.entryIsValid r
  setNext_next : ∀ r x, I.entryGetNextIndex (I.setNext r x) = x
  setNext_prev : ∀ r x i m b, I.entryGetPrevIndex (I.setNext r x) i m b =
    I.entryGetPrevIndex r i m b
  setPrev_other : ∀ r r' i k p m b, k ≠ i →
    I.entryGetPrevIndex r k (I.entrySetPrevIndex r' i p m b).2 b = I.entryGetPrevIndex r k m b
  fieldOffset_lt : ∀ ht, I.fieldOffset ht < I.entrySize

attribute [simp] LawfulInterface.zero_free LawfulInterface.setNext_valid
  LawfulInterface.setNext_next LawfulInterface.setNext_prev

theorem Table.lt_of_occ [LawfulInterface I] (t : Table d ρ) {i : ℕ} (hi : (t.links I).occ i) :
    i < d.totTblEnts := by
  by_contra hc
  have hz : t.gotoRec I i = I.zero := t.gotoRec_of_ge (not_lt.1 hc)
  simp only [links, hz, LawfulInterface.zero_free] at hi
  exact Bool.false_ne_true hi

/-- The number of occupied base slots. -/
def Table.baseOccupied (I : EntryInterface ρ υ) (t : Table d ρ) : ℕ :=
  ((Finset.range d.tableEntries).filter (t.links I).occ).card

/-- The number of occupied expansion slots. -/
def Table.expnOccupied (I : EntryInterface ρ υ) (t : Table d ρ) : ℕ :=
  ((Finset.Ico d.tableEntries d.totTblEnts).filter (t.links I).occ).card

/-- The invariant of one table: its chains, with their ghosts, its two counters, and
    free slots that are cleared. -/
structure TableInv (I : EntryInterface ρ υ) (t : Table d ρ) (root rank : ℕ → ℕ) : Prop where
  chained : Chained 0 (· < d.tableEntries) (t.links I) root rank
  tblCnt : t.curTblCnt = t.baseOccupied I
  expnCnt : t.curExpnTblCnt = t.expnOccupied I
  clean : ∀ i, ¬ (t.links I).occ i → t.gotoRec I i = I.zero

/-! ## The two searches -/

theorem walkLoop_mtSlot (t : Table d ρ) (n i : ℕ) (hi : 0 < i) :
    (∃ f : ℕ, (walkLoop I t .slotEmpty mtSlot n i ()).1 = f ∧ i ≤ f ∧ f < i + n ∧
        ¬ (t.links I).occ f ∧ ∀ j, i ≤ j → j < f → (t.links I).occ j) ∨
      ((walkLoop I t .slotEmpty mtSlot n i ()).1 = 0 ∧
        ∀ j, i ≤ j → j < i + n → (t.links I).occ j) := by
  induction n generalizing i with
  | zero => exact Or.inr ⟨rfl, fun j h₁ h₂ => by omega⟩
  | succ n ih =>
    by_cases hv : I.entryIsValid (t.gotoRec I i) = true
    · have hstep : walkLoop I t .slotEmpty mtSlot (n + 1) i () =
          walkLoop I t .slotEmpty mtSlot n (i + 1) () := by
        simp [walkLoop, hv]
      rw [hstep]
      have hocc : ∀ j, i ≤ j → (j = i ∨ i + 1 ≤ j) := fun j hj => by omega
      rcases ih (i + 1) (by omega) with ⟨f, h₁, h₂, h₃, h₄, h₅⟩ | ⟨h₁, h₂⟩
      · refine Or.inl ⟨f, h₁, by omega, by omega, h₄, fun j hj hf => ?_⟩
        rcases hocc j hj with rfl | hj'
        exacts [hv, h₅ j hj' hf]
      · refine Or.inr ⟨h₁, fun j hj hn => ?_⟩
        rcases hocc j hj with rfl | hj'
        exacts [hv, h₂ j hj' (by omega)]
    · refine Or.inl ⟨i, ?_, le_rfl, by omega, hv, fun j h₁ h₂ => by omega⟩
      have hret : ((i : ℤ) = 0) = False := by simp; omega
      unfold walkLoop
      simp only [hv]
      simp only [Bool.false_eq_true, if_false, if_true, mtSlot, walkArgs]
      split
      · next h =>
        simp only [Prod.mk.injEq, hret, false_and] at h
      · next h => simp_all

/-- `FindExpnTblFreeEntry` returns the first free expansion slot. -/
theorem findExpnTblFreeEntry_ok {t : Table d ρ} {f : ℕ} :
    findExpnTblFreeEntry I t = .ok f →
      d.tableEntries ≤ f ∧ f < d.totTblEnts ∧ ¬ (t.links I).occ f ∧
        ∀ j, d.tableEntries ≤ j → j < f → (t.links I).occ j := by
  have hb := d.two_le_base
  have hlt := d.tableEntries_lt_tot
  unfold findExpnTblFreeEntry ipaTableWalk
  simp only [not_le.2 hlt, if_false]
  rcases walkLoop_mtSlot (I := I) t (d.totTblEnts - d.tableEntries) d.tableEntries (by omega) with
    ⟨g, h₁, h₂, h₃, h₄, h₅⟩ | ⟨h₁, h₂⟩
  · simp only [h₁, gt_iff_lt, Nat.cast_pos, Int.toNat_natCast]
    intro h
    rw [if_pos (by omega), Except.ok.injEq] at h
    subst h
    exact ⟨h₂, by omega, h₄, h₅⟩
  · simp only [h₁, gt_iff_lt, lt_irrefl, if_false]
    intro h
    cases h

/-- It fails exactly when every expansion slot is taken. -/
theorem findExpnTblFreeEntry_error {t : Table d ρ} :
    (∀ f, findExpnTblFreeEntry I t ≠ .ok f) ↔
      ∀ j, d.tableEntries ≤ j → j < d.totTblEnts → (t.links I).occ j := by
  have hb := d.two_le_base
  have hlt := d.tableEntries_lt_tot
  constructor
  · intro h
    rcases walkLoop_mtSlot (I := I) t (d.totTblEnts - d.tableEntries) d.tableEntries
      (by omega) with ⟨g, h₁, h₂, -⟩ | ⟨h₁, h₂⟩
    · refine absurd ?_ (h g)
      unfold findExpnTblFreeEntry ipaTableWalk
      simp only [not_le.2 hlt, if_false, h₁, gt_iff_lt, Nat.cast_pos,
        Int.toNat_natCast]
      exact if_pos (by omega)
    · exact fun j hj hj' => h₂ j hj (by omega)
  · intro h f hf
    obtain ⟨h₁, h₂, h₃, -⟩ := findExpnTblFreeEntry_ok hf
    exact h₃ (h f h₁ h₂)

/-- The end search follows the path to its last slot. -/
theorem iteratorEndLoop_path (t : Table d ρ) {root rank : ℕ → ℕ}
    (h : Chained 0 (· < d.tableEntries) (t.links I) root rank) (l : List ℕ) {i fuel : ℕ}
    (hp : IsPath 0 (t.links I).next i l) (hi : (t.links I).occ i) (hf : l.length ≤ fuel) :
    ∃ last, iteratorEndLoop I t fuel i = .ok last ∧ (t.links I).occ last ∧
      (t.links I).next last = 0 ∧ root last = root i := by
  induction l generalizing i fuel with
  | nil => exact absurd hi (hp ▸ h.null_free)
  | cons j l ih =>
    obtain ⟨rfl, -, ht⟩ := hp
    obtain ⟨fuel, rfl⟩ : ∃ m, fuel = m + 1 := ⟨fuel - 1, by simp at hf; omega⟩
    by_cases hn : (t.links I).next j = 0
    · refine ⟨j, ?_, hi, hn, rfl⟩
      have hn' : I.entryGetNextIndex (t.gotoRec I j) = 0 := hn
      simp [iteratorEndLoop, hn', validIndex]
    · have hlt := h.rank_next j hi hn
      have hne : (t.links I).next j ≠ j := fun e => by rw [e] at hlt; exact lt_irrefl _ hlt
      obtain ⟨last, h₁, h₂, h₃, h₄⟩ := ih ht (h.next_occ j hi hn)
        (show l.length ≤ fuel by simp at hf; omega)
      refine ⟨last, ?_, h₂, h₃, h₄.trans (h.root_next j hi hn)⟩
      have hn' : I.entryGetNextIndex (t.gotoRec I j) ≠ 0 := hn
      have hne' : I.entryGetNextIndex (t.gotoRec I j) ≠ j := hne
      simp only [iteratorEndLoop, validIndex, hn', hne', ne_eq, not_false_eq_true, decide_true,
        Bool.not_true, Bool.false_eq_true, if_false]
      exact h₁

/-- On a well-formed table `ipa_table_iterator_end` finds the end of every chain. -/
theorem ipaTableIteratorEnd_ok [LawfulInterface I] {t : Table d ρ} {root rank : ℕ → ℕ}
    (h : Chained 0 (· < d.tableEntries) (t.links I) root rank) {i : ℕ}
    (hi : (t.links I).occ i) :
    ∃ last, ipaTableIteratorEnd I t i = .ok last ∧ (t.links I).occ last ∧
      (t.links I).next last = 0 ∧ root last = root i := by
  have hS : ∀ j, (t.links I).occ j → j ∈ Finset.range d.totTblEnts := fun j hj =>
    Finset.mem_range.2 (t.lt_of_occ hj)
  obtain ⟨l, hl⟩ := h.exists_path hS hi
  refine iteratorEndLoop_path t h l hl hi ?_
  have hsub : l.toFinset ⊆ Finset.range d.totTblEnts := fun j hj =>
    hS j ((h.path_facts hl fun _ => hi).1 j (List.mem_toFinset.1 hj)).1
  have hcard := Finset.card_le_card hsub
  rwa [List.toFinset_card_of_nodup (h.path_nodup hl fun _ => hi), Finset.card_range] at hcard

/-! ## Link operations on a table -/

theorem Table.baseOccupied_le (t : Table d ρ) : t.baseOccupied I ≤ 4096 :=
  (Finset.card_filter_le _ _).trans ((Finset.card_range _).trans_le d.base_le)

theorem Table.expnOccupied_le (t : Table d ρ) : t.expnOccupied I ≤ 4096 := by
  refine (Finset.card_filter_le _ _).trans ?_
  rw [Nat.card_Ico, Dims.totTblEnts, Nat.add_sub_cancel_left]
  exact d.expn_le

theorem inc16_eq {c n : ℕ} (h : n = c + 1) (hn : n ≤ 4096) : inc16 c = n := by
  unfold inc16
  split <;> omega

theorem dec16_eq {c n : ℕ} (h : n + 1 = c) (hc : c ≤ 4096) : dec16 c = n := by
  unfold dec16
  split <;> omega

section Step
variable {t t' : Table d ρ} {root rank : ℕ → ℕ} (h : TableInv I t root rank)
  (clean : ∀ i, ¬ (t'.links I).occ i → t'.gotoRec I i = I.zero)

include h clean

/-- A change of records that keeps every link. -/
theorem TableInv.congr (e : (t.links I).Agree (t'.links I)) (hc : t'.curTblCnt = t.curTblCnt)
    (he : t'.curExpnTblCnt = t.curExpnTblCnt) : TableInv I t' root rank := by
  refine ⟨h.chained.congr e, ?_, ?_, clean⟩
  · rw [hc, h.tblCnt]
    exact congrArg Finset.card (Finset.filter_congr fun i _ => e.occ i)
  · rw [he, h.expnCnt]
    exact congrArg Finset.card (Finset.filter_congr fun i _ => e.occ i)

theorem TableInv.insertHead {b : ℕ} (hb : b < d.tableEntries) (h0 : b ≠ 0)
    (hf : ¬ (t.links I).occ b) (e : ((t.links I).insertHead 0 b).Agree (t'.links I))
    (hc : t'.curTblCnt = inc16 t.curTblCnt) (he : t'.curExpnTblCnt = t.curExpnTblCnt) :
    TableInv I t' (Function.update root b b) rank := by
  have hocc : ∀ j, j ≠ b → ((t'.links I).occ j ↔ (t.links I).occ j) := fun j hj =>
    (e.occ j).symm.trans (or_iff_right hj)
  have hbase : t'.baseOccupied I = t.baseOccupied I + 1 :=
    card_filter_insert (Finset.mem_range.2 hb) hf ((e.occ b).1 (Or.inl rfl)) hocc
  refine ⟨(h.chained.insertHead hb h0 hf).congr e, ?_, ?_, clean⟩
  · rw [hc, h.tblCnt]
    exact inc16_eq hbase t'.baseOccupied_le
  · rw [he, h.expnCnt]
    exact (card_filter_off (by simp; omega) hocc).symm

theorem TableInv.insertTail {last f : ℕ} (hl : (t.links I).occ last)
    (hn : (t.links I).next last = 0) (hb : d.tableEntries ≤ f) (ht : f < d.totTblEnts)
    (hf : ¬ (t.links I).occ f) (e : ((t.links I).insertTail 0 last f).Agree (t'.links I))
    (hc : t'.curTblCnt = t.curTblCnt) (he : t'.curExpnTblCnt = inc16 t.curExpnTblCnt) :
    TableInv I t' (Function.update root f (root last))
      (Function.update rank f (rank last + 1)) := by
  have h2 := d.two_le_base
  have hocc : ∀ j, j ≠ f → ((t'.links I).occ j ↔ (t.links I).occ j) := fun j hj =>
    (e.occ j).symm.trans (or_iff_right hj)
  have hexpn : t'.expnOccupied I = t.expnOccupied I + 1 :=
    card_filter_insert (Finset.mem_Ico.2 ⟨hb, ht⟩) hf ((e.occ f).1 (Or.inl rfl)) hocc
  refine ⟨(h.chained.insertTail hl hn (not_lt.2 hb) (by omega) hf).congr e, ?_, ?_, clean⟩
  · rw [hc, h.tblCnt]
    exact (card_filter_off (by simp; omega) hocc).symm
  · rw [he, h.expnCnt]
    exact inc16_eq hexpn t'.expnOccupied_le

theorem TableInv.unlink {i : ℕ} (hi : (t.links I).occ i) (hb : d.tableEntries ≤ i)
    (ht : i < d.totTblEnts) (e : ((t.links I).unlink i).Agree (t'.links I))
    (hc : t'.curTblCnt = t.curTblCnt) (he : t'.curExpnTblCnt = dec16 t.curExpnTblCnt) :
    TableInv I t' root rank := by
  have hocc : ∀ j, j ≠ i → ((t'.links I).occ j ↔ (t.links I).occ j) := fun j hj =>
    (e.occ j).symm.trans (and_iff_right hj)
  have hexpn : t'.expnOccupied I + 1 = t.expnOccupied I :=
    card_filter_erase (Finset.mem_Ico.2 ⟨hb, ht⟩) hi (fun hc => ((e.occ i).2 hc).1 rfl) hocc
  refine ⟨(h.chained.unlink hi (not_lt.2 hb)).congr e, ?_, ?_, clean⟩
  · rw [hc, h.tblCnt]
    exact (card_filter_off (by simp; omega) hocc).symm
  · rw [he, h.expnCnt]
    exact dec16_eq hexpn t.expnOccupied_le

theorem TableInv.removeHead {b : ℕ} (hb : b < d.tableEntries) (hi : (t.links I).occ b)
    (hn : (t.links I).next b = 0) (e : ((t.links I).removeHead b).Agree (t'.links I))
    (hc : t'.curTblCnt = dec16 t.curTblCnt) (he : t'.curExpnTblCnt = t.curExpnTblCnt) :
    TableInv I t' root rank := by
  have hocc : ∀ j, j ≠ b → ((t'.links I).occ j ↔ (t.links I).occ j) := fun j hj =>
    (e.occ j).symm.trans (and_iff_right hj)
  have hbase : t'.baseOccupied I + 1 = t.baseOccupied I :=
    card_filter_erase (Finset.mem_range.2 hb) hi (fun hc => ((e.occ b).2 hc).1 rfl) hocc
  refine ⟨(h.chained.removeHead hb hn).congr e, ?_, ?_, clean⟩
  · rw [hc, h.tblCnt]
    exact dec16_eq hbase t.baseOccupied_le
  · rw [he, h.expnCnt]
    exact (card_filter_off (by simp; omega) hocc).symm

end Step

/-! ## Queued commands -/

/-- The command `ipaTableAddDmaCmd` queues for a slot of the table. -/
def Table.dmaOf (I : EntryInterface ρ υ) (t : Table d ρ) (ht : DmaHelpType) (i data : ℕ) :
    DmaOne where
  tableIndex := t.tableIndx
  baseAddr := if d.tableEntries ≤ i then I.expnTableType else I.tableType
  offset := t.addrOffset + I.fieldOffset ht +
    (if d.tableEntries ≤ i then i - d.tableEntries else i) * I.entrySize
  data := data

theorem ipaTableAddDmaCmd_eq (t : Table d ρ) (ht : DmaHelpType) {i : ℕ} (data : ℕ)
    (cmd : DmaCmd) (hi : i < d.totTblEnts) :
    ipaTableAddDmaCmd I t ht i data cmd = cmd ++ [t.dmaOf I ht i data] := by
  simp [ipaTableAddDmaCmd, not_le.2 hi, ipaTableDmaCmdGenerate, Table.dmaOf]

/-- Carrying a queued command out writes the field it was made for. -/
theorem Table.dmaWrite_dmaOf [LawfulInterface I] {t : Table d ρ} {off : ℕ}
    (ho : t.addrOffset = off) (ht : DmaHelpType) (i data : ℕ) :
    t.dmaWrite I (if d.tableEntries ≤ i then d.tableEntries else 0)
        (off + I.fieldOffset ht +
          (if d.tableEntries ≤ i then i - d.tableEntries else i) * I.entrySize - t.addrOffset)
        data = t.writeField I ht i data := by
  have hlt := LawfulInterface.fieldOffset_lt (I := I) ht
  have hrel : ∀ k, off + I.fieldOffset ht + k * I.entrySize - t.addrOffset =
      I.fieldOffset ht + k * I.entrySize := fun k => by omega
  unfold Table.dmaWrite Table.writeField
  rw [hrel, Nat.add_mul_div_right _ _ (by omega), Nat.add_mul_mod_self_right,
    Nat.div_eq_of_lt hlt, Nat.mod_eq_of_lt hlt]
  congr 1
  split <;> omega

/-! ## Adding an entry -/

/-- The effect of adding an entry at bucket `b`, once its commands are carried out:
    the slot taken, with `R prev` in it.  In a taken bucket the entry goes behind
    the last one. -/
inductive EntryAdded (I : EntryInterface ρ υ) (t t' : Table d ρ) (b : ℕ) (R : ℕ → ρ) :
    ℕ → Prop
  | head (free : ¬ (t.links I).occ b)
      (recs : ∀ k, t'.gotoRec I k = if k = b then R 0 else t.gotoRec I k)
      (prevs : ∀ k, (t.links I).occ k ∨ k = b →
        (t'.links I).prev k = if k = b then 0 else (t.links I).prev k)
      (tblCnt : t'.curTblCnt = inc16 t.curTblCnt)
      (expnCnt : t'.curExpnTblCnt = t.curExpnTblCnt) : EntryAdded I t t' b R b
  | tail {last f : ℕ} (taken : (t.links I).occ b)
      (last_eq : ipaTableIteratorEnd I t b = .ok last)
      (free : findExpnTblFreeEntry I t = .ok f)
      (recs : ∀ k, t'.gotoRec I k =
        if k = f then R last else if k = last then I.setNext (t.gotoRec I last) f
        else t.gotoRec I k)
      (prevs : ∀ k, (t.links I).occ k ∨ k = f →
        (t'.links I).prev k = if k = f then last else (t.links I).prev k)
      (tblCnt : t'.curTblCnt = t.curTblCnt)
      (expnCnt : t'.curExpnTblCnt = inc16 t.curExpnTblCnt) : EntryAdded I t t' b R f

/-- What `ipa_table_add_entry` does directly, and what it queues. -/
theorem ipaTableAddEntry_ok {t : Table d ρ} {u : υ} {b : ℕ} {cmd : DmaCmd} {a : AddEntry d ρ}
    (hb : b < d.totTblEnts)
    (hlast : (t.links I).occ b → ∀ last, ipaTableIteratorEnd I t b = .ok last →
      last < d.totTblEnts)
    (h : ipaTableAddEntry I t u b cmd = .ok a) :
    (¬ (t.links I).occ b ∧ a =
      { table := (t.modifyRec b fun _ => (I.entryHeadInsert (t.gotoRec I b) u).1).setTblCnt
          (inc16 t.curTblCnt)
        recIndex := b
        ruleHdl := makeEntryHdl t b
        cmd := cmd ++ [t.dmaOf I .updateHead b (I.entryHeadInsert (t.gotoRec I b) u).2] }) ∨
    ((t.links I).occ b ∧ ∃ last f, ipaTableIteratorEnd I t b = .ok last ∧
      findExpnTblFreeEntry I t = .ok f ∧ a =
        { table := (setPrevIndex I (t.modifyRec f fun _ =>
              if t.tblMeta.isSome then I.entryTailInsert (t.gotoRec I f) u
              else (I.entryHeadInsert (t.gotoRec I f) u).1) f last).setExpnTblCnt
            (inc16 t.curExpnTblCnt)
          recIndex := f
          ruleHdl := makeEntryHdl t f
          cmd := (if t.tblMeta.isSome then cmd
            else cmd ++ [t.dmaOf I .updateHead f (I.entryHeadInsert (t.gotoRec I f) u).2]) ++
              [t.dmaOf I .updateEntry last f] }) := by
  by_cases hv : I.entryIsValid (t.gotoRec I b) = true
  · refine Or.inr ⟨hv, ?_⟩
    simp only [ipaTableAddEntry, hv, Bool.not_true, Bool.false_eq_true, if_false, insertTail] at h
    cases hend : ipaTableIteratorEnd I t b with
    | error e => rw [hend] at h; cases h
    | ok last =>
      cases hfree : findExpnTblFreeEntry I t with
      | error e => rw [hend, hfree] at h; cases h
      | ok f =>
        obtain ⟨-, hf, -⟩ := findExpnTblFreeEntry_ok hfree
        refine ⟨last, f, rfl, rfl, ?_⟩
        rw [hend, hfree] at h
        cases hm : t.tblMeta.isSome
        · simp only [hm, Bool.false_eq_true, if_false] at h ⊢
          rw [← Except.ok.inj h, ipaTableAddDmaCmd_eq _ _ _ _ (hlast hv last hend),
            ipaTableAddDmaCmd_eq _ _ _ _ hf]
          rfl
        · simp only [hm, if_true] at h ⊢
          rw [← Except.ok.inj h, ipaTableAddDmaCmd_eq _ _ _ _ (hlast hv last hend)]
          rfl
  · refine Or.inl ⟨hv, ?_⟩
    simp only [ipaTableAddEntry, hv, Bool.not_false, if_true, insertHead,
      ipaTableAddDmaCmd_eq _ _ _ _ hb] at h
    exact (Except.ok.inj h).symm

/-- An entry is refused in a taken bucket only: the chain has no end, or no
    expansion slot is free. -/
theorem ipaTableAddEntry_error {t : Table d ρ} {u : υ} {b : ℕ} {cmd : DmaCmd} {ret : ℤ}
    (h : ipaTableAddEntry I t u b cmd = .error ret) : ret ≠ 0 ∧ (t.links I).occ b ∧
      ((∀ last, ipaTableIteratorEnd I t b ≠ .ok last) ∨
        ∀ f, findExpnTblFreeEntry I t ≠ .ok f) := by
  have hend : ∀ fuel i e, iteratorEndLoop I t fuel i = .error e → e ≠ 0 := by
    intro fuel
    induction fuel with
    | zero => intro i e he; cases he; decide
    | succ fuel ih =>
      intro i e he
      simp only [iteratorEndLoop] at he
      split at he
      · cases he
      · split at he
        · cases he; decide
        · exact ih _ e he
  by_cases hv : I.entryIsValid (t.gotoRec I b) = true
  · simp only [ipaTableAddEntry, hv, Bool.not_true, Bool.false_eq_true, if_false, insertTail] at h
    cases hl : ipaTableIteratorEnd I t b with
    | error e =>
      rw [hl] at h
      have : e = ret := Except.error.inj h
      exact ⟨this ▸ hend _ _ _ hl, hv, Or.inl fun last => nofun⟩
    | ok last =>
      cases hf : findExpnTblFreeEntry I t with
      | error e =>
        rw [hl, hf] at h
        have he : e = ret := Except.error.inj h
        refine ⟨he ▸ ?_, hv, Or.inr fun f => nofun⟩
        unfold findExpnTblFreeEntry at hf
        dsimp only at hf
        split at hf
        · cases hf
        · cases hf
          decide
      | ok f =>
        rw [hl, hf] at h
        cases h
  · simp only [ipaTableAddEntry, hv, Bool.not_false, if_true] at h
    cases h

section Added
variable [LawfulInterface I] {t t' : Table d ρ} {root rank : ℕ → ℕ} {b i : ℕ} {R : ℕ → ρ}
  (h : TableInv I t root rank) (a : EntryAdded I t t' b R i) (hb : b < d.tableEntries)
  (h0 : b ≠ 0)

include h a hb h0

/-- Where the new entry goes, and what the other slots keep. -/
theorem EntryAdded.slot : ¬ (t.links I).occ i ∧ i < d.totTblEnts ∧ i ≠ 0 ∧
    (∃ p, t'.gotoRec I i = R p ∧ (t'.links I).prev i = p) ∧
    ∀ k, k ≠ i → t'.gotoRec I k = t.gotoRec I k ∨ ((t.links I).occ k ∧
      t'.gotoRec I k = I.setNext (t.gotoRec I k) i) := by
  have h2 := d.two_le_base
  have hlt := d.tableEntries_lt_tot
  cases a with
  | head free recs prevs tblCnt expnCnt =>
    refine ⟨free, hb.trans hlt, h0, ⟨0, by simp [recs], by simp [prevs]⟩, fun k hk => ?_⟩
    exact Or.inl (by rw [recs, if_neg hk])
  | @tail last f taken last_eq free recs prevs tblCnt expnCnt =>
    obtain ⟨h₁, h₂, h₃, -⟩ := findExpnTblFreeEntry_ok free
    obtain ⟨last', hl, hocc, -, -⟩ := ipaTableIteratorEnd_ok h.chained taken
    obtain rfl : last' = last := by rw [last_eq] at hl; exact (Except.ok.inj hl).symm
    refine ⟨h₃, h₂, by omega, ⟨last', by simp [recs], by simp [prevs]⟩, fun k hk => ?_⟩
    by_cases hkl : k = last'
    · exact Or.inr ⟨hkl ▸ hocc, by rw [recs, if_neg hk, if_pos hkl, hkl]⟩
    · exact Or.inl (by rw [recs, if_neg hk, if_neg hkl])

/-- An add changes the predecessor of no other entry. -/
theorem EntryAdded.prev_keep {k : ℕ} (hk : (t.links I).occ k) :
    (t'.links I).prev k = (t.links I).prev k := by
  obtain ⟨hfree, -⟩ := a.slot h hb h0
  have hki : k ≠ i := fun e => hfree (e ▸ hk)
  cases a with
  | head free recs prevs tblCnt expnCnt => rw [prevs k (Or.inl hk), if_neg hki]
  | tail taken last_eq free recs prevs tblCnt expnCnt => rw [prevs k (Or.inl hk), if_neg hki]

/-- The new entry joins the chain of its bucket. -/
theorem EntryAdded.inv (hvalid : ∀ p, I.entryIsValid (R p) = true)
    (hnext : ∀ p, I.entryGetNextIndex (R p) = 0) :
    ∃ rank', TableInv I t' (Function.update root i b) rank' := by
  cases a with
  | head free recs prevs tblCnt expnCnt =>
    refine ⟨rank, h.insertHead (fun k hk => ?_) hb h0 free ⟨fun k => ?_, fun k hk => ?_,
      fun k hk => ?_⟩ tblCnt expnCnt⟩
    · by_cases hkb : k = b
      · simp [Table.links, recs, hkb, hvalid] at hk
      · rw [recs, if_neg hkb]
        refine h.clean k fun hc => hk ?_
        simpa [Table.links, recs, hkb] using hc
    · by_cases hkb : k = b <;> simp [Links.insertHead, Table.links, recs, hkb, hvalid]
    · by_cases hkb : k = b
      · simp [Links.insertHead, Table.links, recs, hkb, hnext]
      · simp [Links.insertHead, Table.links, recs, hkb]
    · rw [prevs k hk.symm]
      by_cases hkb : k = b <;> simp [Links.insertHead, hkb]
  | @tail last f taken last_eq free recs prevs tblCnt expnCnt =>
    obtain ⟨h₁, h₂, h₃, -⟩ := findExpnTblFreeEntry_ok free
    obtain ⟨last', hl, hocc, hlast, hroot⟩ := ipaTableIteratorEnd_ok h.chained taken
    obtain rfl : last' = last := by rw [last_eq] at hl; exact (Except.ok.inj hl).symm
    have hne : last' ≠ i := fun e => h₃ (e ▸ hocc)
    have hrec : ∀ k, k ≠ i → (t'.links I).occ k = (t.links I).occ k := fun k hk => by
      rcases eq_or_ne k last' with rfl | hkl
      · simp [Table.links, recs, hk]
      · simp [Table.links, recs, hk, hkl]
    have hi : (t'.links I).occ i := by simp [Table.links, recs, hvalid]
    have hins : TableInv I t' (Function.update root i (root last'))
        (Function.update rank i (rank last' + 1)) :=
      h.insertTail (fun k hk => ?_) hocc hlast h₁ h₂ h₃
      ⟨fun k => ?_, fun k hk => ?_, fun k hk => ?_⟩ tblCnt expnCnt
    · rw [hroot, h.chained.root_base b taken hb] at hins
      exact ⟨_, hins⟩
    · have hki : k ≠ i := fun e => hk (e ▸ hi)
      have hkl : k ≠ last' := fun e => hk (by rw [hrec k hki, e]; exact hocc)
      rw [recs, if_neg hki, if_neg hkl]
      exact h.clean k fun hc => hk (by rwa [hrec k hki])
    · rcases eq_or_ne k i with rfl | hki
      · exact iff_of_true (Or.inl rfl) hi
      · rw [hrec k hki]
        exact or_iff_right hki
    · rcases eq_or_ne k i with rfl | hki
      · simp [Links.insertTail, Table.links, recs, hnext]
      · rcases eq_or_ne k last' with rfl | hkl
        · simp [Links.insertTail, Table.links, recs, hki]
        · simp [Links.insertTail, Table.links, recs, hki, hkl]
    · rw [prevs k hk.symm]
      rcases eq_or_ne k i with rfl | hki
      · simp [Links.insertTail]
      · simp [Links.insertTail, hki]

end Added

/-! ## Taking an entry back -/

section Erase
variable (t : Table d ρ) (i : ℕ)

@[simp] theorem eraseEntry_curTblCnt : (ipaTableEraseEntry I t i).curTblCnt =
    if i < d.tableEntries then dec16 t.curTblCnt else t.curTblCnt := by
  unfold ipaTableEraseEntry
  split <;> rfl

@[simp] theorem eraseEntry_curExpnTblCnt : (ipaTableEraseEntry I t i).curExpnTblCnt =
    if i < d.tableEntries then t.curExpnTblCnt else dec16 t.curExpnTblCnt := by
  unfold ipaTableEraseEntry
  split <;> rfl

@[simp] theorem eraseEntry_tblMeta : (ipaTableEraseEntry I t i).tblMeta = t.tblMeta := by
  unfold ipaTableEraseEntry
  split <;> rfl

@[simp] theorem eraseEntry_addrOffset :
    (ipaTableEraseEntry I t i).addrOffset = t.addrOffset := by
  unfold ipaTableEraseEntry
  split <;> rfl

@[simp] theorem eraseEntry_nmi : (ipaTableEraseEntry I t i).nmi = t.nmi := by
  unfold ipaTableEraseEntry
  split <;> rfl

theorem gotoRec_eraseEntry (k : ℕ) (hi : i < d.totTblEnts) :
    (ipaTableEraseEntry I t i).gotoRec I k = if k = i then I.zero else t.gotoRec I k := by
  have h := t.gotoRec_modifyRec (I := I) k i (fun _ => I.zero) hi
  unfold ipaTableEraseEntry
  split <;> simpa using h

end Erase

theorem dec16_inc16 {c : ℕ} (hc : c ≤ 4096) : dec16 (inc16 c) = c := by
  have hi : inc16 c = c + 1 := if_neg (by omega)
  rw [hi]
  exact if_neg (by omega)

/-- An add writes its own slot only, and its predecessor's number for that slot. -/
theorem ipaTableAddEntry_frame [LawfulInterface I] {t : Table d ρ} {u : υ} {b : ℕ} {cmd : DmaCmd}
    {a : AddEntry d ρ} {root rank : ℕ → ℕ} (hinv : TableInv I t root rank)
    (hb : b < d.tableEntries) (h : ipaTableAddEntry I t u b cmd = .ok a) :
    ¬ (t.links I).occ a.recIndex ∧ a.recIndex < d.totTblEnts ∧
      (∀ k, k ≠ a.recIndex → a.table.gotoRec I k = t.gotoRec I k) ∧
      (∀ r k, k ≠ a.recIndex → I.entryGetPrevIndex r k a.table.tblMeta d.tableEntries =
        I.entryGetPrevIndex r k t.tblMeta d.tableEntries) ∧
      (a.recIndex < d.tableEntries ∧ a.table.curTblCnt = inc16 t.curTblCnt ∧
          a.table.curExpnTblCnt = t.curExpnTblCnt ∨
        d.tableEntries ≤ a.recIndex ∧ a.table.curTblCnt = t.curTblCnt ∧
          a.table.curExpnTblCnt = inc16 t.curExpnTblCnt) := by
  have htot := hb.trans d.tableEntries_lt_tot
  have hend : ∀ last, (t.links I).occ b → ipaTableIteratorEnd I t b = .ok last →
      last < d.totTblEnts := fun last hv hl => by
    obtain ⟨last', h₁, h₂, -⟩ := ipaTableIteratorEnd_ok hinv.chained hv
    rw [hl] at h₁
    exact Except.ok.inj h₁ ▸ t.lt_of_occ h₂
  rcases ipaTableAddEntry_ok htot (fun hv last hl => hend last hv hl) h with
    ⟨free, rfl⟩ | ⟨taken, last, f, hl, hf, rfl⟩
  · refine ⟨free, htot, fun k hk => ?_, fun r k hk => rfl, Or.inl ⟨hb, rfl, rfl⟩⟩
    rw [Table.gotoRec_setTblCnt, Table.gotoRec_modifyRec _ _ _ _ htot, if_neg hk]
  · obtain ⟨h₁, h₂, h₃, -⟩ := findExpnTblFreeEntry_ok hf
    refine ⟨h₃, h₂, fun k hk => ?_, fun r k hk => ?_, Or.inr ⟨h₁, rfl, rfl⟩⟩
    · simp only [Table.gotoRec_setExpnTblCnt, setPrevIndex, Table.gotoRec_setMeta,
        Table.gotoRec_modifyRec _ _ _ _ h₂, if_neg hk]
    · exact LawfulInterface.setPrev_other r _ f k last _ _ hk

/-- A table as it was: the same records, links and counters.  What the side metadata
    says of free slots may differ. -/
structure Table.Restored (I : EntryInterface ρ υ) (t t' : Table d ρ) : Prop where
  recs : ∀ k, t'.gotoRec I k = t.gotoRec I k
  links : (t.links I).Agree (t'.links I)
  tblCnt : t'.curTblCnt = t.curTblCnt
  expnCnt : t'.curExpnTblCnt = t.curExpnTblCnt

theorem Table.Restored.refl (t : Table d ρ) : Table.Restored I t t :=
  ⟨fun _ => rfl, Links.Agree.refl _, rfl, rfl⟩

theorem TableInv.restored {t t' : Table d ρ} {root rank : ℕ → ℕ} (hinv : TableInv I t root rank)
    (h : Table.Restored I t t') : TableInv I t' root rank :=
  hinv.congr (fun k hk => by
    rw [h.recs k]
    exact hinv.clean k fun hc => hk ((h.links.occ k).1 hc)) h.links h.tblCnt h.expnCnt

/-- **Erasing an entry that was only prepared restores the table.** -/
theorem TableInv.undo [LawfulInterface I] {t : Table d ρ} (t' : Table d ρ) {u : υ} {b : ℕ}
    {cmd : DmaCmd}
    {a : AddEntry d ρ} {root rank : ℕ → ℕ} (hinv : TableInv I t root rank)
    (hb : b < d.tableEntries) (h : ipaTableAddEntry I t u b cmd = .ok a)
    (hrec : ∀ k, k ≠ a.recIndex → t'.gotoRec I k = a.table.gotoRec I k)
    (hm : t'.tblMeta = a.table.tblMeta) (hc : t'.curTblCnt = a.table.curTblCnt)
    (he : t'.curExpnTblCnt = a.table.curExpnTblCnt) :
    Table.Restored I t (ipaTableEraseEntry I t' a.recIndex) := by
  obtain ⟨free, hlt, frame, hprev, hcnt⟩ := ipaTableAddEntry_frame hinv hb h
  have hgoto : ∀ k, (ipaTableEraseEntry I t' a.recIndex).gotoRec I k = t.gotoRec I k := by
    intro k
    rw [gotoRec_eraseEntry _ _ _ hlt]
    split
    · next e => rw [e, hinv.clean _ free]
    · next e => rw [hrec k e, frame k e]
  have hbase := t.baseOccupied_le (I := I)
  have hexpn := t.expnOccupied_le (I := I)
  rw [← hinv.tblCnt] at hbase
  rw [← hinv.expnCnt] at hexpn
  refine ⟨hgoto, ⟨fun k => ?_, fun k hk => ?_, fun k hk => ?_⟩, ?_, ?_⟩
  · simp only [Table.links, hgoto]
  · simp only [Table.links, hgoto]
  · have hne : k ≠ a.recIndex := fun e => free (e ▸ hk)
    simp only [Table.links, hgoto, eraseEntry_tblMeta, hm]
    exact (hprev _ k hne).symm
  · rw [eraseEntry_curTblCnt, hc]
    rcases hcnt with ⟨h₁, h₂, -⟩ | ⟨h₁, h₂, -⟩
    · rw [if_pos h₁, h₂, dec16_inc16 hbase]
    · rw [if_neg (not_lt.2 h₁), h₂]
  · rw [eraseEntry_curExpnTblCnt, he]
    rcases hcnt with ⟨h₁, -, h₂⟩ | ⟨h₁, -, h₂⟩
    · rw [if_pos h₁, h₂]
    · rw [if_neg (not_lt.2 h₁), h₂, dec16_inc16 hexpn]

end Generic

end Sm8850.Ipanat
