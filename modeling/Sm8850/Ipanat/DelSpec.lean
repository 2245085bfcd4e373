/-
  Deleting a rule (`ipa_NATI_del_ipv4_rule`).

  * `natDelete`, `indxDelete`: what a delete does to each of the two tables, its
    commands carried out.
  * `natDelete_spec`: the four cases of the NAT table (a lone head, a head kept for
    its tail, a member, the last member behind a dead head).
  * `indxDelete_spec`: the index table, where the second entry moves into the head.
  * `PairInv.del`: the pair stays well formed and loses exactly one live rule.
-/
import Sm8850.Ipanat.AddSpec

namespace Sm8850.Ipanat

open Lib

variable {d : Dims}

/-! ## Frames of the small writes -/

section Frames
variable {ρ υ : Type} {I : EntryInterface ρ υ} (t : Table d ρ) (ht : DmaHelpType) (i x : ℕ)

@[simp] theorem Table.writeField_curTblCnt :
    (t.writeField I ht i x).curTblCnt = t.curTblCnt := rfl
@[simp] theorem Table.writeField_curExpnTblCnt :
    (t.writeField I ht i x).curExpnTblCnt = t.curExpnTblCnt := rfl
@[simp] theorem Table.writeField_tblMeta : (t.writeField I ht i x).tblMeta = t.tblMeta := rfl
@[simp] theorem Table.writeField_nmi : (t.writeField I ht i x).nmi = t.nmi := rfl
@[simp] theorem Table.writeField_addrOffset :
    (t.writeField I ht i x).addrOffset = t.addrOffset := rfl
@[simp] theorem setPrevIndex_curTblCnt : (setPrevIndex I t i x).curTblCnt = t.curTblCnt := rfl
@[simp] theorem setPrevIndex_curExpnTblCnt :
    (setPrevIndex I t i x).curExpnTblCnt = t.curExpnTblCnt := rfl
@[simp] theorem setPrevIndex_nmi : (setPrevIndex I t i x).nmi = t.nmi := rfl
@[simp] theorem setPrevIndex_addrOffset : (setPrevIndex I t i x).addrOffset = t.addrOffset := rfl

end Frames

/-! ## The NAT table -/

/-- The iterator `ipa_table_iterator_init` makes for an occupied slot. -/
def Table.iterator {ρ υ : Type} (I : EntryInterface ρ υ) (t : Table d ρ) (i : ℕ) : Iterator :=
  { prevIndex := (t.links I).prev i, currIndex := i, nextIndex := (t.links I).next i }

/-- The NAT table once the delete of `it` has been posted. -/
def natPosted (t : Table d NatRule) (it : Iterator) : Table d NatRule :=
  if ! validIndex it.prevIndex then
    if validIndex it.nextIndex then
      t.writeField entryInterface .deleteHead it.currIndex ipaNatInvalidProtoFieldValue
    else t.writeField entryInterface .updateHead it.currIndex 0
  else t.writeField entryInterface .updateEntry it.prevIndex it.nextIndex

/-- The NAT table after the whole delete. -/
def natDelete (t : Table d NatRule) (it : Iterator) : Table d NatRule :=
  if ! ipaTableIteratorIsHeadWithTail it then
    ipaTableDeleteEntry entryInterface (natPosted t it) it
      (validIndex it.prevIndex &&
        ((natPosted t it).gotoRec entryInterface it.prevIndex).protocol == ipahalNatInvalidProtocol)
  else natPosted t it

/-- What the rest of a NAT table keeps when the rule at `i` goes. -/
structure NatDeleted (t t' : Table d NatRule) (root rank : ℕ → ℕ) (i : ℕ) : Prop where
  inv : TableInv entryInterface t' root rank
  gone : ¬ (t'.gotoRec entryInterface i).live
  keep : ∀ k, k ≠ i → (t'.gotoRec entryInterface k).live = (t.gotoRec entryInterface k).live
  keepRec : ∀ k, (t'.gotoRec entryInterface k).live →
    (t'.gotoRec entryInterface k).indxTblEntry = (t.gotoRec entryInterface k).indxTblEntry ∧
    (t'.gotoRec entryInterface k).content = (t.gotoRec entryInterface k).content
  dead_head : ∀ k, (t'.links entryInterface).occ k → ¬ (t'.gotoRec entryInterface k).live →
    k < d.tableEntries ∧ (t'.links entryInterface).next k ≠ 0
  tblMeta : t'.tblMeta = t.tblMeta
  layout : SameLayout t t'

section Nat
variable {t : Table d NatRule} {root rank : ℕ → ℕ} {i : ℕ}
  (h : TableInv entryInterface t root rank)
  (hd : ∀ k, (t.links entryInterface).occ k → ¬ (t.gotoRec entryInterface k).live →
    k < d.tableEntries ∧ (t.links entryInterface).next k ≠ 0)
  (hl : (t.gotoRec entryInterface i).live)

theorem zero_not_live : ¬ NatRule.zero.live = true := by decide

/-- A base slot has no predecessor, an expansion slot has one. -/
theorem TableInv.prev_eq_zero_iff {ρ υ : Type} {I : EntryInterface ρ υ} {t : Table d ρ}
    {root rank : ℕ → ℕ} (h : TableInv I t root rank) {i : ℕ} (hi : (t.links I).occ i) :
    (t.links I).prev i = 0 ↔ i < d.tableEntries := by
  constructor
  · intro hp
    by_contra hb
    exact h.chained.null_free (hp ▸ h.chained.prev_occ i hi hb)
  · exact fun hb => h.chained.prev_base i hi hb

include h hd

/-- A head with a tail is only marked dead, and a dead head stays what it is. -/
theorem natDelete_headWithTail (hocc : (t.links entryInterface).occ i)
    (hp : (t.links entryInterface).prev i = 0) (hn : (t.links entryInterface).next i ≠ 0) :
    NatDeleted t (natDelete t (t.iterator entryInterface i)) root rank i := by
  have hlt := t.lt_of_occ hocc
  have heq : natDelete t (t.iterator entryInterface i) =
      t.writeField entryInterface .deleteHead i ipaNatInvalidProtoFieldValue := by
    simp [natDelete, natPosted, ipaTableIteratorIsHeadWithTail, Table.iterator, hp, hn, validIndex]
  have hrec : ∀ k, (t.writeField entryInterface .deleteHead i
        ipaNatInvalidProtoFieldValue).gotoRec entryInterface k =
      if k = i then (t.gotoRec entryInterface k).write16 ipaNatRuleProtoFieldOffset
        ipaNatInvalidProtoFieldValue else t.gotoRec entryInterface k :=
    fun k => t.gotoRec_writeField .deleteHead k i _ hlt
  rw [heq]
  have hgone : ¬ ((t.writeField entryInterface .deleteHead i
      ipaNatInvalidProtoFieldValue).gotoRec entryInterface i).live = true := by
    rw [hrec, if_pos rfl, NatRule.live_iff]
    exact fun hc => hc.2 rfl
  have hagree : (t.links entryInterface).Agree ((t.writeField entryInterface .deleteHead i
      ipaNatInvalidProtoFieldValue).links entryInterface) := by
    refine ⟨fun k => ?_, fun k _ => ?_, fun k _ => ?_⟩ <;> simp only [Table.links, hrec] <;>
      split <;> rfl
  refine ⟨h.congr (fun k hk => ?_) hagree rfl rfl, hgone, fun k hk => ?_, fun k hk => ?_,
    fun k hk hdead => ?_, rfl, ⟨rfl, rfl⟩⟩
  · have hki : k ≠ i := fun e => hk ((hagree.occ k).1 (e ▸ hocc))
    rw [hrec, if_neg hki]
    exact h.clean k fun hc => hk ((hagree.occ k).1 hc)
  · rw [hrec, if_neg hk]
  · have hki : k ≠ i := fun e => hgone (e ▸ hk)
    rw [hrec, if_neg hki]
    exact ⟨rfl, rfl⟩
  · rcases eq_or_ne k i with rfl | hki
    · rw [← hagree.next k hocc]
      exact ⟨(h.prev_eq_zero_iff hocc).1 hp, hn⟩
    · have hok := (hagree.occ k).2 hk
      rw [hrec, if_neg hki] at hdead
      rw [← hagree.next k hok]
      exact hd k hok hdead

include hl

/-- A lone head goes. -/
theorem natDelete_loneHead (hp : (t.links entryInterface).prev i = 0)
    (hn : (t.links entryInterface).next i = 0) :
    NatDeleted t (natDelete t (t.iterator entryInterface i)) root rank i := by
  have hocc : (t.links entryInterface).occ i := (NatRule.live_iff.1 hl).1
  have hlt := t.lt_of_occ hocc
  have hb := (h.prev_eq_zero_iff hocc).1 hp
  have heq : natDelete t (t.iterator entryInterface i) =
      ipaTableEraseEntry entryInterface (t.writeField entryInterface .updateHead i 0) i := by
    simp [natDelete, natPosted, ipaTableIteratorIsHeadWithTail, Table.iterator, hp, hn, validIndex,
      ipaTableDeleteEntry]
  have hrec : ∀ k, (ipaTableEraseEntry entryInterface (t.writeField entryInterface .updateHead i 0)
        i).gotoRec entryInterface k =
      if k = i then NatRule.zero else t.gotoRec entryInterface k := fun k => by
    rw [gotoRec_eraseEntry _ _ _ hlt, Table.gotoRec_writeField _ _ _ _ _ hlt]
    split <;> rfl
  rw [heq]
  generalize hT : ipaTableEraseEntry entryInterface (t.writeField entryInterface .updateHead i 0) i
    = T at hrec
  have hm : T.tblMeta = t.tblMeta := by simp [← hT]
  have hagree : ((t.links entryInterface).removeHead i).Agree (T.links entryInterface) := by
    refine ⟨fun k => ?_, fun k hk => ?_, fun k hk => ?_⟩
    · rcases eq_or_ne k i with rfl | hk
      · simp only [Links.removeHead, Table.links, hrec]
        simp [entryInterface, NatRule.zero]
      · simp [Links.removeHead, Table.links, hrec, hk]
    · simp [Links.removeHead, Table.links, hrec, hk.1]
    · simp [Links.removeHead, Table.links, hrec, hk.1, hm]
  refine ⟨h.removeHead (fun k hk => ?_) hb hocc hn hagree (by simp [← hT, hb])
    (by simp [← hT, hb]), ?_, fun k hk => ?_, fun k hk => ?_, fun k hk hdead => ?_, hm,
    ⟨by simp [← hT], by simp [← hT]⟩⟩
  · rw [hrec]
    split
    · rfl
    · next hki => exact h.clean k fun hc => hk ((hagree.occ k).1 ⟨hki, hc⟩)
  · rw [hrec, if_pos rfl]
    exact zero_not_live
  · rw [hrec, if_neg hk]
  · have hki : k ≠ i := fun e => by
      rw [hrec, if_pos e] at hk
      exact zero_not_live hk
    rw [hrec, if_neg hki]
    exact ⟨rfl, rfl⟩
  · obtain ⟨hki, hok⟩ := (hagree.occ k).2 hk
    rw [hrec, if_neg hki] at hdead
    rw [← hagree.next k ⟨hki, hok⟩]
    exact hd k hok hdead

omit h hd hl in
/-- The neighbours of a chain member. -/
theorem TableInv.neighbours {ρ υ : Type} {I : EntryInterface ρ υ} [LawfulInterface I]
    {t : Table d ρ} {root rank : ℕ → ℕ} (h : TableInv I t root rank) {i : ℕ}
    (hi : (t.links I).occ i) (hp : (t.links I).prev i ≠ 0) :
    d.tableEntries ≤ i ∧ (t.links I).occ ((t.links I).prev i) ∧
      (t.links I).next ((t.links I).prev i) = i ∧ (t.links I).prev i ≠ i ∧
      ((t.links I).next i ≠ 0 → (t.links I).occ ((t.links I).next i) ∧
        (t.links I).prev ((t.links I).next i) = i ∧ (t.links I).next i ≠ i ∧
        (t.links I).next i ≠ (t.links I).prev i) := by
  have hb : ¬ i < d.tableEntries := fun hb => hp ((h.prev_eq_zero_iff hi).2 hb)
  have h0 : i ≠ 0 := fun e => h.chained.null_free (e ▸ hi)
  have hpo := h.chained.prev_occ i hi hb
  have hpn := h.chained.next_prev i hi hb
  have hrank := h.chained.rank_next _ hpo (by rw [hpn]; exact h0)
  rw [hpn] at hrank
  refine ⟨not_lt.1 hb, hpo, hpn, fun e => ?_, fun hn => ?_⟩
  · rw [e] at hrank
    exact lt_irrefl _ hrank
  · have hrank' := h.chained.rank_next i hi hn
    refine ⟨h.chained.next_occ i hi hn, h.chained.prev_next i hi hn, fun e => ?_, fun e => ?_⟩
    · rw [e] at hrank'
      exact lt_irrefl _ hrank'
    · rw [e] at hrank'
      exact lt_asymm hrank hrank'

/-- The NAT table with the member `i` unlinked. -/
def natUnlinked (t : Table d NatRule) (i : ℕ) : Table d NatRule :=
  let p := (t.links entryInterface).prev i
  let n := (t.links entryInterface).next i
  let t := t.writeField entryInterface .updateEntry p n
  ipaTableEraseEntry entryInterface (if n = 0 then t else setPrevIndex entryInterface t n p) i

omit h hd hl in
/-- A record with another predecessor. -/
def NatRule.setPrev (r : NatRule) (p : ℕ) : NatRule := { r with prevIndex := p }

omit hd hl in
theorem natUnlinked_rec (hi : (t.links entryInterface).occ i)
    (hp : (t.links entryInterface).prev i ≠ 0) (k : ℕ) :
    (natUnlinked t i).gotoRec entryInterface k =
      if k = i then NatRule.zero
      else if k = (t.links entryInterface).prev i then
        entryInterface.setNext (t.gotoRec entryInterface k) ((t.links entryInterface).next i)
      else if k = (t.links entryInterface).next i ∧ k ≠ 0 then
        (t.gotoRec entryInterface k).setPrev ((t.links entryInterface).prev i)
      else t.gotoRec entryInterface k := by
  obtain ⟨-, hpo, -, hpi, hnx⟩ := h.neighbours hi hp
  have hlt := t.lt_of_occ hi
  have hplt := t.lt_of_occ hpo
  unfold natUnlinked
  dsimp only
  rw [gotoRec_eraseEntry _ _ _ hlt]
  generalize hpe : (t.links entryInterface).prev i = p at *
  generalize hne : (t.links entryInterface).next i = n at *
  have hW : ∀ k, (t.writeField entryInterface .updateEntry p n).gotoRec entryInterface k =
      if k = p then entryInterface.setNext (t.gotoRec entryInterface k) n
      else t.gotoRec entryInterface k := fun k => t.gotoRec_writeField .updateEntry k p n hplt
  rcases eq_or_ne k i with rfl | hki
  · simp only [if_true]
    rfl
  · rw [if_neg hki, if_neg hki]
    rcases eq_or_ne n 0 with rfl | hn0
    · rw [if_pos rfl, hW]
      split
      · rfl
      · rw [if_neg (fun hc => hc.2 hc.1)]
    · obtain ⟨hno, -, -, hnp⟩ := hnx hn0
      rw [if_neg hn0, setPrevIndex_nat, Table.gotoRec_setMeta,
        Table.gotoRec_modifyRec _ _ _ _ (t.lt_of_occ hno)]
      rcases eq_or_ne k n with rfl | hkn
      · rw [if_pos rfl, if_neg hnp, if_pos ⟨rfl, hn0⟩, hW, if_neg hnp]
        rfl
      · rw [if_neg hkn, hW, if_neg (fun hc : k = n ∧ k ≠ 0 => hkn hc.1)]

omit hd hl in
theorem natUnlinked_spec (hi : (t.links entryInterface).occ i)
    (hp : (t.links entryInterface).prev i ≠ 0) :
    TableInv entryInterface (natUnlinked t i) root rank ∧
      ((t.links entryInterface).unlink i).Agree ((natUnlinked t i).links entryInterface) ∧
      (natUnlinked t i).tblMeta = t.tblMeta ∧ SameLayout t (natUnlinked t i) := by
  obtain ⟨hb, hpo, hpn, hpi, hnx⟩ := h.neighbours hi hp
  have hrec := natUnlinked_rec h hi hp
  have hvalid : ∀ k, k ≠ i → ((natUnlinked t i).gotoRec entryInterface k).enable =
      (t.gotoRec entryInterface k).enable := fun k hk => by
    rw [hrec, if_neg hk]
    split_ifs <;> rfl
  have hocc : ∀ k, ((natUnlinked t i).links entryInterface).occ k ↔
      ((natUnlinked t i).gotoRec entryInterface k).enable = true := fun _ => Iff.rfl
  have hagree : ((t.links entryInterface).unlink i).Agree
      ((natUnlinked t i).links entryInterface) := by
    refine ⟨fun k => ?_, fun k hk => ?_, fun k hk => ?_⟩
    · rw [hocc]
      rcases eq_or_ne k i with rfl | hki
      · rw [hrec, if_pos rfl]
        exact iff_of_false (fun hc => hc.1 rfl) (by decide)
      · rw [hvalid k hki]
        exact and_iff_right hki
    · show _ = ((natUnlinked t i).gotoRec entryInterface k).nextIndex
      rw [Links.unlink_next, hrec, if_neg hk.1]
      split_ifs <;> rfl
    · have hk0 : k ≠ 0 := fun e => h.chained.null_free (e ▸ hk.2)
      show _ = ((natUnlinked t i).gotoRec entryInterface k).prevIndex
      rw [Links.unlink_prev, hrec, if_neg hk.1]
      by_cases hkn : k = (t.links entryInterface).next i
      · have hkp : k ≠ (t.links entryInterface).prev i := by
          rw [hkn]
          exact (hnx (hkn ▸ hk0)).2.2.2
        rw [if_pos hkn, if_neg hkp, if_pos ⟨hkn, hk0⟩]
        rfl
      · rw [if_neg hkn, if_neg (fun hc => hkn hc.1 : ¬ (k = _ ∧ k ≠ 0))]
        split_ifs <;> rfl
  have hnb := not_lt.2 hb
  have hm : (natUnlinked t i).tblMeta = t.tblMeta := by
    unfold natUnlinked
    dsimp only
    rw [eraseEntry_tblMeta]
    split <;> rfl
  refine ⟨h.unlink (fun k hk => ?_) hi hb (t.lt_of_occ hi) hagree ?_ ?_, hagree, hm, ⟨?_, ?_⟩⟩
  · rcases eq_or_ne k i with rfl | hki
    · rw [hrec, if_pos rfl]
      rfl
    · have hfree : ¬ (t.links entryInterface).occ k := fun hc =>
        hk ((hagree.occ k).1 ⟨hki, hc⟩)
      have hkp : k ≠ (t.links entryInterface).prev i := fun e => hfree (e ▸ hpo)
      have hkn : ¬ (k = (t.links entryInterface).next i ∧ k ≠ 0) := fun e =>
        hfree (e.1 ▸ (hnx (e.1 ▸ e.2)).1)
      rw [hrec, if_neg hki, if_neg hkp, if_neg hkn]
      exact h.clean k hfree
  all_goals
    unfold natUnlinked
    dsimp only
    simp only [eraseEntry_curTblCnt, eraseEntry_curExpnTblCnt, eraseEntry_addrOffset,
      eraseEntry_nmi, hnb, if_false]
    split <;> rfl

/-- A member with a live or lasting predecessor goes. -/
theorem natUnlinked_deleted (hp : (t.links entryInterface).prev i ≠ 0)
    (hlast : (t.links entryInterface).next i ≠ 0 ∨
      (t.gotoRec entryInterface ((t.links entryInterface).prev i)).live) :
    NatDeleted t (natUnlinked t i) root rank i := by
  have hocc : (t.links entryInterface).occ i := (NatRule.live_iff.1 hl).1
  obtain ⟨hb, hpo, hpn, hpi, hnx⟩ := h.neighbours hocc hp
  obtain ⟨hinv, hagree, hm, hlayout⟩ := natUnlinked_spec h hocc hp
  have hrec := natUnlinked_rec h hocc hp
  have hlive : ∀ k, k ≠ i → ((natUnlinked t i).gotoRec entryInterface k).live =
      (t.gotoRec entryInterface k).live := fun k hk => by
    rw [hrec, if_neg hk]
    split_ifs <;> rfl
  have hgone : ¬ ((natUnlinked t i).gotoRec entryInterface i).live = true := by
    rw [hrec, if_pos rfl]
    exact zero_not_live
  refine ⟨hinv, hgone, hlive, fun k hk => ?_, fun k hk hdead => ?_, hm, hlayout⟩
  · have hki : k ≠ i := fun e => hgone (e ▸ hk)
    rw [hrec, if_neg hki]
    split_ifs <;> exact ⟨rfl, rfl⟩
  · obtain ⟨hki, hok⟩ := (hagree.occ k).2 hk
    rw [hlive k hki] at hdead
    obtain ⟨h₁, h₂⟩ := hd k hok hdead
    refine ⟨h₁, ?_⟩
    rw [← hagree.next k ⟨hki, hok⟩, Links.unlink_next]
    split
    · next e =>
      rcases hlast with hn | hlv
      · exact hn
      · exact absurd (e ▸ hlv) hdead
    · exact h₂

/-- The last member goes together with its dead head. -/
theorem natDelete_lastOfDead (hp : (t.links entryInterface).prev i ≠ 0)
    (hn : (t.links entryInterface).next i = 0)
    (hdead : ¬ (t.gotoRec entryInterface ((t.links entryInterface).prev i)).live)
    {t' : Table d NatRule}
    (ht' : t' = ipaTableEraseEntry entryInterface
      (((t.writeField entryInterface .updateEntry ((t.links entryInterface).prev i) 0).modifyRec
        ((t.links entryInterface).prev i) fun _ => NatRule.zero).setTblCnt
          (dec16 t.curTblCnt)) i) :
    NatDeleted t t' root rank i := by
  have hocc : (t.links entryInterface).occ i := (NatRule.live_iff.1 hl).1
  obtain ⟨hb, hpo, hpn, hpi, -⟩ := h.neighbours hocc hp
  obtain ⟨hinv, hagree, hm, hlayout⟩ := natUnlinked_spec h hocc hp
  obtain ⟨hpb, -⟩ := hd _ hpo hdead
  have hlt := t.lt_of_occ hocc
  have hplt := t.lt_of_occ hpo
  have hrecU := natUnlinked_rec h hocc hp
  generalize hpe : (t.links entryInterface).prev i = p at *
  have hrec : ∀ k, t'.gotoRec entryInterface k =
      if k = i ∨ k = p then NatRule.zero else t.gotoRec entryInterface k := fun k => by
    rw [ht', gotoRec_eraseEntry _ _ _ hlt, Table.gotoRec_setTblCnt,
      Table.gotoRec_modifyRec _ _ _ _ hplt, Table.gotoRec_writeField _ _ _ _ _ hplt]
    by_cases hki : k = i
    · simp only [hki, if_true, true_or]
      rfl
    · rw [if_neg hki]
      by_cases hkp : k = p <;> simp [hki, hkp]
  have hrecU' : ∀ k, k ≠ p → t'.gotoRec entryInterface k =
      (natUnlinked t i).gotoRec entryInterface k := fun k hkp => by
    rw [hrec, hrecU]
    by_cases hki : k = i
    · simp [hki]
    · rw [if_neg (not_or.2 ⟨hki, hkp⟩), if_neg hki, if_neg hkp,
        if_neg (fun hc => hc.2 (hc.1.trans hn))]
  have hgonep : ¬ (t'.links entryInterface).occ p := by
    show ¬ (t'.gotoRec entryInterface p).enable = true
    rw [hrec, if_pos (Or.inr rfl)]
    decide
  have hUp : ((natUnlinked t i).links entryInterface).occ p := (hagree.occ p).1 ⟨hpi, hpo⟩
  have hUn : ((natUnlinked t i).links entryInterface).next p = 0 := by
    rw [← hagree.next p ⟨hpi, hpo⟩, Links.unlink_next, hpe, if_pos rfl, hn]
  have hm' : t'.tblMeta = t.tblMeta := by rw [ht']; simp
  have hag : (((natUnlinked t i).links entryInterface).removeHead p).Agree
      (t'.links entryInterface) := by
    refine ⟨fun k => ?_, fun k hk => ?_, fun k hk => ?_⟩
    · rcases eq_or_ne k p with rfl | hkp
      · exact iff_of_false (fun hc => hc.1 rfl) hgonep
      · refine (and_iff_right hkp).trans ?_
        simp only [Table.links, hrecU' k hkp]
    · simp only [Links.removeHead, Table.links, hrecU' k hk.1]
    · simp only [Links.removeHead, Table.links, hrecU' k hk.1, hm, hm']
  have hgone : ¬ (t'.gotoRec entryInterface i).live = true := by
    rw [hrec, if_pos (Or.inl rfl)]
    exact zero_not_live
  have hlive : ∀ k, k ≠ i → (t'.gotoRec entryInterface k).live =
      (t.gotoRec entryInterface k).live := fun k hk => by
    rw [hrec]
    by_cases hkp : k = p
    · rw [if_pos (Or.inr hkp), hkp, Bool.eq_false_iff.2 hdead]
      exact Bool.eq_false_iff.2 zero_not_live
    · rw [if_neg (not_or.2 ⟨hk, hkp⟩)]
  have hcU : (natUnlinked t i).curTblCnt = t.curTblCnt ∧
      (natUnlinked t i).curExpnTblCnt = dec16 t.curExpnTblCnt := by
    simp [natUnlinked, hn, not_lt.2 hb]
  refine ⟨hinv.removeHead (fun k hk => ?_) hpb hUp hUn hag ?_ ?_, hgone, hlive, fun k hk => ?_,
    fun k hk hkd => ?_, hm', ⟨by rw [ht']; simp, by rw [ht']; simp⟩⟩
  · rcases eq_or_ne k p with rfl | hkp
    · rw [hrec, if_pos (Or.inr rfl)]
      rfl
    · rw [hrecU' k hkp]
      exact hinv.clean k fun hc => hk ((hag.occ k).1 ⟨hkp, hc⟩)
  · rw [hcU.1, ht']
    simp [not_lt.2 hb]
  · rw [hcU.2, ht']
    simp [not_lt.2 hb]
  · have hki : ¬ (k = i ∨ k = p) := fun hc => by
      rw [hrec, if_pos hc] at hk
      exact zero_not_live hk
    rw [hrec, if_neg hki]
    exact ⟨rfl, rfl⟩
  · have hki : ¬ (k = i ∨ k = p) := fun hc => by
      have hk' : (t'.gotoRec entryInterface k).enable = true := hk
      rw [hrec, if_pos hc] at hk'
      exact absurd hk' (by decide)
    have heq : t'.gotoRec entryInterface k = t.gotoRec entryInterface k := by
      rw [hrec, if_neg hki]
    rw [heq] at hkd
    have hok : (t.links entryInterface).occ k := by
      simpa only [Table.links, heq] using hk
    simpa only [Table.links, heq] using hd k hok hkd

omit hl in
/-- **The NAT half of a delete**, in all its cases. -/
theorem natDelete_spec (hocc : (t.links entryInterface).occ i) :
    NatDeleted t (natDelete t (t.iterator entryInterface i)) root rank i := by
  by_cases hw : (t.links entryInterface).prev i = 0 ∧ (t.links entryInterface).next i ≠ 0
  · exact natDelete_headWithTail h hd hocc hw.1 hw.2
  -- only heads with a tail can be dead
  have hl : (t.gotoRec entryInterface i).live = true := by
    by_contra hc
    obtain ⟨hb, hn⟩ := hd i hocc hc
    exact hw ⟨(h.prev_eq_zero_iff hocc).2 hb, hn⟩
  by_cases hp : (t.links entryInterface).prev i = 0
  · exact natDelete_loneHead h hd hl hp (by_contra fun hn => hw ⟨hp, hn⟩)
  obtain ⟨-, hpo, -⟩ := h.neighbours hocc hp
  have hplt := t.lt_of_occ hpo
  have hprot : (((t.writeField entryInterface .updateEntry ((t.links entryInterface).prev i)
      ((t.links entryInterface).next i)).gotoRec entryInterface
        ((t.links entryInterface).prev i)).protocol == ipahalNatInvalidProtocol) =
      ! (t.gotoRec entryInterface ((t.links entryInterface).prev i)).live := by
    rw [Table.gotoRec_writeField _ _ _ _ _ hplt, if_pos rfl]
    have hpe : (t.gotoRec entryInterface ((t.links entryInterface).prev i)).enable = true := hpo
    show ((t.gotoRec entryInterface ((t.links entryInterface).prev i)).protocol == _) = _
    simp [NatRule.live, hpe, bne]
  have heq : natDelete t (t.iterator entryInterface i) =
      ipaTableDeleteEntry entryInterface
        (t.writeField entryInterface .updateEntry ((t.links entryInterface).prev i)
          ((t.links entryInterface).next i)) (t.iterator entryInterface i)
        (! (t.gotoRec entryInterface ((t.links entryInterface).prev i)).live) := by
    simp only [natDelete, natPosted, Table.iterator, ipaTableIteratorIsHeadWithTail, validIndex, hp,
      ne_eq, not_false_eq_true, decide_true, Bool.not_true, Bool.and_false, Bool.not_false,
      Bool.false_eq_true, if_true, if_false, Bool.true_and, hprot]
  rw [heq]
  by_cases hn : (t.links entryInterface).next i = 0
  · cases hlv : (t.gotoRec entryInterface ((t.links entryInterface).prev i)).live
    · refine natDelete_lastOfDead h hd hl hp hn (by simp [hlv]) ?_
      simp [ipaTableDeleteEntry, Table.iterator, validIndex, hn, hp]
      rfl
    · have := natUnlinked_deleted h hd hl hp (Or.inr hlv)
      simpa [ipaTableDeleteEntry, Table.iterator, validIndex, hn, natUnlinked] using this
  · have := natUnlinked_deleted h hd hl hp (Or.inl hn)
    simpa [ipaTableDeleteEntry, Table.iterator, validIndex, hn, natUnlinked] using this

end Nat

/-! ## The index table -/

/-- The index table once the delete of `it` has been posted: a head with a tail takes
    over the second entry. -/
def indxPosted (t : Table d IndxTblRule) (it : Iterator) : Table d IndxTblRule :=
  if ! validIndex it.prevIndex then
    if validIndex it.nextIndex then
      let second := t.gotoRec indexEntryInterface it.nextIndex
      (t.writeField indexEntryInterface .deleteHead it.currIndex second.tblEntry).writeField
        indexEntryInterface .updateEntry it.currIndex second.nextIndex
    else t.writeField indexEntryInterface .updateHead it.currIndex 0
  else t.writeField indexEntryInterface .updateEntry it.prevIndex it.nextIndex

/-- The entry that is erased: the second one when the head has a tail. -/
def indxVictim (t : Table d IndxTblRule) (it : Iterator) : Iterator :=
  if ipaTableIteratorIsHeadWithTail it then
    { prevIndex := it.currIndex
      currIndex := it.nextIndex
      nextIndex := (t.links indexEntryInterface).next it.nextIndex }
  else it

/-- Forget the predecessor of an expansion slot. -/
def clearMeta (t : Table d IndxTblRule) (curr : ℕ) : Table d IndxTblRule :=
  if curr ≥ d.tableEntries then
    t.setMeta (t.tblMeta.map fun m => m.set (curr - d.tableEntries) 0)
  else t

/-- The index table after the whole delete. -/
def indxDelete (t : Table d IndxTblRule) (it : Iterator) : Table d IndxTblRule :=
  clearMeta (ipaTableDeleteEntry indexEntryInterface (indxPosted t it) (indxVictim t it) false)
    (indxVictim t it).currIndex

/-- What an index table keeps when the entry in slot `x` goes and `entry` is what the
    others say. -/
structure IndxDeleted (t t' : Table d IndxTblRule) (root rank : ℕ → ℕ) (x : ℕ)
    (entry : ℕ → ℕ) : Prop where
  inv : TableInv indexEntryInterface t' root rank
  occ : ∀ k, (t'.links indexEntryInterface).occ k ↔ k ≠ x ∧ (t.links indexEntryInterface).occ k
  entry : ∀ k, k ≠ x → (t'.gotoRec indexEntryInterface k).tblEntry = entry k
  /-- Only the follower of `x` gets another predecessor. -/
  prev : ∀ k, (t'.links indexEntryInterface).occ k →
    (t'.links indexEntryInterface).prev k = (t.links indexEntryInterface).prev k ∨
      (t.links indexEntryInterface).prev k = x
  tblMeta : ∃ m, t'.tblMeta = some m ∧ m.length = d.expnTableEntries
  layout : SameLayout t t'

section Indx
variable {t : Table d IndxTblRule} {root rank : ℕ → ℕ}
  (h : TableInv indexEntryInterface t root rank)
  (hm : ∃ m, t.tblMeta = some m ∧ m.length = d.expnTableEntries)

theorem indx_occ_iff {t : Table d IndxTblRule} {k : ℕ} : (t.links indexEntryInterface).occ k ↔
    (t.gotoRec indexEntryInterface k).tblEntry ≠ 0 := decide_eq_true_iff

include h hm

/-- A member goes: its predecessor, which may say something new, is linked to its
    successor. -/
theorem indxUnlink {x e : ℕ} (hx : (t.links indexEntryInterface).occ x)
    (hp : (t.links indexEntryInterface).prev x ≠ 0) (he : e ≠ 0) {T : Table d IndxTblRule}
    (hT : ∀ k, T.gotoRec indexEntryInterface k = if k = (t.links indexEntryInterface).prev x then
      ⟨e, (t.links indexEntryInterface).next x⟩ else t.gotoRec indexEntryInterface k)
    (hTm : T.tblMeta = t.tblMeta) (hTc : T.curTblCnt = t.curTblCnt)
    (hTe : T.curExpnTblCnt = t.curExpnTblCnt) (hTl : SameLayout t T) :
    IndxDeleted t (clearMeta (ipaTableDeleteEntry indexEntryInterface T
      { prevIndex := (t.links indexEntryInterface).prev x, currIndex := x,
        nextIndex := (t.links indexEntryInterface).next x } false) x) root rank x
      (Function.update (fun k => (t.gotoRec indexEntryInterface k).tblEntry)
        ((t.links indexEntryInterface).prev x) e) := by
  obtain ⟨hb, hpo, hpn, hpx, hnx⟩ := h.neighbours hx hp
  obtain ⟨m, hm, hlen⟩ := hm
  have hlt := t.lt_of_occ hx
  generalize hpe : (t.links indexEntryInterface).prev x = p at *
  generalize hne : (t.links indexEntryInterface).next x = n at *
  -- the table before the victim's metadata is cleared
  generalize hU : (if n = 0 then T else setPrevIndex indexEntryInterface T n p) = U
  have hdel : ipaTableDeleteEntry indexEntryInterface T
      { prevIndex := p, currIndex := x, nextIndex := n } false =
      ipaTableEraseEntry indexEntryInterface U x := by
    rw [← hU]
    by_cases hn0 : n = 0 <;> simp [ipaTableDeleteEntry, validIndex, hn0]
  have hUrec : ∀ k, U.gotoRec indexEntryInterface k = T.gotoRec indexEntryInterface k := fun k => by
    rw [← hU]
    split
    · rfl
    · next hn0 =>
      rw [setPrevIndex_indx, Table.gotoRec_setMeta,
        Table.gotoRec_modifyRec _ _ _ _ (t.lt_of_occ (hnx hn0).1)]
      split
      · next e => rw [e]
      · rfl
  obtain ⟨mU, hmU, hlenU, hprevU⟩ : ∃ mU, U.tblMeta = some mU ∧ mU.length = d.expnTableEntries ∧
      ∀ k, k ≠ 0 → indexTableEntryGetPrevIndex k (some mU) d.tableEntries =
        if k = n then p else indexTableEntryGetPrevIndex k (some m) d.tableEntries := by
    rw [← hU]
    split
    · next hn0 =>
      refine ⟨m, hTm.trans hm, hlen, fun k hk => ?_⟩
      rw [if_neg (by rw [hn0]; exact hk)]
    · next hn0 =>
      obtain ⟨hno, hnp, -⟩ := hnx hn0
      have hnb : d.tableEntries ≤ n := by
        have hx0 : x ≠ 0 := fun e0 => h.chained.null_free (e0 ▸ hx)
        exact (h.neighbours hno (by rw [hnp]; exact hx0)).1
      refine ⟨m.set (n - d.tableEntries) p, ?_, by rw [List.length_set, hlen], fun k _ => ?_⟩
      · rw [setPrevIndex_indx, Table.setMeta_tblMeta, hTm, hm, indexTableEntrySetPrevIndex,
          if_pos hnb]
        rfl
      · exact indx_prev_set hlen p k hnb (t.lt_of_occ hno)
  have hclear : clearMeta (ipaTableEraseEntry indexEntryInterface U x) x =
      (ipaTableEraseEntry indexEntryInterface U x).setMeta
        (some (mU.set (x - d.tableEntries) 0)) := by
    rw [clearMeta, if_pos hb, eraseEntry_tblMeta, hmU]
    rfl
  rw [hdel, hclear]
  have hrec : ∀ k, ((ipaTableEraseEntry indexEntryInterface U x).setMeta
        (some (mU.set (x - d.tableEntries) 0))).gotoRec indexEntryInterface k =
      if k = x then IndxTblRule.zero else if k = p then ⟨e, n⟩
      else t.gotoRec indexEntryInterface k := fun k => by
    rw [Table.gotoRec_setMeta, gotoRec_eraseEntry _ _ _ hlt, hUrec, hT]
    rfl
  generalize hV : (ipaTableEraseEntry indexEntryInterface U x).setMeta
        (some (mU.set (x - d.tableEntries) 0)) = V at hrec
  have hVm : V.tblMeta = some (mU.set (x - d.tableEntries) 0) := by rw [← hV]; rfl
  have hocc : ∀ k, (V.links indexEntryInterface).occ k ↔
      k ≠ x ∧ (t.links indexEntryInterface).occ k := fun k => by
    rw [indx_occ_iff, indx_occ_iff, hrec]
    rcases eq_or_ne k x with rfl | hkx
    · simp [IndxTblRule.zero]
    · rcases eq_or_ne k p with rfl | hkp
      · simp [hkx, he, indx_occ_iff.1 hpo]
      · simp [hkx, hkp]
  have hagree : ((t.links indexEntryInterface).unlink x).Agree (V.links indexEntryInterface) := by
    refine ⟨fun k => (hocc k).symm, fun k hk => ?_, fun k hk => ?_⟩
    · show _ = (V.gotoRec indexEntryInterface k).nextIndex
      rw [Links.unlink_next, hpe, hne, hrec, if_neg hk.1]
      split <;> rfl
    · have hk0 : k ≠ 0 := fun e => h.chained.null_free (e ▸ hk.2)
      show _ = indexTableEntryGetPrevIndex k V.tblMeta d.tableEntries
      rw [hVm, indx_prev_set hlenU 0 k hb hlt, if_neg hk.1, hprevU k hk0, Links.unlink_prev,
        hpe, hne, ← hm]
      rfl
  have hUc : U.curTblCnt = t.curTblCnt ∧ U.curExpnTblCnt = t.curExpnTblCnt ∧
      U.addrOffset = t.addrOffset ∧ U.nmi = t.nmi := by
    rw [← hU]
    split
    · exact ⟨hTc, hTe, hTl.addrOffset, hTl.nmi⟩
    · simp [hTc, hTe, hTl.addrOffset, hTl.nmi]
  have hprev : ∀ k, (V.links indexEntryInterface).occ k →
      (V.links indexEntryInterface).prev k = (t.links indexEntryInterface).prev k ∨
        (t.links indexEntryInterface).prev k = x := fun k hk => by
    have hk' := (hocc k).1 hk
    rw [← hagree.prev k hk', Links.unlink_prev, hne]
    split
    · next e =>
      subst e
      exact Or.inr (hnx fun e0 => h.chained.null_free (e0 ▸ hk'.2)).2.1
    · exact Or.inl rfl
  refine ⟨h.unlink (fun k hk => ?_) hx hb hlt hagree ?_ ?_, hocc, fun k hk => ?_, hprev,
    ⟨_, hVm, by rw [List.length_set, hlenU]⟩, ⟨?_, ?_⟩⟩
  · rcases eq_or_ne k x with rfl | hkx
    · rw [hrec, if_pos rfl]
      rfl
    · have hfree : ¬ (t.links indexEntryInterface).occ k := fun hc => hk ((hocc k).2 ⟨hkx, hc⟩)
      rw [hrec, if_neg hkx, if_neg (fun hkp : k = p => hfree (hkp ▸ hpo))]
      exact h.clean k hfree
  · rw [← hV]
    simp [not_lt.2 hb, hUc.1]
  · rw [← hV]
    simp [not_lt.2 hb, hUc.2.1]
  · rw [hrec, if_neg hk, Function.update_apply]
    split <;> rfl
  · rw [← hV]
    simp [hUc.2.2.1]
  · rw [← hV]
    simp [hUc.2.2.2]

/-- A lone head goes. -/
theorem indxDelete_loneHead {j : ℕ} (hj : (t.links indexEntryInterface).occ j)
    (hp : (t.links indexEntryInterface).prev j = 0)
    (hn : (t.links indexEntryInterface).next j = 0) :
    IndxDeleted t (indxDelete t (t.iterator indexEntryInterface j)) root rank j
      (fun k => (t.gotoRec indexEntryInterface k).tblEntry) := by
  have hlt := t.lt_of_occ hj
  have hb := (h.prev_eq_zero_iff hj).1 hp
  have heq : indxDelete t (t.iterator indexEntryInterface j) =
      ipaTableEraseEntry indexEntryInterface
        (t.writeField indexEntryInterface .updateHead j 0) j := by
    simp [indxDelete, indxPosted, indxVictim, clearMeta, ipaTableIteratorIsHeadWithTail,
      Table.iterator, hp, hn, validIndex, ipaTableDeleteEntry, hb]
  have hrec : ∀ k, (ipaTableEraseEntry indexEntryInterface
        (t.writeField indexEntryInterface .updateHead j 0) j).gotoRec indexEntryInterface k =
      if k = j then IndxTblRule.zero else t.gotoRec indexEntryInterface k := fun k => by
    rw [gotoRec_eraseEntry _ _ _ hlt, Table.gotoRec_writeField _ _ _ _ _ hlt]
    split <;> rfl
  rw [heq]
  generalize hT : ipaTableEraseEntry indexEntryInterface
    (t.writeField indexEntryInterface .updateHead j 0) j = T at hrec
  have hTm : T.tblMeta = t.tblMeta := by simp [← hT]
  have hocc : ∀ k, (T.links indexEntryInterface).occ k ↔
      k ≠ j ∧ (t.links indexEntryInterface).occ k := fun k => by
    rw [indx_occ_iff, indx_occ_iff, hrec]
    by_cases hk : k = j <;> simp [hk, IndxTblRule.zero]
  have hagree : ((t.links indexEntryInterface).removeHead j).Agree
      (T.links indexEntryInterface) := by
    refine ⟨fun k => (hocc k).symm, fun k hk => ?_, fun k hk => ?_⟩
    · simp [Links.removeHead, Table.links, hrec, hk.1]
    · simp [Links.removeHead, Table.links, hrec, hk.1, hTm]
  refine ⟨h.removeHead (fun k hk => ?_) hb hj hn hagree (by simp [← hT, hb])
    (by simp [← hT, hb]), hocc, fun k hk => ?_, fun k hk => ?_, hTm ▸ hm,
    ⟨by simp [← hT], by simp [← hT]⟩⟩
  · rw [hrec]
    split
    · rfl
    · next hkj => exact h.clean k fun hc => hk ((hocc k).2 ⟨hkj, hc⟩)
  · rw [hrec, if_neg hk]
  · exact Or.inl (hagree.prev k ((hocc k).1 hk)).symm

/-- **The index half of a delete**: entry `j` goes, or the second entry of its chain
    moves into it. -/
theorem indxDelete_spec {j : ℕ} (hj : (t.links indexEntryInterface).occ j) :
    if (t.links indexEntryInterface).prev j = 0 ∧ (t.links indexEntryInterface).next j ≠ 0 then
      IndxDeleted t (indxDelete t (t.iterator indexEntryInterface j)) root rank
        ((t.links indexEntryInterface).next j)
        (Function.update (fun k => (t.gotoRec indexEntryInterface k).tblEntry) j
          (t.gotoRec indexEntryInterface ((t.links indexEntryInterface).next j)).tblEntry)
    else IndxDeleted t (indxDelete t (t.iterator indexEntryInterface j)) root rank j
      (fun k => (t.gotoRec indexEntryInterface k).tblEntry) := by
  have hj0 : j ≠ 0 := fun e => h.chained.null_free (e ▸ hj)
  have hlt := t.lt_of_occ hj
  split
  · next hc =>
    obtain ⟨hp, hn⟩ := hc
    have hno := h.chained.next_occ j hj hn
    have hnp := h.chained.prev_next j hj hn
    have hjn : (t.links indexEntryInterface).next j ≠ j := fun e => by
      have := h.chained.rank_next j hj hn
      rw [e] at this
      exact lt_irrefl _ this
    have heq : indxDelete t (t.iterator indexEntryInterface j) =
        clearMeta (ipaTableDeleteEntry indexEntryInterface
          (indxPosted t (t.iterator indexEntryInterface j))
          { prevIndex := j, currIndex := (t.links indexEntryInterface).next j,
            nextIndex := (t.links indexEntryInterface).next
              ((t.links indexEntryInterface).next j) } false)
          ((t.links indexEntryInterface).next j) := by
      simp [indxDelete, indxVictim, ipaTableIteratorIsHeadWithTail, Table.iterator, hp, hn,
        validIndex]
    have hposted : indxPosted t (t.iterator indexEntryInterface j) =
        (t.writeField indexEntryInterface .deleteHead j (t.gotoRec indexEntryInterface
          ((t.links indexEntryInterface).next j)).tblEntry).writeField indexEntryInterface
          .updateEntry j ((t.links indexEntryInterface).next
            ((t.links indexEntryInterface).next j)) := by
      rw [indxPosted, if_pos (by simp [Table.iterator, hp, validIndex]),
        if_pos (show validIndex (t.iterator indexEntryInterface j).nextIndex = true from
          decide_eq_true hn)]
      rfl
    have := indxUnlink h hm hno (by rw [hnp]; exact hj0) (indx_occ_iff.1 hno)
      (T := indxPosted t (t.iterator indexEntryInterface j)) (fun k => ?_)
      (by rw [hposted]; rfl) (by rw [hposted]; rfl) (by rw [hposted]; rfl)
      (by rw [hposted]; exact ⟨rfl, rfl⟩)
    · rw [hnp] at this
      rwa [heq]
    · rw [hposted, hnp, Table.gotoRec_writeField _ _ _ _ _ hlt,
        Table.gotoRec_writeField _ _ _ _ _ hlt]
      split
      · next e => rw [e]; rfl
      · rfl
  · next hc =>
    by_cases hp : (t.links indexEntryInterface).prev j = 0
    · exact indxDelete_loneHead h hm hj hp (by_contra fun hn => hc ⟨hp, hn⟩)
    · obtain ⟨-, hpo, -⟩ := h.neighbours hj hp
      have hplt := t.lt_of_occ hpo
      have heq : indxDelete t (t.iterator indexEntryInterface j) =
          clearMeta (ipaTableDeleteEntry indexEntryInterface
            (t.writeField indexEntryInterface .updateEntry
              ((t.links indexEntryInterface).prev j) ((t.links indexEntryInterface).next j))
            { prevIndex := (t.links indexEntryInterface).prev j, currIndex := j,
              nextIndex := (t.links indexEntryInterface).next j } false) j := by
        simp [indxDelete, indxPosted, indxVictim, ipaTableIteratorIsHeadWithTail, Table.iterator,
          hp, validIndex]
      have := indxUnlink h hm hj hp (indx_occ_iff.1 hpo)
        (T := t.writeField indexEntryInterface .updateEntry
          ((t.links indexEntryInterface).prev j) ((t.links indexEntryInterface).next j))
        (fun k => ?_) rfl rfl rfl ⟨rfl, rfl⟩
      · rw [Function.update_eq_self] at this
        rwa [heq]
      · rw [Table.gotoRec_writeField _ _ _ _ _ hplt]
        split
        · next e => rw [e]; rfl
        · rfl

end Indx

/-! ## From a handle to the two deletes -/

theorem ipaTableGetEntryByIndex_of {i : ℕ} (h0 : i ≠ 0) (hi : i < d.totTblEnts) :
    ipaTableGetEntryByIndex d i = some i :=
  if_neg (not_or.2 ⟨h0, not_le.2 hi⟩)

section Iterators
variable {ρ υ : Type} {I : EntryInterface ρ υ} [LawfulInterface I] {t : Table d ρ}
  {root rank : ℕ → ℕ} (h : TableInv I t root rank) {i : ℕ} (hi : (t.links I).occ i)

include h hi

theorem TableInv.links_lt : (t.links I).prev i < d.totTblEnts ∧
    (t.links I).next i < d.totTblEnts := by
  have hpos : 0 < d.totTblEnts := (Nat.zero_le _).trans_lt (t.lt_of_occ hi)
  constructor
  · by_cases hp : (t.links I).prev i = 0
    · rw [hp]
      exact hpos
    · exact t.lt_of_occ (h.neighbours hi hp).2.1
  · by_cases hn : (t.links I).next i = 0
    · rw [hn]
      exact hpos
    · exact t.lt_of_occ (h.chained.next_occ i hi hn)

theorem ipaTableIteratorInit_ok : ipaTableIteratorInit I t i = .ok (t.iterator I i) := by
  obtain ⟨hp, hn⟩ := h.links_lt hi
  have hv : ∀ x, x < d.totTblEnts →
      (validIndex x && (ipaTableGetEntryByIndex d x).isNone) = false := fun x hx => by
    by_cases h0 : x = 0
    · simp [validIndex, h0]
    · simp [ipaTableGetEntryByIndex_of h0 hx]
  have hocc : I.entryIsValid (t.gotoRec I i) = true := hi
  have hp' := hv _ hp
  have hn' := hv _ hn
  simp only [Table.links] at hp' hn'
  simp only [ipaTableIteratorInit, hocc, Bool.not_true, Bool.false_eq_true, if_false, hp', hn']
  rfl

theorem ipaTableIteratorNext_ok (hn : (t.links I).next i ≠ 0) :
    ipaTableIteratorNext I (t.iterator I i) t =
      .ok { prevIndex := i, currIndex := (t.links I).next i,
            nextIndex := (t.links I).next ((t.links I).next i) } := by
  obtain ⟨-, hnn⟩ := h.links_lt (h.chained.next_occ i hi hn)
  have hv : (validIndex ((t.links I).next ((t.links I).next i)) &&
      (ipaTableGetEntryByIndex d ((t.links I).next ((t.links I).next i))).isNone) = false := by
    by_cases h0 : (t.links I).next ((t.links I).next i) = 0
    · simp [validIndex, h0]
    · simp [ipaTableGetEntryByIndex_of h0 hnn]
  unfold ipaTableIteratorNext
  exact if_neg (by rw [show I.entryGetNextIndex (t.gotoRec I (t.iterator I i).nextIndex) =
    (t.links I).next ((t.links I).next i) from rfl, hv]; decide)

end Iterators

/-- The command of the NAT half. -/
theorem natCommand {t : Table d NatRule} (it : Iterator) (hi : it.currIndex < d.totTblEnts)
    (hp : it.prevIndex < d.totTblEnts) (cmd : DmaCmd) :
    ∃ c, ipaTableCreateDeleteCommand entryInterface t cmd it = cmd ++ [c] ∧
      ∀ tbl : Ip4Tbl d, tbl.table = t →
        applyDmaOne tbl c = { tbl with table := natPosted tbl.table it } := by
  unfold ipaTableCreateDeleteCommand natPosted
  split
  · split
    · refine ⟨_, ipaTableAddDmaCmd_eq _ _ _ _ hi, fun tbl htbl => ?_⟩
      exact applyDmaOne_nat tbl (by rw [htbl]) ..
    · refine ⟨_, ipaTableAddDmaCmd_eq _ _ _ _ hi, fun tbl htbl => ?_⟩
      exact applyDmaOne_nat tbl (by rw [htbl]) ..
  · refine ⟨_, ipaTableAddDmaCmd_eq _ _ _ _ hp, fun tbl htbl => ?_⟩
    exact applyDmaOne_nat tbl (by rw [htbl]) ..

/-- The commands of the index half, for an entry that is no head with a tail. -/
theorem indxCommand {t : Table d IndxTblRule} (it : Iterator) (hi : it.currIndex < d.totTblEnts)
    (hp : it.prevIndex < d.totTblEnts) (hw : ipaTableIteratorIsHeadWithTail it = false) :
    ∃ c, ipaTableCreateDeleteCommand indexEntryInterface t [] it = [c] ∧
      ∀ tbl : Ip4Tbl d, tbl.indexTable = t →
        applyDmaOne tbl c = { tbl with indexTable := indxPosted tbl.indexTable it } := by
  unfold ipaTableCreateDeleteCommand indxPosted
  split
  · next h₁ =>
    split
    · next h₂ =>
      simp only [Bool.not_eq_eq_eq_not, Bool.not_true] at h₁
      simp [ipaTableIteratorIsHeadWithTail, h₁, h₂] at hw
    · refine ⟨_, ipaTableAddDmaCmd_eq _ _ _ _ hi, fun tbl htbl => ?_⟩
      exact applyDmaOne_indx tbl (by rw [htbl]) ..
  · refine ⟨_, ipaTableAddDmaCmd_eq _ _ _ _ hp, fun tbl htbl => ?_⟩
    exact applyDmaOne_indx tbl (by rw [htbl]) ..

/-- The commands of the index half, for a head with a tail. -/
theorem indxCommandHead {t : Table d IndxTblRule} {j : ℕ} (hj : j < d.totTblEnts)
    (hp : (t.links indexEntryInterface).prev j = 0)
    (hn : (t.links indexEntryInterface).next j ≠ 0) :
    ∃ cmd, ipaTableAddDmaCmd indexEntryInterface t .updateEntry j
        (t.gotoRec indexEntryInterface ((t.links indexEntryInterface).next j)).nextIndex
        (ipaTableCreateDeleteCommand indexEntryInterface t []
          (t.iterator indexEntryInterface j)) = cmd ∧
      ∀ tbl : Ip4Tbl d, tbl.indexTable = t → applyDma tbl cmd =
        { tbl with
          indexTable := indxPosted tbl.indexTable (t.iterator indexEntryInterface j) } := by
  have hcmd : ipaTableCreateDeleteCommand indexEntryInterface t []
      (t.iterator indexEntryInterface j) = [t.dmaOf indexEntryInterface .deleteHead j
        (t.gotoRec indexEntryInterface ((t.links indexEntryInterface).next j)).tblEntry] := by
    rw [ipaTableCreateDeleteCommand, if_pos (by simp [Table.iterator, hp, validIndex]),
      if_pos (show validIndex (t.iterator indexEntryInterface j).nextIndex = true
        from decide_eq_true hn)]
    exact ipaTableAddDmaCmd_eq _ _ _ _ hj
  refine ⟨_, rfl, fun tbl htbl => ?_⟩
  rw [hcmd, ipaTableAddDmaCmd_eq _ _ _ _ hj]
  have h₁ := applyDmaOne_indx tbl (t := t) (by rw [htbl]) .deleteHead j
    (t.gotoRec indexEntryInterface ((t.links indexEntryInterface).next j)).tblEntry
  simp only [applyDma, List.cons_append, List.nil_append, List.foldl_cons, List.foldl_nil, h₁]
  refine (applyDmaOne_indx _ (by rw [htbl]; rfl) ..).trans ?_
  rw [indxPosted, if_pos (by simp [Table.iterator, hp, validIndex]),
    if_pos (show validIndex (t.iterator indexEntryInterface j).nextIndex = true
      from decide_eq_true hn), htbl]
  rfl

/-- The NAT table with the rule of the second index entry pointed at the head. -/
def natRepaired (tbl : Ip4Tbl d) (j : ℕ) : Table d NatRule :=
  if ipaTableIteratorIsHeadWithTail (tbl.indexTable.iterator indexEntryInterface j) then
    tbl.table.modifyRec (tbl.indxRec (tbl.indxLinks.next j)).tblEntry fun r =>
      { r with indxTblEntry := j }
  else tbl.table

/-- What a delete of the rule in slot `i` leaves. -/
def Ip4Tbl.delete (tbl : Ip4Tbl d) (i : ℕ) : Ip4Tbl d :=
  let j := (tbl.natRec i).indxTblEntry
  { tbl with
    table := natDelete (natRepaired tbl j) (tbl.table.iterator entryInterface i)
    indexTable := indxDelete tbl.indexTable (tbl.indexTable.iterator indexEntryInterface j) }

/-- **A delete of a rule whose index entry is taken always reaches its post**, and a
    granted post leaves the two deletes. -/
theorem prepareDel_ok {tbl : Ip4Tbl d} {g : PairGhost} (hinv : TablesInv tbl g) {hdl i : ℕ}
    (hget : ipaTableGetEntry d hdl = .ok i) (hocc : tbl.natLinks.occ i)
    (hjo : tbl.indxLinks.occ (tbl.natRec i).indxTblEntry) :
    ∃ p, prepareDel tbl hdl =
        ({ tbl with table := natRepaired tbl (tbl.natRec i).indxTblEntry }, .ok p) ∧
      commitDel (applyDma { tbl with
        table := natRepaired tbl (tbl.natRec i).indxTblEntry } p.cmd) p = tbl.delete i := by
  unfold Ip4Tbl.delete
  generalize hj : (tbl.natRec i).indxTblEntry = j at hjo ⊢
  have hilt := tbl.table.lt_of_occ hocc
  have hjlt := tbl.indexTable.lt_of_occ hjo
  have hj0 : j ≠ 0 := fun e => hinv.indx.chained.null_free (e ▸ hjo)
  obtain ⟨hip, -⟩ := hinv.nat.links_lt hocc
  obtain ⟨hjp, -⟩ := hinv.indx.links_lt hjo
  have hini := ipaTableIteratorInit_ok hinv.nat hocc
  have hinj := ipaTableIteratorInit_ok hinv.indx hjo
  have hcommit : ∀ (T : Ip4Tbl d) (p : PreparedDel),
      p.tableIterator = tbl.table.iterator entryInterface i →
      p.indexTableIterator =
        indxVictim tbl.indexTable (tbl.indexTable.iterator indexEntryInterface j) →
      T.table = natPosted (natRepaired tbl j) (tbl.table.iterator entryInterface i) →
      T.indexTable =
        indxPosted tbl.indexTable (tbl.indexTable.iterator indexEntryInterface j) →
      T.publicAddr = tbl.publicAddr → commitDel T p =
        { tbl with
          table := natDelete (natRepaired tbl j) (tbl.table.iterator entryInterface i)
          indexTable := indxDelete tbl.indexTable
            (tbl.indexTable.iterator indexEntryInterface j) } := by
    rintro ⟨pa, tn, ti⟩ ⟨it, jt, cmd⟩ rfl rfl rfl rfl rfl
    rfl
  unfold prepareDel
  simp only [hget, hini, hj, ipaTableGetEntryByIndex_of hj0 hjlt, hinj]
  cases hw : ipaTableIteratorIsHeadWithTail (tbl.indexTable.iterator indexEntryInterface j)
  · have hrep : natRepaired tbl j = tbl.table := by rw [natRepaired, hw]; rfl
    have hvic : indxVictim tbl.indexTable (tbl.indexTable.iterator indexEntryInterface j) =
        tbl.indexTable.iterator indexEntryInterface j := by rw [indxVictim, hw]; rfl
    obtain ⟨c, hc, hca⟩ := indxCommand (t := tbl.indexTable)
      (tbl.indexTable.iterator indexEntryInterface j) hjlt hjp hw
    obtain ⟨c', hc', hca'⟩ := natCommand (t := tbl.table)
      (tbl.table.iterator entryInterface i) hilt hip [c]
    simp only [Bool.false_eq_true, if_false, hc, hc']
    refine ⟨_, by rw [hrep], ?_⟩
    have happly : applyDma tbl ([c] ++ [c']) =
        { tbl with
          indexTable := indxPosted tbl.indexTable
            (tbl.indexTable.iterator indexEntryInterface j)
          table := natPosted tbl.table (tbl.table.iterator entryInterface i) } := by
      simp only [applyDma, List.cons_append, List.nil_append, List.foldl_cons, List.foldl_nil,
        hca tbl rfl]
      exact hca' _ rfl
    refine hcommit _ _ rfl hvic.symm ?_ ?_ ?_ <;> rw [hrep] <;> simp only [happly]
  · obtain ⟨hn0, hp0⟩ : tbl.indxLinks.next j ≠ 0 ∧ tbl.indxLinks.prev j = 0 := by
      obtain ⟨h₁, h₂⟩ := Bool.and_eq_true_iff.1 hw
      exact ⟨validIndex_iff.1 h₁, validIndex_eq_false.1 ((Bool.not_eq_true' _).mp h₂)⟩
    have hnext := ipaTableIteratorNext_ok hinv.indx hjo hn0
    have hvic : indxVictim tbl.indexTable (tbl.indexTable.iterator indexEntryInterface j) =
        { prevIndex := j, currIndex := tbl.indxLinks.next j,
          nextIndex := tbl.indxLinks.next (tbl.indxLinks.next j) } := by
      rw [indxVictim, hw]
      rfl
    have hrep : natRepaired tbl j =
        tbl.table.modifyRec (tbl.indxRec (tbl.indxLinks.next j)).tblEntry fun r =>
          { r with indxTblEntry := j } := by
      rw [natRepaired, hw]
      rfl
    obtain ⟨c, hc, hca⟩ := indxCommandHead (t := tbl.indexTable) hjlt hp0 hn0
    obtain ⟨c', hc', hca'⟩ := natCommand (t := natRepaired tbl j)
      (tbl.table.iterator entryInterface i) hilt hip c
    simp only [if_true, hnext, ipaNatiCopySecondIndexEntryToHead]
    have hcmd : ipaTableCreateDeleteCommand entryInterface
        (tbl.table.modifyRec (tbl.indxRec (tbl.indxLinks.next j)).tblEntry fun r =>
          { r with indxTblEntry := j }) c (tbl.table.iterator entryInterface i) = c ++ [c'] := by
      rw [← hrep]
      exact hc'
    have happly : applyDma { tbl with table := natRepaired tbl j } (c ++ [c']) =
        { tbl with
          indexTable := indxPosted tbl.indexTable
            (tbl.indexTable.iterator indexEntryInterface j)
          table := natPosted (natRepaired tbl j) (tbl.table.iterator entryInterface i) } := by
      rw [applyDma, List.foldl_append]
      have hstep := hca { tbl with table := natRepaired tbl j } rfl
      exact (congrArg (fun T => applyDmaOne T c') hstep).trans (hca' _ rfl)
    refine ⟨⟨_, _, c ++ [c']⟩, ?_, hcommit _ _ rfl hvic.symm ?_ ?_ ?_⟩
    · rw [hrep, ← hcmd, ← hc]
      rfl
    all_goals rw [happly]

/-! ## The pair -/

/-- The head of an index chain with a tail, as a delete sees it. -/
theorem headWithTail_iff {t : Table d IndxTblRule} {j : ℕ} :
    ipaTableIteratorIsHeadWithTail (t.iterator indexEntryInterface j) = true ↔
      (t.links indexEntryInterface).prev j = 0 ∧ (t.links indexEntryInterface).next j ≠ 0 := by
  rw [ipaTableIteratorIsHeadWithTail, Bool.and_eq_true, Bool.not_eq_true', validIndex_iff,
    validIndex_eq_false, and_comm]
  rfl

section Repair
variable {tbl : Ip4Tbl d} {g : PairGhost} {j : ℕ}
  (hs : tbl.indxLinks.prev j = 0 → tbl.indxLinks.next j ≠ 0 →
    tbl.natLinks.occ (tbl.indxRec (tbl.indxLinks.next j)).tblEntry)

include hs

/-- The repair touches one record, and there only the index entry it names. -/
theorem natRepaired_rec (k : ℕ) : (natRepaired tbl j).gotoRec entryInterface k =
    if (tbl.indxLinks.prev j = 0 ∧ tbl.indxLinks.next j ≠ 0) ∧
        k = (tbl.indxRec (tbl.indxLinks.next j)).tblEntry then
      { tbl.natRec k with indxTblEntry := j }
    else tbl.natRec k := by
  by_cases hw : tbl.indxLinks.prev j = 0 ∧ tbl.indxLinks.next j ≠ 0
  · rw [natRepaired, if_pos (headWithTail_iff.2 hw),
      Table.gotoRec_modifyRec _ _ _ _ (tbl.table.lt_of_occ (hs hw.1 hw.2))]
    simp only [hw, true_and, ne_eq, not_false_eq_true]
  · rw [natRepaired, if_neg (fun h => hw (headWithTail_iff.1 h)), if_neg (fun h => hw h.1)]

theorem natRepaired_keeps (k : ℕ) :
    ((natRepaired tbl j).gotoRec entryInterface k).live = (tbl.natRec k).live ∧
      ((natRepaired tbl j).gotoRec entryInterface k).content = (tbl.natRec k).content := by
  rw [natRepaired_rec hs]
  split <;> exact ⟨rfl, rfl⟩

theorem natRepaired_links : (natRepaired tbl j).links entryInterface = tbl.natLinks := by
  have hrec := natRepaired_rec hs
  have h : ∀ k, ((natRepaired tbl j).gotoRec entryInterface k).enable = (tbl.natRec k).enable ∧
      ((natRepaired tbl j).gotoRec entryInterface k).nextIndex = (tbl.natRec k).nextIndex ∧
      ((natRepaired tbl j).gotoRec entryInterface k).prevIndex = (tbl.natRec k).prevIndex :=
    fun k => by
      rw [hrec]
      split <;> exact ⟨rfl, rfl, rfl⟩
  have hocc : ((natRepaired tbl j).links entryInterface).occ = tbl.natLinks.occ :=
    funext fun k => congrArg (· = true) (h k).1
  have hnext : ((natRepaired tbl j).links entryInterface).next = tbl.natLinks.next :=
    funext fun k => (h k).2.1
  have hprev : ((natRepaired tbl j).links entryInterface).prev = tbl.natLinks.prev :=
    funext fun k => (h k).2.2
  exact Links.mk.injEq .. ▸ ⟨hocc, hnext, hprev⟩

omit hs in
theorem natRepaired_frame (tbl : Ip4Tbl d) (j : ℕ) :
    (natRepaired tbl j).curTblCnt = tbl.table.curTblCnt ∧
    (natRepaired tbl j).curExpnTblCnt = tbl.table.curExpnTblCnt ∧
    (natRepaired tbl j).tblMeta = tbl.table.tblMeta ∧
    SameLayout tbl.table (natRepaired tbl j) := by
  unfold natRepaired
  split <;> exact ⟨rfl, rfl, rfl, rfl, rfl⟩

theorem natRepaired_inv (hinv : TablesInv tbl g) :
    TableInv entryInterface (natRepaired tbl j) g.natRoot g.natRank := by
  obtain ⟨h₁, h₂, -, -⟩ := natRepaired_frame tbl j
  have hlinks := natRepaired_links hs
  refine hinv.nat.congr (fun k hk => ?_) (hlinks ▸ Links.Agree.refl _) h₁ h₂
  rw [hlinks] at hk
  rw [natRepaired_rec hs, if_neg]
  · exact hinv.nat.clean k hk
  · rintro ⟨hw, rfl⟩
    exact hk (hs hw.1 hw.2)

end Repair

/-- **Deleting a live rule keeps the pair well formed and takes exactly that rule.** -/
theorem PairInv.del {tbl : Ip4Tbl d} {g : PairGhost} (hinv : PairInv tbl g) {i : ℕ}
    (hl : (tbl.natRec i).live) :
    PairInv (tbl.delete i) g ∧
      (tbl.delete i).liveAt = Function.update tbl.liveAt i none ∧
      (∀ k, ((tbl.delete i).natRec k).live →
        g.srcRoot (tbl.delete i) k = g.srcRoot tbl k) ∧
      SameLayout tbl.table (tbl.delete i).table ∧
      SameLayout tbl.indexTable (tbl.delete i).indexTable := by
  obtain ⟨hjo, hje⟩ := hinv.rule_entry i hl
  generalize hj : (tbl.natRec i).indxTblEntry = j at hjo hje
  have hsec : tbl.indxLinks.prev j = 0 → tbl.indxLinks.next j ≠ 0 →
      tbl.natLinks.occ (tbl.indxRec (tbl.indxLinks.next j)).tblEntry := fun _ hn =>
    Ip4Tbl.occ_of_live (hinv.entry_rule _ (hinv.indx.chained.next_occ j hjo hn)).1
  have hkeep := natRepaired_keeps hsec
  have hlinks := natRepaired_links hsec
  have hrec := natRepaired_rec hsec
  obtain ⟨-, -, hrm, hrl⟩ := natRepaired_frame tbl j
  have hlr : ((natRepaired tbl j).gotoRec entryInterface i).live = true := by
    rw [(hkeep i).1]
    exact hl
  -- the NAT half
  have hN := natDelete_spec (natRepaired_inv hsec hinv.tables) (fun k hk hd => by
    rw [hlinks] at hk ⊢
    rw [(hkeep k).1] at hd
    exact hinv.dead_head k hk hd) (NatRule.live_iff.1 hlr).1
  have hit : (natRepaired tbl j).iterator entryInterface i =
      tbl.table.iterator entryInterface i := by
    simp only [Table.iterator, hlinks]
  rw [hit] at hN
  have hdel : tbl.delete i = { tbl with
      table := natDelete (natRepaired tbl j) (tbl.table.iterator entryInterface i)
      indexTable := indxDelete tbl.indexTable
        (tbl.indexTable.iterator indexEntryInterface j) } := by
    rw [Ip4Tbl.delete, hj]
  rw [hdel]
  clear hdel
  have hI := indxDelete_spec hinv.indx hinv.indxMeta hjo
  generalize natDelete (natRepaired tbl j) (tbl.table.iterator entryInterface i) = tn at hN
  generalize indxDelete tbl.indexTable (tbl.indexTable.iterator indexEntryInterface j) = ti at hI
  have hlive : ∀ k, (tn.gotoRec entryInterface k).live = true ↔
      k ≠ i ∧ (tbl.natRec k).live = true := fun k => by
    rcases eq_or_ne k i with rfl | hk
    · exact iff_of_false hN.gone fun h => h.1 rfl
    · rw [hN.keep k hk, (hkeep k).1]
      exact (and_iff_right hk).symm
  have hliveAt : ({ tbl with table := tn, indexTable := ti } : Ip4Tbl d).liveAt =
      Function.update tbl.liveAt i none := funext fun k => by
    rcases eq_or_ne k i with rfl | hk
    · rw [Function.update_self]
      exact if_neg hN.gone
    · rw [Function.update_of_ne hk, Ip4Tbl.liveAt, Ip4Tbl.liveAt]
      by_cases hkl : (tbl.natRec k).live = true
      · have hkl' := (hlive k).2 ⟨hk, hkl⟩
        rw [if_pos hkl, if_pos hkl', (hN.keepRec k hkl').2, (hkeep k).2]
      · rw [if_neg hkl, if_neg fun h => hkl ((hlive k).1 h).2]
  have hdead : ∀ k, (tn.links entryInterface).occ k → ¬ (tn.gotoRec entryInterface k).live = true →
      k < d.tableEntries ∧ (tn.links entryInterface).next k ≠ 0 := hN.dead_head
  have hlayN : SameLayout tbl.table tn :=
    ⟨hN.layout.addrOffset.trans hrl.addrOffset, hN.layout.nmi.trans hrl.nmi⟩
  have hmN : tn.tblMeta = none := by rw [hN.tblMeta, hrm, hinv.natMeta]
  split at hI
  · next hw =>
    obtain ⟨hno, hns⟩ : tbl.indxLinks.occ (tbl.indxLinks.next j) ∧
        tbl.indxLinks.next j ≠ j := by
      refine ⟨hinv.indx.chained.next_occ j hjo hw.2, fun e => ?_⟩
      have := hinv.indx.chained.rank_next j hjo hw.2
      rw [e] at this
      exact lt_irrefl _ this
    have hroot := hinv.indx.chained.root_next j hjo hw.2
    generalize hn : tbl.indxLinks.next j = n at *
    obtain ⟨hsl, hsn⟩ := hinv.entry_rule n hno
    generalize hs : (tbl.indxRec n).tblEntry = s at *
    have hentry : ∀ k, k ≠ n → (ti.gotoRec indexEntryInterface k).tblEntry =
        if k = j then s else (tbl.indxRec k).tblEntry := fun k hk => by
      rw [hI.entry k hk, Function.update_apply]
    have hindx : ∀ k, (tn.gotoRec entryInterface k).live = true →
        (tn.gotoRec entryInterface k).indxTblEntry =
          if k = s then j else (tbl.natRec k).indxTblEntry := fun k hk => by
      rw [(hN.keepRec k hk).1, hrec]
      by_cases hks : k = s <;> simp [hks, hw]
    refine ⟨⟨hN.inv, hI.inv, hmN, hI.tblMeta, fun k hk => ?_, fun k hk => ?_, hdead⟩, hliveAt,
      fun k hk => ?_, hlayN, hI.layout⟩
    · obtain ⟨hki, hkl⟩ := (hlive k).1 hk
      show (ti.links indexEntryInterface).occ (tn.gotoRec entryInterface k).indxTblEntry ∧
        (ti.gotoRec indexEntryInterface (tn.gotoRec entryInterface k).indxTblEntry).tblEntry = k
      rw [hindx k hk, hI.occ]
      rcases eq_or_ne k s with rfl | hks
      · rw [if_pos rfl, hentry j hns.symm, if_pos rfl]
        exact ⟨⟨hns.symm, hjo⟩, rfl⟩
      · obtain ⟨ho, he⟩ := hinv.rule_entry k hkl
        have hen : (tbl.natRec k).indxTblEntry ≠ n := fun e => hks (by rw [← he, e, hs])
        have hej : (tbl.natRec k).indxTblEntry ≠ j := fun e => hki (by rw [← he, e, hje])
        rw [if_neg hks, hentry _ hen, if_neg hej]
        exact ⟨⟨hen, ho⟩, he⟩
    · show (tn.gotoRec entryInterface (ti.gotoRec indexEntryInterface k).tblEntry).live = true ∧
        (tn.gotoRec entryInterface (ti.gotoRec indexEntryInterface k).tblEntry).indxTblEntry = k
      obtain ⟨hkn, hko⟩ := (hI.occ k).1 hk
      rw [hentry k hkn]
      rcases eq_or_ne k j with rfl | hkj
      · have hsi : s ≠ i := fun e => hns (by rw [← hsn, e, hj])
        have hsl' := (hlive s).2 ⟨hsi, hsl⟩
        rw [if_pos rfl, hindx s hsl', if_pos rfl]
        exact ⟨hsl', rfl⟩
      · obtain ⟨hkl, hke⟩ := hinv.entry_rule k hko
        rw [if_neg hkj]
        generalize (tbl.indxRec k).tblEntry = r at hkl hke ⊢
        have hri : r ≠ i := fun e => hkj (by rw [← hke, e, hj])
        have hrs : r ≠ s := fun e => hkn (by rw [← hke, e, hsn])
        have hrl' := (hlive r).2 ⟨hri, hkl⟩
        rw [hindx r hrl', if_neg hrs]
        exact ⟨hrl', hke⟩
    · show g.indxRoot (tn.gotoRec entryInterface k).indxTblEntry = _
      rw [hindx k hk]
      split
      · next hks => rw [hks, PairGhost.srcRoot, hsn, hroot]
      · rfl
  · next hw =>
    have hindx : ∀ k, (tn.gotoRec entryInterface k).live = true →
        (tn.gotoRec entryInterface k).indxTblEntry = (tbl.natRec k).indxTblEntry := fun k hk => by
      rw [(hN.keepRec k hk).1, hrec, if_neg fun h => hw h.1]
    refine ⟨⟨hN.inv, hI.inv, hmN, hI.tblMeta, fun k hk => ?_, fun k hk => ?_, hdead⟩, hliveAt,
      fun k hk => congrArg g.indxRoot (hindx k hk), hlayN, hI.layout⟩
    · obtain ⟨hki, hkl⟩ := (hlive k).1 hk
      show (ti.links indexEntryInterface).occ (tn.gotoRec entryInterface k).indxTblEntry ∧
        (ti.gotoRec indexEntryInterface (tn.gotoRec entryInterface k).indxTblEntry).tblEntry = k
      obtain ⟨ho, he⟩ := hinv.rule_entry k hkl
      have hej : (tbl.natRec k).indxTblEntry ≠ j := fun e => hki (by rw [← he, e, hje])
      rw [hindx k hk, hI.occ, hI.entry _ hej]
      exact ⟨⟨hej, ho⟩, he⟩
    · show (tn.gotoRec entryInterface (ti.gotoRec indexEntryInterface k).tblEntry).live = true ∧
        (tn.gotoRec entryInterface (ti.gotoRec indexEntryInterface k).tblEntry).indxTblEntry = k
      obtain ⟨hkj, hko⟩ := (hI.occ k).1 hk
      obtain ⟨hkl, hke⟩ := hinv.entry_rule k hko
      rw [hI.entry k hkj]
      generalize (tbl.indxRec k).tblEntry = r at hkl hke ⊢
      have hri : r ≠ i := fun e => hkj (by rw [← hke, e, hj])
      have hrl' := (hlive r).2 ⟨hri, hkl⟩
      exact ⟨hrl', (hindx r hrl').trans hke⟩

end Sm8850.Ipanat
