/-
  A table pair whose calls may fail.

  * `LooseInv`: what every call keeps, whatever it answers.  A failed delete leaves
    the rule of a second index entry pointing at the head of its chain, so the two
    tables need not name each other any more; a second entry still names a live
    rule, which names it or that head.
  * `LooseInv.add`, `LooseInv.del`, `LooseInv.repaired`: adds, posted deletes of any
    occupied slot, and deletes whose post failed.
-/
import Sm8850.Ipanat.Calls

namespace Sm8850.Ipanat

open Lib

variable {d : Dims}

/-- The rule that the index entry in slot `e` names. -/
abbrev Ip4Tbl.ruleOf (tbl : Ip4Tbl d) (e : ℕ) : NatRule := tbl.natRec (tbl.indxRec e).tblEntry

/-- **The invariant that failing calls keep.** -/
structure LooseInv (tbl : Ip4Tbl d) (g : PairGhost) : Prop where
  tables : TablesInv tbl g
  dead_head : ∀ i, tbl.natLinks.occ i → ¬ (tbl.natRec i).live →
    i < d.tableEntries ∧ tbl.natLinks.next i ≠ 0
  /-- An entry outside the base slots names a live rule, which names it, or the head in
      front of it. -/
  tail_rule : ∀ e, tbl.indxLinks.occ e → d.tableEntries ≤ e → (tbl.ruleOf e).live ∧
    ((tbl.ruleOf e).indxTblEntry = e ∨
      (tbl.ruleOf e).indxTblEntry = tbl.indxLinks.prev e ∧
        tbl.indxLinks.prev e < d.tableEntries)

theorem PairInv.loose {tbl : Ip4Tbl d} {g : PairGhost} (h : PairInv tbl g) : LooseInv tbl g :=
  ⟨h.tables, h.dead_head, fun e he _ => ⟨(h.entry_rule e he).1, Or.inl (h.entry_rule e he).2⟩⟩

section
variable {tbl : Ip4Tbl d} {g : PairGhost} (h : LooseInv tbl g)

include h

/-- A member of an index chain has a predecessor that links to it. -/
theorem LooseInv.next_prev {e : ℕ} (he : tbl.indxLinks.occ e) (hb : d.tableEntries ≤ e) :
    tbl.indxLinks.next (tbl.indxLinks.prev e) = e :=
  h.tables.indx.chained.next_prev e he (not_lt.2 hb)

/-- The second entry of a chain lies outside the base slots. -/
theorem LooseInv.second {j : ℕ} (hj : tbl.indxLinks.occ j) (hn : tbl.indxLinks.next j ≠ 0) :
    tbl.indxLinks.occ (tbl.indxLinks.next j) ∧ d.tableEntries ≤ tbl.indxLinks.next j ∧
      tbl.indxLinks.prev (tbl.indxLinks.next j) = j :=
  ⟨h.tables.indx.chained.next_occ j hj hn,
    not_lt.1 (h.tables.indx.chained.next_expn j hj hn),
    h.tables.indx.chained.prev_next j hj hn⟩

/-- The repair of a second entry touches an occupied slot. -/
theorem LooseInv.second_rule {j : ℕ} (hj : tbl.indxLinks.occ j) :
    tbl.indxLinks.prev j = 0 → tbl.indxLinks.next j ≠ 0 →
      tbl.natLinks.occ (tbl.indxRec (tbl.indxLinks.next j)).tblEntry := fun _ hn => by
  obtain ⟨hno, hnb, -⟩ := h.second hj hn
  exact Ip4Tbl.occ_of_live (h.tail_rule _ hno hnb).1

/-- A member whose rule names the head `j` is the second entry of `j`. -/
theorem LooseInv.second_of_names {e j : ℕ} (he : tbl.indxLinks.occ e) (hb : d.tableEntries ≤ e)
    (hj : (tbl.ruleOf e).indxTblEntry = j) :
    e = j ∨ j < d.tableEntries ∧ tbl.indxLinks.next j = e ∧ tbl.indxLinks.prev e = j := by
  obtain ⟨-, hself | ⟨hprev, hpb⟩⟩ := h.tail_rule e he hb
  · exact Or.inl (hself.symm.trans hj)
  · rw [hj] at hprev
    refine Or.inr ⟨hprev ▸ hpb, ?_, hprev.symm⟩
    rw [hprev]
    exact h.next_prev he hb

/-- Two members name different rules. -/
theorem LooseInv.tail_inj {e e' : ℕ} (he : tbl.indxLinks.occ e) (hb : d.tableEntries ≤ e)
    (he' : tbl.indxLinks.occ e') (hb' : d.tableEntries ≤ e')
    (heq : (tbl.indxRec e).tblEntry = (tbl.indxRec e').tblEntry) : e = e' := by
  have hr : (tbl.ruleOf e').indxTblEntry = (tbl.ruleOf e).indxTblEntry := by
    rw [Ip4Tbl.ruleOf, ← heq]
  rcases h.second_of_names he hb rfl with hs | ⟨hlt, hn, -⟩ <;>
    rcases h.second_of_names he' hb' hr with hs' | ⟨hlt', hn', -⟩
  · exact hs.trans hs'.symm
  · omega
  · omega
  · exact hn.symm.trans hn'

/-- **An add keeps the invariant.** -/
theorem LooseInv.add {env : Env} {pdns : List PdnEntry} {tok : ℕ} {clnt : Ipv4Rule}
    {tbl' : Ip4Tbl d} {p : PreparedAdd d} (hp : clnt.protocol ≠ ipahalNatInvalidProtocol)
    (hd : AddDone env pdns tok clnt tbl tbl' p) : ∃ g', LooseInv tbl' g' := by
  have hf := hd.frame h.tables hp
  obtain ⟨g', tables, -, -⟩ := h.tables.add hd
  refine ⟨g', tables, hf.dead_head h.dead_head, fun e he hb => ?_⟩
  rcases eq_or_ne e p.newIndexTblEntryIndex with rfl | hne
  · rw [Ip4Tbl.ruleOf, hf.entry]
    exact ⟨hf.live, Or.inl hf.names⟩
  · have ho := (hf.indxOcc hne).1 he
    obtain ⟨hl, hn⟩ := h.tail_rule e ho hb
    have hne' : (tbl.indxRec e).tblEntry ≠ p.newEntryIndex := fun e' =>
      hf.natFree (e' ▸ Ip4Tbl.occ_of_live hl)
    obtain ⟨h₁, h₂, -⟩ := hf.natKeep _ hne'
    rw [Ip4Tbl.ruleOf, hf.indxKeep e hne, h₁, h₂, hf.prevKeep e ho]
    exact ⟨hl, hn⟩

/-- **Restored tables keep the invariant.** -/
theorem LooseInv.restored {tbl' : Ip4Tbl d} (tables : TablesInv tbl' g)
    (hr : tbl.Restored tbl') : LooseInv tbl' g := by
  refine ⟨tables, fun i hi hd => ?_, fun e he hb => ?_⟩
  · have hi' := (hr.nat.links.occ i).2 hi
    have hrec : tbl'.natRec i = tbl.natRec i := hr.nat.recs i
    rw [hrec] at hd
    rw [← hr.nat.links.next i hi']
    exact h.dead_head i hi' hd
  · have he' := (hr.indx.links.occ e).2 he
    have hrec : tbl'.ruleOf e = tbl.ruleOf e := by
      rw [Ip4Tbl.ruleOf, Ip4Tbl.indxRec, hr.indx.recs e]
      exact hr.nat.recs _
    rw [hrec, ← hr.indx.links.prev e he']
    exact h.tail_rule e he' hb

/-- The rules after a repair: the one of the second entry names the head. -/
theorem LooseInv.repaired_rule {j : ℕ} (hj : tbl.indxLinks.occ j) {e : ℕ}
    (he : tbl.indxLinks.occ e) (hb : d.tableEntries ≤ e)
    (hne : tbl.indxLinks.prev j = 0 → tbl.indxLinks.next j ≠ e) :
    (natRepaired tbl j).gotoRec entryInterface (tbl.indxRec e).tblEntry = tbl.ruleOf e := by
  rw [natRepaired_rec (h.second_rule hj), if_neg]
  rintro ⟨⟨hp, hn⟩, heq⟩
  obtain ⟨hno, hnb, -⟩ := h.second hj hn
  exact hne hp (h.tail_inj he hb hno hnb heq).symm

/-- **A delete whose post fails keeps the invariant**, with its repair made. -/
theorem LooseInv.repaired {j : ℕ} (hj : tbl.indxLinks.occ j) :
    LooseInv { tbl with table := natRepaired tbl j } g := by
  have hs := h.second_rule hj
  have hlinks := natRepaired_links hs
  obtain ⟨-, -, hm, -⟩ := natRepaired_frame tbl j
  refine ⟨⟨natRepaired_inv hs h.tables, h.tables.indx, hm.trans h.tables.natMeta,
    h.tables.indxMeta⟩, fun i hi hd => ?_, fun e he hb => ?_⟩
  · have hi' : tbl.natLinks.occ i := hlinks ▸ hi
    have hd' : ¬ (tbl.natRec i).live = true := fun hl => hd ((natRepaired_keeps hs i).1.trans hl)
    obtain ⟨h₁, h₂⟩ := h.dead_head i hi' hd'
    exact ⟨h₁, fun e => h₂ (by rw [← e, ← hlinks])⟩
  · obtain ⟨hl, hn⟩ := h.tail_rule e he hb
    have hl' : ((natRepaired tbl j).gotoRec entryInterface (tbl.indxRec e).tblEntry).live :=
      (natRepaired_keeps hs _).1.trans hl
    refine ⟨hl', ?_⟩
    show ((natRepaired tbl j).gotoRec entryInterface (tbl.indxRec e).tblEntry).indxTblEntry = e ∨
      ((natRepaired tbl j).gotoRec entryInterface (tbl.indxRec e).tblEntry).indxTblEntry =
        tbl.indxLinks.prev e ∧ tbl.indxLinks.prev e < d.tableEntries
    by_cases hse : tbl.indxLinks.prev j = 0 ∧ tbl.indxLinks.next j = e
    · -- the second entry: its rule now names the head
      obtain ⟨hp, rfl⟩ := hse
      have hn0 : tbl.indxLinks.next j ≠ 0 := fun e0 => by
        have := d.two_le_base
        omega
      obtain ⟨-, -, hprev⟩ := h.second hj hn0
      rw [natRepaired_rec hs, if_pos ⟨⟨hp, hn0⟩, rfl⟩, hprev]
      exact Or.inr ⟨rfl, (h.tables.indx.prev_eq_zero_iff hj).1 hp⟩
    · rw [h.repaired_rule hj he hb fun hp hn => hse ⟨hp, hn⟩]
      exact hn

/-- The NAT half of a delete. -/
theorem LooseInv.natDeleted {i : ℕ} (hi : tbl.natLinks.occ i)
    (hj : tbl.indxLinks.occ (tbl.natRec i).indxTblEntry) :
    NatDeleted (natRepaired tbl (tbl.natRec i).indxTblEntry) (tbl.delete i).table g.natRoot
      g.natRank i := by
  have hlinks := natRepaired_links (h.second_rule hj)
  have hrepaired := h.repaired hj
  have hN := natDelete_spec hrepaired.tables.nat hrepaired.dead_head (i := i) (hlinks ▸ hi)
  have hit : (natRepaired tbl (tbl.natRec i).indxTblEntry).iterator entryInterface i =
      tbl.table.iterator entryInterface i := by
    simp only [Table.iterator, hlinks]
  rwa [hit] at hN

/-- **A posted delete keeps the invariant**, of a live rule or of a dead head, as long as
    the index slot it names is taken. -/
theorem LooseInv.del {i : ℕ} (hi : tbl.natLinks.occ i)
    (hj : tbl.indxLinks.occ (tbl.natRec i).indxTblEntry) : LooseInv (tbl.delete i) g := by
  have hN : NatDeleted _ (natDelete _ _) _ _ i := h.natDeleted hi hj
  generalize hji : (tbl.natRec i).indxTblEntry = j at hj hN
  obtain ⟨-, -, hm, -⟩ := natRepaired_frame tbl j
  have hI := indxDelete_spec h.tables.indx h.tables.indxMeta hj
  have hdel : tbl.delete i = { tbl with
      table := natDelete (natRepaired tbl j) (tbl.table.iterator entryInterface i)
      indexTable := indxDelete tbl.indexTable
        (tbl.indexTable.iterator indexEntryInterface j) } := by
    rw [Ip4Tbl.delete, hji]
  rw [hdel]
  clear hdel
  generalize natDelete (natRepaired tbl j) (tbl.table.iterator entryInterface i) = tn at hN
  generalize indxDelete tbl.indexTable (tbl.indexTable.iterator indexEntryInterface j) = ti at hI
  have hmN : tn.tblMeta = none := hN.tblMeta.trans (hm.trans h.tables.natMeta)
  -- a member that stays names a rule that stays
  have hkeep : ∀ e, tbl.indxLinks.occ e → d.tableEntries ≤ e →
      (tbl.ruleOf e).indxTblEntry ≠ j →
      (tbl.indxLinks.prev j = 0 → tbl.indxLinks.next j ≠ e) →
      (tn.gotoRec entryInterface (tbl.indxRec e).tblEntry).live = true ∧
        (tn.gotoRec entryInterface (tbl.indxRec e).tblEntry).indxTblEntry =
          (tbl.ruleOf e).indxTblEntry := fun e he hb hnj hne => by
    have hki : (tbl.indxRec e).tblEntry ≠ i := fun hk => hnj (by rw [Ip4Tbl.ruleOf, hk, hji])
    have hrule := h.repaired_rule hj he hb hne
    have hl : (tn.gotoRec entryInterface (tbl.indxRec e).tblEntry).live = true := by
      rw [hN.keep _ hki, hrule]
      exact (h.tail_rule e he hb).1
    exact ⟨hl, by rw [(hN.keepRec _ hl).1, hrule]⟩
  -- its predecessor changes only when that was the entry taken away
  have hprev : ∀ (x e : ℕ), tbl.indxLinks.occ e → d.tableEntries ≤ e →
      (ti.links indexEntryInterface).prev e = tbl.indxLinks.prev e ∨ tbl.indxLinks.prev e = x →
      (tbl.indxLinks.prev e = x → d.tableEntries ≤ x ∨ (tbl.ruleOf e).indxTblEntry = e) →
      (tbl.ruleOf e).indxTblEntry = e ∨
        (tbl.ruleOf e).indxTblEntry = (ti.links indexEntryInterface).prev e ∧
          (ti.links indexEntryInterface).prev e < d.tableEntries := fun x e he hb hpr hx => by
    obtain ⟨-, hself | ⟨hnames, hpb⟩⟩ := h.tail_rule e he hb
    · exact Or.inl hself
    · rcases hpr with hsame | hpx
      · rw [hsame]
        exact Or.inr ⟨hnames, hpb⟩
      · rcases hx hpx with hxb | hself
        · omega
        · exact Or.inl hself
  split at hI
  · next hw =>
    obtain ⟨hno, hnb, hnp⟩ := h.second hj hw.2
    have hjb := (h.tables.indx.prev_eq_zero_iff hj).1 hw.1
    refine ⟨⟨hN.inv, hI.inv, hmN, hI.tblMeta⟩, hN.dead_head, fun e he hb => ?_⟩
    obtain ⟨hen, heo⟩ := (hI.occ e).1 he
    have hej : e ≠ j := by omega
    have hentry : (ti.gotoRec indexEntryInterface e).tblEntry = (tbl.indxRec e).tblEntry := by
      rw [hI.entry e hen, Function.update_of_ne hej]
    have hnj : (tbl.ruleOf e).indxTblEntry ≠ j := fun hk => by
      rcases h.second_of_names heo hb hk with rfl | ⟨-, hn, -⟩
      · exact hej rfl
      · exact hen hn.symm
    obtain ⟨hl, hx⟩ := hkeep e heo hb hnj fun _ hn => hen hn.symm
    have hrule : ({ tbl with table := tn, indexTable := ti } : Ip4Tbl d).ruleOf e =
        tn.gotoRec entryInterface (tbl.indxRec e).tblEntry :=
      congrArg (tn.gotoRec entryInterface) hentry
    rw [hrule, hx]
    refine ⟨hl, ?_⟩
    exact hprev _ e heo hb (hI.prev e he) fun _ => Or.inl hnb
  · next hw =>
    refine ⟨⟨hN.inv, hI.inv, hmN, hI.tblMeta⟩, hN.dead_head, fun e he hb => ?_⟩
    obtain ⟨hej, heo⟩ := (hI.occ e).1 he
    -- were `j` a head in front of `e`, the second entry would have gone
    have hsec : tbl.indxLinks.prev j = 0 → tbl.indxLinks.next j ≠ e := fun hp hn => by
      have he0 : e ≠ 0 := fun e0 => h.tables.indx.chained.null_free (e0 ▸ heo)
      exact hw ⟨hp, fun e0 => he0 (hn.symm.trans e0)⟩
    have hnj : (tbl.ruleOf e).indxTblEntry ≠ j := fun hk => by
      rcases h.second_of_names heo hb hk with rfl | ⟨hjb, hn, -⟩
      · exact hej rfl
      · exact hsec ((h.tables.indx.prev_eq_zero_iff hj).2 hjb) hn
    obtain ⟨hl, hx⟩ := hkeep e heo hb hnj hsec
    have hrule : ({ tbl with table := tn, indexTable := ti } : Ip4Tbl d).ruleOf e =
        tn.gotoRec entryInterface (tbl.indxRec e).tblEntry :=
      congrArg (tn.gotoRec entryInterface) (hI.entry e hej)
    rw [hrule, hx]
    refine ⟨hl, ?_⟩
    refine hprev _ e heo hb (hI.prev e he) fun hpj => ?_
    by_cases hjb : d.tableEntries ≤ j
    · exact Or.inl hjb
    · exact absurd (hpj ▸ h.next_prev heo hb)
        (hsec ((h.tables.indx.prev_eq_zero_iff hj).2 (not_le.1 hjb)))

end

end Sm8850.Ipanat
