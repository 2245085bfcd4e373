/-
  Adding a rule (`ipa_NATI_add_ipv4_rule`).

  * `installedRule`: the record a rule ends up as.
  * `prepareAdd_entries`: once the command is carried out, one entry has been added
    to each table.
  * `PairInv.add`: the pair stays well formed and gains exactly one live rule.
-/
import Sm8850.Ipanat.PairInv
import Sm8850.Lib.Bytes

namespace Sm8850.Ipanat

open Lib

variable {d : Dims}

/-! ## The flags half-word -/

theorem flagsHalfWord_testBit (uc : BitVec 13) (s r e : Bool) :
    (flagsHalfWord uc s r e).testBit 13 = s ∧ (flagsHalfWord uc s r e).testBit 14 = r ∧
      (flagsHalfWord uc s r e).testBit 15 = e := by
  have huc := uc.isLt
  have hs := s.toNat_lt
  have hr := r.toNat_lt
  have hbit : ∀ b : Bool, decide (b.toNat = 1) = b := by decide
  have h13 : flagsHalfWord uc s r e / 2 ^ 13 % 2 = s.toNat :=
    Lib.Bytes.field_eq uc.toNat _ (r.toNat + 2 * e.toNat) (by unfold flagsHalfWord; omega) huc hs
  have h14 : flagsHalfWord uc s r e / 2 ^ 14 % 2 = r.toNat :=
    Lib.Bytes.field_eq (uc.toNat + s.toNat * 2 ^ 13) _ e.toNat (by unfold flagsHalfWord; omega)
      (by omega) hr
  have h15 : flagsHalfWord uc s r e / 2 ^ 15 % 2 = e.toNat :=
    Lib.Bytes.field_eq (uc.toNat + s.toNat * 2 ^ 13 + r.toNat * 2 ^ 14) _ 0
      (by unfold flagsHalfWord; omega) (by omega) e.toNat_lt
  simp only [Nat.testBit_eq_decide_div_mod_eq, h13, h14, h15, hbit, and_self]

theorem flagsHalfWord_uc (uc : BitVec 13) (s r e : Bool) :
    BitVec.ofNat 13 (flagsHalfWord uc s r e) = uc := by
  have := uc.isLt
  refine BitVec.eq_of_toNat_eq ?_
  simp only [flagsHalfWord, BitVec.toNat_ofNat]
  cases s <;> cases r <;> cases e <;> simp <;> omega

/-- The record of a rule once its flags are posted: the posted half-word sets
    `enable` and clears `redirect`, whatever was written before. -/
def installedRule (pdns : List PdnEntry) (clnt : Ipv4Rule) (indx prev : ℕ) : NatRule :=
  { tableEntryCopyFromUser pdns NatRule.zero clnt with
    prevIndex := prev
    indxTblEntry := indx
    redirect := false
    enable := true
    timeStamp := BitVec.ofNat 24 clnt.timeStamp.toNat }

theorem write16_flags (pdns : List PdnEntry) (clnt : Ipv4Rule) (indx prev : ℕ) :
    (writeRuleFields clnt indx { tableEntryCopyFromUser pdns NatRule.zero clnt with
        prevIndex := prev }).write16 ipaNatRuleFlagFieldOffset
      (tableEntryHeadInsert NatRule.zero ⟨pdns, clnt⟩).2 = installedRule pdns clnt indx prev := by
  obtain ⟨h₁, h₂, h₃⟩ := flagsHalfWord_testBit
    (tableEntryCopyFromUser pdns NatRule.zero clnt).ucActivationIndex
    (tableEntryCopyFromUser pdns NatRule.zero clnt).s false true
  simp only [tableEntryHeadInsert, NatRule.write16, ipaNatRuleFlagFieldOffset,
    ipaNatRuleNextFieldOffset, h₁, h₂, h₃, flagsHalfWord_uc]
  rfl

/-! ## Both entries -/

theorem tokenBucket_bounds (d : Dims) (hash tok : ℕ) :
    0 < tokenBucket d hash tok ∧ tokenBucket d hash tok < d.tableEntries := by
  have h2 := d.two_le_base
  have hle : (hash + tok) % 2 ^ 16 &&& (d.tableEntries - 1) ≤ d.tableEntries - 1 :=
    Nat.and_le_right
  unfold tokenBucket
  dsimp only
  split <;> omega

theorem newEntryIndex_bounds (env : Env) (d : Dims) (pdns : List PdnEntry) (tok : ℕ)
    (r : Ipv4Rule) : 0 < (newEntryIndex env d pdns tok r).1 ∧
      (newEntryIndex env d pdns tok r).1 < d.tableEntries := by
  unfold newEntryIndex
  dsimp only
  split
  exacts [tokenBucket_bounds .., dstHash_bounds ..]

theorem newIndexTblEntryIndex_bounds (d : Dims) (tok : ℕ) (r : Ipv4Rule) :
    0 < (newIndexTblEntryIndex d tok r).1 ∧
      (newIndexTblEntryIndex d tok r).1 < d.tableEntries := by
  unfold newIndexTblEntryIndex
  dsimp only
  split
  exacts [tokenBucket_bounds .., srcHash_bounds ..]

/-- The tables share what the command helpers were created with. -/
structure SameLayout {ρ σ : Type} (t : Table d ρ) (t' : Table d σ) : Prop where
  addrOffset : t'.addrOffset = t.addrOffset
  nmi : t'.nmi = t.nmi

theorem TableInv.last_lt {ρ υ : Type} {I : EntryInterface ρ υ} [LawfulInterface I]
    {t : Table d ρ} {root rank : ℕ → ℕ} (h : TableInv I t root rank) {b : ℕ}
    (hb : (t.links I).occ b) {last : ℕ} (hl : ipaTableIteratorEnd I t b = .ok last) :
    (t.links I).occ last := by
  obtain ⟨last', h₁, h₂, -⟩ := ipaTableIteratorEnd_ok h.chained hb
  rw [hl] at h₁
  exact Except.ok.inj h₁ ▸ h₂

theorem setPrevIndex_nat (t : Table d NatRule) (i prev : ℕ) :
    setPrevIndex entryInterface t i prev =
      (t.modifyRec i fun _ => { t.gotoRec entryInterface i with prevIndex := prev }).setMeta
        t.tblMeta := rfl

theorem setPrevIndex_indx (t : Table d IndxTblRule) (i prev : ℕ) :
    setPrevIndex indexEntryInterface t i prev =
      (t.modifyRec i fun _ => t.gotoRec indexEntryInterface i).setMeta
        (indexTableEntrySetPrevIndex i prev t.tblMeta d.tableEntries) := rfl

/-- The NAT half of an add: its direct writes, then its commands. -/
theorem natEntryAdded {t : Table d NatRule} {pdns : List PdnEntry} {clnt : Ipv4Rule} {b : ℕ}
    {a : AddEntry d NatRule} {root rank : ℕ → ℕ} (hinv : TableInv entryInterface t root rank)
    (hm : t.tblMeta = none) (hb : b < d.tableEntries)
    (h : ipaTableAddEntry entryInterface t ⟨pdns, clnt⟩ b [] = .ok a) (indx : ℕ) (tbl : Ip4Tbl d)
    (htbl : tbl.table = a.table.modifyRec a.recIndex (writeRuleFields clnt indx)) :
    (applyDma tbl a.cmd).indexTable = tbl.indexTable ∧
      EntryAdded entryInterface t (applyDma tbl a.cmd).table b
        (installedRule pdns clnt indx) a.recIndex ∧
      (applyDma tbl a.cmd).table.tblMeta = none ∧ SameLayout t (applyDma tbl a.cmd).table ∧
      a.ruleHdl = makeEntryHdl t a.recIndex := by
  have htot := hb.trans d.tableEntries_lt_tot
  have hend : ∀ last, (t.links entryInterface).occ b →
      ipaTableIteratorEnd entryInterface t b = .ok last → (t.links entryInterface).occ last :=
    fun last hv hl => hinv.last_lt hv hl
  rcases ipaTableAddEntry_ok htot (fun hv last hl => t.lt_of_occ (hend last hv hl)) h with
    ⟨free, rfl⟩ | ⟨taken, last, f, hl, hf, rfl⟩
  · have hz : t.gotoRec entryInterface b = NatRule.zero := hinv.clean b free
    have ho : tbl.table.addrOffset = t.addrOffset := by rw [htbl]; rfl
    have hdma := applyDmaOne_nat tbl ho .updateHead b
      (entryInterface.entryHeadInsert (t.gotoRec entryInterface b) ⟨pdns, clnt⟩).2
    have hrec : ∀ k, (tbl.table.writeField entryInterface .updateHead b
          (entryInterface.entryHeadInsert (t.gotoRec entryInterface b) ⟨pdns, clnt⟩).2).gotoRec
            entryInterface k =
        if k = b then installedRule pdns clnt indx 0 else t.gotoRec entryInterface k := by
      intro k
      rw [htbl]
      rcases eq_or_ne k b with rfl | hk
      · simp only [Table.gotoRec_writeField _ _ _ _ _ htot, Table.gotoRec_modifyRec _ _ _ _ htot,
          Table.gotoRec_setTblCnt, if_true, hz]
        exact write16_flags pdns clnt indx 0
      · simp [Table.gotoRec_writeField, Table.gotoRec_modifyRec, htot, hk]
    simp only [applyDma, List.nil_append, List.foldl_cons, List.foldl_nil, hdma]
    refine ⟨trivial, .head free hrec (fun k hk => ?_) ?_ ?_, ?_, ⟨?_, ?_⟩, trivial⟩
    · simp only [Table.links, hrec]
      split
      exacts [rfl, rfl]
    all_goals rw [htbl]
    exacts [rfl, rfl, hm, rfl, rfl]
  · obtain ⟨h₁, h₂, h₃, -⟩ := findExpnTblFreeEntry_ok hf
    have hz : t.gotoRec entryInterface f = NatRule.zero := hinv.clean f h₃
    have hne : last ≠ f := fun e => h₃ (e ▸ hend last taken hl)
    have hlast := t.lt_of_occ (hend last taken hl)
    have ho : tbl.table.addrOffset = t.addrOffset := by rw [htbl]; rfl
    have hdma := applyDmaOne_nat tbl ho .updateHead f
      (entryInterface.entryHeadInsert (t.gotoRec entryInterface f) ⟨pdns, clnt⟩).2
    generalize hT : tbl.table.writeField entryInterface .updateHead f
      (entryInterface.entryHeadInsert (t.gotoRec entryInterface f) ⟨pdns, clnt⟩).2 = T at hdma
    have ho' : T.addrOffset = t.addrOffset := hT ▸ ho
    have hdma' := applyDmaOne_nat { tbl with table := T } ho' .updateEntry last f
    have hrec : ∀ k, (T.writeField entryInterface .updateEntry last f).gotoRec entryInterface k =
        if k = f then installedRule pdns clnt indx last
        else if k = last then entryInterface.setNext (t.gotoRec entryInterface last) f
        else t.gotoRec entryInterface k := by
      intro k
      rw [← hT, htbl, hm]
      rcases eq_or_ne k f with rfl | hk
      · simp only [Table.gotoRec_writeField _ _ _ _ _ hlast, Table.gotoRec_writeField _ _ _ _ _ h₂,
          Table.gotoRec_modifyRec _ _ _ _ h₂, Table.gotoRec_setExpnTblCnt, setPrevIndex_nat,
          Table.gotoRec_setMeta, if_true, hne.symm, if_false, hz]
        exact write16_flags pdns clnt indx last
      · rcases eq_or_ne k last with rfl | hkl
        · simp [Table.gotoRec_writeField, Table.gotoRec_modifyRec, setPrevIndex_nat, h₂, hlast, hk,
            EntryInterface.setNext]
        · simp [Table.gotoRec_writeField, Table.gotoRec_modifyRec, setPrevIndex_nat, h₂, hlast, hk,
            hkl]
    simp only [applyDma, List.nil_append, List.foldl_cons, List.foldl_nil, hm, Option.isSome_none,
      Bool.false_eq_true, if_false, List.cons_append, hdma, hdma']
    refine ⟨trivial, .tail taken hl hf hrec (fun k hk => ?_) ?_ ?_, ?_, ⟨?_, ?_⟩, trivial⟩
    · simp only [Table.links, hrec]
      split
      · rfl
      · split
        · next hk' => rw [hk']; rfl
        · rfl
    all_goals rw [← hT, htbl]
    exacts [rfl, rfl, hm, rfl, rfl]

/-- The predecessors an index table knows after one entry of its metadata is set. -/
theorem indx_prev_set {m : List ℕ} (hm : m.length = d.expnTableEntries) {f : ℕ} (last k : ℕ)
    (h₁ : d.tableEntries ≤ f) (h₂ : f < d.totTblEnts) :
    indexTableEntryGetPrevIndex k (some (m.set (f - d.tableEntries) last)) d.tableEntries =
      if k = f then last else indexTableEntryGetPrevIndex k (some m) d.tableEntries := by
  have hf : f - d.tableEntries < m.length := by
    rw [hm]
    simp only [Dims.totTblEnts] at h₂
    omega
  unfold indexTableEntryGetPrevIndex
  rcases eq_or_ne k f with rfl | hk
  · simp [h₁, List.getD_eq_getElem?_getD, hf]
  · by_cases hb : d.tableEntries ≤ k
    · have hne : f - d.tableEntries ≠ k - d.tableEntries := by omega
      simp [hb, hk, List.getD_eq_getElem?_getD, hne]
    · simp [hb, hk]

/-- The index half of an add. -/
theorem indxEntryAdded {t : Table d IndxTblRule} {natIndex b : ℕ} {cmd : DmaCmd}
    {a : AddEntry d IndxTblRule} {root rank : ℕ → ℕ}
    (hinv : TableInv indexEntryInterface t root rank)
    (hm : ∃ m, t.tblMeta = some m ∧ m.length = d.expnTableEntries) (hb : b < d.tableEntries)
    (h : ipaTableAddEntry indexEntryInterface t natIndex b cmd = .ok a) :
    ∃ cmd', a.cmd = cmd ++ cmd' ∧ ∀ tbl : Ip4Tbl d, tbl.indexTable = a.table →
      (applyDma tbl cmd').table = tbl.table ∧
        EntryAdded indexEntryInterface t (applyDma tbl cmd').indexTable b
          (fun _ => ⟨natIndex, 0⟩) a.recIndex ∧
        (∃ m, (applyDma tbl cmd').indexTable.tblMeta = some m ∧ m.length = d.expnTableEntries) ∧
        SameLayout t (applyDma tbl cmd').indexTable := by
  have htot := hb.trans d.tableEntries_lt_tot
  have hend : ∀ last, (t.links indexEntryInterface).occ b →
      ipaTableIteratorEnd indexEntryInterface t b = .ok last →
      (t.links indexEntryInterface).occ last := fun last hv hl => hinv.last_lt hv hl
  obtain ⟨m, hm, hlen⟩ := hm
  rcases ipaTableAddEntry_ok htot (fun hv last hl => t.lt_of_occ (hend last hv hl)) h with
    ⟨free, rfl⟩ | ⟨taken, last, f, hl, hf, rfl⟩
  · refine ⟨_, rfl, fun tbl htbl => ?_⟩
    have hz : t.gotoRec indexEntryInterface b = IndxTblRule.zero := hinv.clean b free
    have ho : tbl.indexTable.addrOffset = t.addrOffset := by rw [htbl]; rfl
    have hdma := applyDmaOne_indx tbl ho .updateHead b
      (indexEntryInterface.entryHeadInsert (t.gotoRec indexEntryInterface b) natIndex).2
    have hrec : ∀ k, (tbl.indexTable.writeField indexEntryInterface .updateHead b
          (indexEntryInterface.entryHeadInsert (t.gotoRec indexEntryInterface b)
            natIndex).2).gotoRec indexEntryInterface k =
        if k = b then ⟨natIndex, 0⟩ else t.gotoRec indexEntryInterface k := by
      intro k
      rw [htbl]
      rcases eq_or_ne k b with rfl | hk
      · simp only [Table.gotoRec_writeField _ _ _ _ _ htot, Table.gotoRec_modifyRec _ _ _ _ htot,
          Table.gotoRec_setTblCnt, if_true, hz]
        rfl
      · simp [Table.gotoRec_writeField, Table.gotoRec_modifyRec, htot, hk]
    simp only [applyDma, List.foldl_cons, List.foldl_nil, hdma]
    refine ⟨trivial, .head free hrec (fun k hk => ?_) ?_ ?_, ⟨m, ?_, hlen⟩, ⟨?_, ?_⟩⟩
    · have hmeta : (tbl.indexTable.writeField indexEntryInterface .updateHead b
          (indexEntryInterface.entryHeadInsert (t.gotoRec indexEntryInterface b)
            natIndex).2).tblMeta = t.tblMeta := by rw [htbl]; rfl
      simp only [Table.links, hmeta]
      split
      · next he =>
        subst he
        exact if_neg (not_le.2 hb)
      · rfl
    all_goals rw [htbl]
    exacts [rfl, rfl, hm, rfl, rfl]
  · obtain ⟨h₁, h₂, h₃, -⟩ := findExpnTblFreeEntry_ok hf
    have hz : t.gotoRec indexEntryInterface f = IndxTblRule.zero := hinv.clean f h₃
    have hne : last ≠ f := fun e => h₃ (e ▸ hend last taken hl)
    have hlast := t.lt_of_occ (hend last taken hl)
    refine ⟨[t.dmaOf indexEntryInterface .updateEntry last f], by simp [hm], fun tbl htbl => ?_⟩
    have ho : tbl.indexTable.addrOffset = t.addrOffset := by rw [htbl]; rfl
    have hdma := applyDmaOne_indx tbl ho .updateEntry last f
    have hrec : ∀ k, (tbl.indexTable.writeField indexEntryInterface .updateEntry last f).gotoRec
          indexEntryInterface k =
        if k = f then ⟨natIndex, 0⟩
        else if k = last then indexEntryInterface.setNext (t.gotoRec indexEntryInterface last) f
        else t.gotoRec indexEntryInterface k := by
      intro k
      rw [htbl, hm]
      rcases eq_or_ne k f with rfl | hk
      · simp only [Table.gotoRec_writeField _ _ _ _ _ hlast,
          Table.gotoRec_modifyRec _ _ _ _ h₂, Table.gotoRec_setExpnTblCnt, setPrevIndex_indx,
          Table.gotoRec_setMeta, if_true, hne.symm, if_false, hz, Option.isSome_some]
        rfl
      · rcases eq_or_ne k last with rfl | hkl
        · simp [Table.gotoRec_writeField, Table.gotoRec_modifyRec, setPrevIndex_indx, h₂, hlast,
            hk, EntryInterface.setNext]
        · simp [Table.gotoRec_writeField, Table.gotoRec_modifyRec, setPrevIndex_indx, h₂, hlast,
            hk, hkl]
    have hmeta : (tbl.indexTable.writeField indexEntryInterface .updateEntry last f).tblMeta =
        some (m.set (f - d.tableEntries) last) := by
      have : (tbl.indexTable.writeField indexEntryInterface .updateEntry last f).tblMeta =
        indexTableEntrySetPrevIndex f last t.tblMeta d.tableEntries := by rw [htbl]; rfl
      rw [this, indexTableEntrySetPrevIndex, if_pos h₁, hm]
      rfl
    simp only [applyDma, List.foldl_cons, List.foldl_nil, hdma]
    refine ⟨trivial, .tail taken hl hf hrec (fun k hk => ?_) ?_ ?_, ⟨_, hmeta, ?_⟩, ⟨?_, ?_⟩⟩
    · simp only [Table.links, hmeta, hm]
      exact indx_prev_set hlen last k h₁ h₂
    · rw [htbl]; rfl
    · rw [htbl]; rfl
    · rw [List.length_set, hlen]
    · rw [htbl]; rfl
    · rw [htbl]; rfl

/-- The two buckets of a rule, under the tokens as they advance. -/
def natBucket (env : Env) (d : Dims) (pdns : List PdnEntry) (tok : ℕ) (clnt : Ipv4Rule) : ℕ :=
  (newEntryIndex env d pdns tok clnt).1

def indxBucket (env : Env) (d : Dims) (pdns : List PdnEntry) (tok : ℕ) (clnt : Ipv4Rule) : ℕ :=
  (newIndexTblEntryIndex d (newEntryIndex env d pdns tok clnt).2 clnt).1

/-- What a prepared add leaves once its command is carried out. -/
structure AddDone (env : Env) (pdns : List PdnEntry) (tok : ℕ) (clnt : Ipv4Rule)
    (tbl tbl' : Ip4Tbl d) (p : PreparedAdd d) : Prop where
  nat : EntryAdded entryInterface tbl.table tbl'.table (natBucket env d pdns tok clnt)
    (installedRule pdns clnt p.newIndexTblEntryIndex) p.newEntryIndex
  indx : EntryAdded indexEntryInterface tbl.indexTable tbl'.indexTable
    (indxBucket env d pdns tok clnt) (fun _ => ⟨p.newEntryIndex, 0⟩) p.newIndexTblEntryIndex
  natMeta : tbl'.table.tblMeta = none
  indxMeta : ∃ m, tbl'.indexTable.tblMeta = some m ∧ m.length = d.expnTableEntries
  natLayout : SameLayout tbl.table tbl'.table
  indxLayout : SameLayout tbl.indexTable tbl'.indexTable
  handle : p.newEntryHandle = makeEntryHdl tbl.table p.newEntryIndex

theorem prepareAdd_entries {env : Env} {pdns : List PdnEntry} {tok tok' : ℕ} {tbl : Ip4Tbl d}
    {clnt : Ipv4Rule} {p : PreparedAdd d} {g : PairGhost} (hinv : TablesInv tbl g)
    (h : prepareAdd env pdns tok tbl clnt = (tok', .ok p)) :
    AddDone env pdns tok clnt tbl (applyDma p.tbl p.cmd) p := by
  obtain ⟨hn0, hnb⟩ := newEntryIndex_bounds env d pdns tok clnt
  obtain ⟨hi0, hib⟩ := newIndexTblEntryIndex_bounds d (newEntryIndex env d pdns tok clnt).2 clnt
  simp only [prepareAdd] at h
  cases hnat : ipaTableAddEntry entryInterface tbl.table ⟨pdns, clnt⟩
      (newEntryIndex env d pdns tok clnt).1 [] with
  | error e => simp [hnat] at h
  | ok nat =>
    cases hindx : ipaTableAddEntry indexEntryInterface tbl.indexTable nat.recIndex
        (newIndexTblEntryIndex d (newEntryIndex env d pdns tok clnt).2 clnt).1 nat.cmd with
    | error e => simp [hnat, hindx] at h
    | ok indx =>
      cases hget : ipaTableGetEntryByIndex d nat.recIndex with
      | none => simp [hnat, hindx, hget] at h
      | some rule =>
        obtain rfl : nat.recIndex = rule := by
          unfold ipaTableGetEntryByIndex at hget
          split at hget
          · cases hget
          · exact Option.some.inj hget
        simp only [hnat, hindx, hget, Prod.mk.injEq, Except.ok.injEq] at h
        obtain ⟨-, rfl⟩ := h
        obtain ⟨cmd', hcmd, hI⟩ := indxEntryAdded hinv.indx hinv.indxMeta hib hindx
        obtain ⟨h₁, h₂, h₃, h₄, h₅⟩ := natEntryAdded hinv.nat hinv.natMeta hnb hnat indx.recIndex
          ({ tbl with
            table := nat.table.modifyRec nat.recIndex (writeRuleFields clnt indx.recIndex)
            indexTable := indx.table }) rfl
        obtain ⟨k₁, k₂, k₃, k₄⟩ := hI _ h₁
        have happ : ∀ T : Ip4Tbl d, applyDma T indx.cmd = applyDma (applyDma T nat.cmd) cmd' :=
          fun T => by rw [hcmd, applyDma, List.foldl_append]; rfl
        simp only [happ]
        exact ⟨k₁ ▸ h₂, k₂, k₁ ▸ h₃, k₃, k₁ ▸ h₄, k₄, h₅⟩

/-! ## The pair -/

@[simp] theorem installedRule_live {pdns : List PdnEntry} {clnt : Ipv4Rule} (indx prev : ℕ)
    (h : clnt.protocol ≠ ipahalNatInvalidProtocol) :
    (installedRule pdns clnt indx prev).live = true :=
  NatRule.live_iff.2 ⟨rfl, h⟩

/-- What a client's rule becomes, wherever it is kept. -/
def installedContent (pdns : List PdnEntry) (clnt : Ipv4Rule) : NatRule :=
  (installedRule pdns clnt 0 0).content

/-- Slots keep their rules when a link is written. -/
theorem setNext_keeps (r : NatRule) (x : ℕ) : (entryInterface.setNext r x).live = r.live ∧
    (entryInterface.setNext r x).indxTblEntry = r.indxTblEntry ∧
    (entryInterface.setNext r x).content = r.content := ⟨rfl, rfl, rfl⟩

section Frame
variable {env : Env} {pdns : List PdnEntry} {tok : ℕ} {clnt : Ipv4Rule} {tbl tbl' : Ip4Tbl d}
  {p : PreparedAdd d} {g : PairGhost}

/-- Both tables stay well formed, the new entries in the chains of their buckets. -/
theorem TablesInv.add (hinv : TablesInv tbl g) (h : AddDone env pdns tok clnt tbl tbl' p) :
    ∃ g', TablesInv tbl' g' ∧
      g'.natRoot = Function.update g.natRoot p.newEntryIndex (natBucket env d pdns tok clnt) ∧
      g'.indxRoot = Function.update g.indxRoot p.newIndexTblEntryIndex
        (indxBucket env d pdns tok clnt) := by
  obtain ⟨hn0, hnb⟩ := newEntryIndex_bounds env d pdns tok clnt
  obtain ⟨hi0, hib⟩ := newIndexTblEntryIndex_bounds d (newEntryIndex env d pdns tok clnt).2 clnt
  obtain ⟨-, -, nne, -⟩ := h.nat.slot hinv.nat hnb hn0.ne'
  obtain ⟨nrank, nat⟩ := h.nat.inv hinv.nat hnb hn0.ne' (fun _ => rfl) fun _ => rfl
  obtain ⟨irank, indx⟩ := h.indx.inv hinv.indx hib hi0.ne'
    (fun _ => decide_eq_true nne) fun _ => rfl
  exact ⟨⟨_, nrank, _, irank⟩, ⟨nat, indx, h.natMeta, h.indxMeta⟩, rfl, rfl⟩

/-- What the slots say after an add: the two new ones name each other, the others keep
    their rules and entries. -/
structure AddFrame (tbl tbl' : Ip4Tbl d) (p : PreparedAdd d) : Prop where
  natFree : ¬ tbl.natLinks.occ p.newEntryIndex
  indxFree : ¬ tbl.indxLinks.occ p.newIndexTblEntryIndex
  nat_ne : p.newEntryIndex ≠ 0
  live : (tbl'.natRec p.newEntryIndex).live
  names : (tbl'.natRec p.newEntryIndex).indxTblEntry = p.newIndexTblEntryIndex
  entry : (tbl'.indxRec p.newIndexTblEntryIndex).tblEntry = p.newEntryIndex
  natKeep : ∀ k, k ≠ p.newEntryIndex → (tbl'.natRec k).live = (tbl.natRec k).live ∧
    (tbl'.natRec k).indxTblEntry = (tbl.natRec k).indxTblEntry ∧
    (tbl'.natRec k).content = (tbl.natRec k).content
  indxKeep : ∀ k, k ≠ p.newIndexTblEntryIndex →
    (tbl'.indxRec k).tblEntry = (tbl.indxRec k).tblEntry
  prevKeep : ∀ k, tbl.indxLinks.occ k → tbl'.indxLinks.prev k = tbl.indxLinks.prev k
  /-- Dead heads stay in front of a tail. -/
  dead_head : (∀ i, tbl.natLinks.occ i → ¬ (tbl.natRec i).live →
      i < d.tableEntries ∧ tbl.natLinks.next i ≠ 0) →
    ∀ i, tbl'.natLinks.occ i → ¬ (tbl'.natRec i).live →
      i < d.tableEntries ∧ tbl'.natLinks.next i ≠ 0

theorem AddDone.frame (hinv : TablesInv tbl g) (hp : clnt.protocol ≠ ipahalNatInvalidProtocol)
    (h : AddDone env pdns tok clnt tbl tbl' p) : AddFrame tbl tbl' p := by
  obtain ⟨hn0, hnb⟩ := newEntryIndex_bounds env d pdns tok clnt
  obtain ⟨hi0, hib⟩ := newIndexTblEntryIndex_bounds d (newEntryIndex env d pdns tok clnt).2 clnt
  obtain ⟨nfree, nlt, nne, ⟨np, nrec, -⟩, nother⟩ := h.nat.slot hinv.nat hnb hn0.ne'
  obtain ⟨ifree, ilt, ine, ⟨ip, irec, -⟩, iother⟩ := h.indx.slot hinv.indx hib hi0.ne'
  have hlive : (tbl'.natRec p.newEntryIndex).live = true := by
    rw [Ip4Tbl.natRec, nrec]
    exact installedRule_live _ _ hp
  have nkeep : ∀ k, k ≠ p.newEntryIndex → (tbl'.natRec k).live = (tbl.natRec k).live ∧
      (tbl'.natRec k).indxTblEntry = (tbl.natRec k).indxTblEntry ∧
      (tbl'.natRec k).content = (tbl.natRec k).content := fun k hk => by
    rcases nother k hk with he | ⟨-, he⟩
    · rw [Ip4Tbl.natRec, he]
      exact ⟨rfl, rfl, rfl⟩
    · rw [Ip4Tbl.natRec, he]
      exact setNext_keeps _ _
  refine ⟨nfree, ifree, nne, hlive, ?_, ?_, nkeep, fun k hk => ?_,
    fun k hk => h.indx.prev_keep hinv.indx hib hi0.ne' hk, fun hdead k hk hd => ?_⟩
  · rw [Ip4Tbl.natRec, nrec]
    rfl
  · rw [Ip4Tbl.indxRec, irec]
  · rcases iother k hk with he | ⟨-, he⟩
    · rw [Ip4Tbl.indxRec, he]
    · rw [Ip4Tbl.indxRec, he]
      rfl
  · have hne : k ≠ p.newEntryIndex := fun e => hd (e ▸ hlive)
    rw [(nkeep k hne).1] at hd
    rcases nother k hne with he | ⟨ho, he⟩
    · have ho : tbl.natLinks.occ k := by
        simpa only [Table.links, he] using hk
      obtain ⟨h₃, h₄⟩ := hdead k ho hd
      exact ⟨h₃, by simpa only [Table.links, he] using h₄⟩
    · exact ⟨(hdead k ho hd).1, by
        simp only [Table.links, he, LawfulInterface.setNext_next]
        exact nne⟩

theorem AddFrame.indxOcc (h : AddFrame tbl tbl' p) {k : ℕ} (hk : k ≠ p.newIndexTblEntryIndex) :
    tbl'.indxLinks.occ k ↔ tbl.indxLinks.occ k := by
  show decide (_ ≠ 0) = true ↔ decide (_ ≠ 0) = true
  rw [h.indxKeep k hk]

end Frame

/-- **Adding a rule keeps the pair well formed and adds exactly that rule.** -/
theorem PairInv.add {env : Env} {pdns : List PdnEntry} {tok : ℕ} {clnt : Ipv4Rule}
    {tbl tbl' : Ip4Tbl d} {p : PreparedAdd d} {g : PairGhost} (hinv : PairInv tbl g)
    (hp : clnt.protocol ≠ ipahalNatInvalidProtocol)
    (h : AddDone env pdns tok clnt tbl tbl' p) :
    ∃ g', PairInv tbl' g' ∧
      g'.natRoot = Function.update g.natRoot p.newEntryIndex (natBucket env d pdns tok clnt) ∧
      (∀ k, (tbl'.natRec k).live → g'.srcRoot tbl' k =
        if k = p.newEntryIndex then indxBucket env d pdns tok clnt else g.srcRoot tbl k) ∧
      tbl.liveAt p.newEntryIndex = none ∧
      tbl'.liveAt = Function.update tbl.liveAt p.newEntryIndex
        (some (installedContent pdns clnt)) := by
  have hf := h.frame hinv.tables hp
  obtain ⟨g', tables, hnr, hir⟩ := hinv.tables.add h
  have hdead : ¬ (tbl.natRec p.newEntryIndex).live = true := fun hl =>
    hf.natFree (Ip4Tbl.occ_of_live hl)
  refine ⟨g', ⟨tables.nat, tables.indx, h.natMeta, h.indxMeta, fun k hk => ?_, fun k hk => ?_,
    hf.dead_head hinv.dead_head⟩, hnr, fun k hk => ?_, if_neg hdead, funext fun k => ?_⟩
  · rcases eq_or_ne k p.newEntryIndex with rfl | hne
    · rw [hf.names]
      refine ⟨?_, hf.entry⟩
      show decide (_ ≠ 0) = true
      exact decide_eq_true (hf.entry ▸ hf.nat_ne)
    · obtain ⟨h₁, h₂, -⟩ := hf.natKeep k hne
      rw [h₁] at hk
      obtain ⟨ho, he⟩ := hinv.rule_entry k hk
      have hne' := Chained.ne_of_occ hf.indxFree ho
      rw [h₂, hf.indxOcc hne', hf.indxKeep _ hne']
      exact ⟨ho, he⟩
  · rcases eq_or_ne k p.newIndexTblEntryIndex with rfl | hne
    · rw [hf.entry]
      exact ⟨hf.live, hf.names⟩
    · rw [hf.indxOcc hne] at hk
      obtain ⟨hl, he⟩ := hinv.entry_rule k hk
      have hne' : (tbl.indxRec k).tblEntry ≠ p.newEntryIndex := fun e => hdead (e ▸ hl)
      obtain ⟨h₁, h₂, -⟩ := hf.natKeep _ hne'
      rw [hf.indxKeep k hne, h₁, h₂]
      exact ⟨hl, he⟩
  · rcases eq_or_ne k p.newEntryIndex with rfl | hne
    · rw [if_pos rfl, PairGhost.srcRoot, hf.names, hir]
      exact Function.update_self ..
    · obtain ⟨h₁, h₂, -⟩ := hf.natKeep k hne
      rw [h₁] at hk
      rw [if_neg hne, PairGhost.srcRoot, h₂, hir]
      exact Function.update_of_ne (Chained.ne_of_occ hf.indxFree (hinv.rule_entry k hk).1) ..
  · rcases eq_or_ne k p.newEntryIndex with rfl | hne
    · obtain ⟨hn0, hnb⟩ := newEntryIndex_bounds env d pdns tok clnt
      obtain ⟨-, -, -, ⟨np, nrec, -⟩, -⟩ := h.nat.slot hinv.nat hnb hn0.ne'
      rw [Function.update_self, Ip4Tbl.liveAt, if_pos hf.live, Ip4Tbl.natRec, nrec]
      rfl
    · obtain ⟨h₁, -, h₃⟩ := hf.natKeep k hne
      rw [Function.update_of_ne hne, Ip4Tbl.liveAt, Ip4Tbl.liveAt, h₁, h₃]

/-! ## Refused and failed adds -/

/-- Both tables as they were. -/
structure Ip4Tbl.Restored (tbl tbl' : Ip4Tbl d) : Prop where
  nat : Table.Restored entryInterface tbl.table tbl'.table
  indx : Table.Restored indexEntryInterface tbl.indexTable tbl'.indexTable

theorem Ip4Tbl.Restored.refl (tbl : Ip4Tbl d) : tbl.Restored tbl := ⟨.refl _, .refl _⟩

/-- Restored tables are well formed with the old ghosts. -/
theorem TablesInv.restored {tbl tbl' : Ip4Tbl d} {g : PairGhost} (hinv : TablesInv tbl g)
    (h : tbl.Restored tbl') (natMeta : tbl'.table.tblMeta = none)
    (indxMeta : ∃ m, tbl'.indexTable.tblMeta = some m ∧ m.length = d.expnTableEntries) :
    TablesInv tbl' g :=
  ⟨hinv.nat.restored h.nat, hinv.indx.restored h.indx, natMeta, indxMeta⟩

/-- A restored pair is as well formed and holds the same rules. -/
theorem PairInv.restored {tbl tbl' : Ip4Tbl d} {g : PairGhost} (hinv : PairInv tbl g)
    (tables : TablesInv tbl' g) (h : tbl.Restored tbl') :
    PairInv tbl' g ∧ tbl'.liveAt = tbl.liveAt := by
  have hn : ∀ k, tbl'.natRec k = tbl.natRec k := h.nat.recs
  have hi : ∀ k, tbl'.indxRec k = tbl.indxRec k := h.indx.recs
  have iocc : ∀ k, tbl'.indxLinks.occ k ↔ tbl.indxLinks.occ k := fun k =>
    (h.indx.links.occ k).symm
  refine ⟨⟨tables.nat, tables.indx, tables.natMeta, tables.indxMeta, fun k hk => ?_,
    fun k hk => ?_, fun k hk hd => ?_⟩, funext fun k => ?_⟩
  · rw [hn] at hk ⊢
    rw [iocc, hi]
    exact hinv.rule_entry k hk
  · rw [iocc] at hk
    rw [hi, hn]
    exact hinv.entry_rule k hk
  · have hk' := (h.nat.links.occ k).2 hk
    rw [hn] at hd
    rw [← h.nat.links.next k hk']
    exact hinv.dead_head k hk' hd
  · simp only [Ip4Tbl.liveAt, hn]

section Refused
variable {env : Env} {pdns : List PdnEntry} {tok tok' : ℕ} {tbl : Ip4Tbl d} {clnt : Ipv4Rule}
  {g : PairGhost}

theorem ipaTableAddEntry_natMeta {t : Table d NatRule} {u : NatUserData} {b : ℕ} {cmd : DmaCmd}
    {a : AddEntry d NatRule} {root rank : ℕ → ℕ} (hinv : TableInv entryInterface t root rank)
    (hb : b < d.tableEntries) (h : ipaTableAddEntry entryInterface t u b cmd = .ok a) :
    a.table.tblMeta = t.tblMeta ∧ a.table.nmi = t.nmi ∧ a.table.addrOffset = t.addrOffset := by
  rcases ipaTableAddEntry_ok (hb.trans d.tableEntries_lt_tot)
    (fun hv last hl => t.lt_of_occ (hinv.last_lt hv hl)) h with ⟨-, rfl⟩ | ⟨-, last, f, -, -, rfl⟩
  exacts [⟨rfl, rfl, rfl⟩, ⟨rfl, rfl, rfl⟩]

theorem ipaTableAddEntry_indxMeta {t : Table d IndxTblRule} {u b : ℕ} {cmd : DmaCmd}
    {a : AddEntry d IndxTblRule} {root rank : ℕ → ℕ}
    (hinv : TableInv indexEntryInterface t root rank) (hb : b < d.tableEntries)
    (hm : ∃ m, t.tblMeta = some m ∧ m.length = d.expnTableEntries)
    (h : ipaTableAddEntry indexEntryInterface t u b cmd = .ok a) :
    (∃ m, a.table.tblMeta = some m ∧ m.length = d.expnTableEntries) ∧ a.table.nmi = t.nmi ∧
      a.table.addrOffset = t.addrOffset := by
  obtain ⟨m, hm, hlen⟩ := hm
  rcases ipaTableAddEntry_ok (hb.trans d.tableEntries_lt_tot)
    (fun hv last hl => t.lt_of_occ (hinv.last_lt hv hl)) h with ⟨-, rfl⟩ | ⟨-, last, f, -, hf, rfl⟩
  · exact ⟨⟨m, hm, hlen⟩, rfl, rfl⟩
  · refine ⟨⟨m.set (f - d.tableEntries) last, ?_, by rw [List.length_set, hlen]⟩, rfl, rfl⟩
    rw [setPrevIndex_indx, Table.setExpnTblCnt_tblMeta, Table.setMeta_tblMeta,
      Table.modifyRec_tblMeta, indexTableEntrySetPrevIndex,
      if_pos (findExpnTblFreeEntry_ok hf).1, hm]
    rfl

/-- **A refused add restores both tables.** -/
theorem prepareAdd_restores {ret : ℤ} {tbl' : Ip4Tbl d} (hinv : TablesInv tbl g)
    (h : prepareAdd env pdns tok tbl clnt = (tok', .error (ret, tbl'))) :
    ret ≠ 0 ∧ TablesInv tbl' g ∧ tbl.Restored tbl' ∧ SameLayout tbl.table tbl'.table ∧
      SameLayout tbl.indexTable tbl'.indexTable := by
  obtain ⟨-, hnb⟩ := newEntryIndex_bounds env d pdns tok clnt
  obtain ⟨-, hib⟩ := newIndexTblEntryIndex_bounds d (newEntryIndex env d pdns tok clnt).2 clnt
  simp only [prepareAdd] at h
  cases hnat : ipaTableAddEntry entryInterface tbl.table ⟨pdns, clnt⟩
      (newEntryIndex env d pdns tok clnt).1 [] with
  | error e =>
    simp only [hnat, Prod.mk.injEq, Except.error.injEq] at h
    obtain ⟨-, rfl, rfl⟩ := h
    exact ⟨(ipaTableAddEntry_error hnat).1, hinv, .refl _, ⟨rfl, rfl⟩, ⟨rfl, rfl⟩⟩
  | ok nat =>
    obtain ⟨nfree, nlt, -⟩ := ipaTableAddEntry_frame hinv.nat hnb hnat
    obtain ⟨hm, hnmi, ho⟩ := ipaTableAddEntry_natMeta hinv.nat hnb hnat
    have hundo := hinv.nat.undo nat.table hnb hnat (fun _ _ => rfl) rfl rfl rfl
    cases hindx : ipaTableAddEntry indexEntryInterface tbl.indexTable nat.recIndex
        (newIndexTblEntryIndex d (newEntryIndex env d pdns tok clnt).2 clnt).1 nat.cmd with
    | error e =>
      simp only [hnat, hindx, Prod.mk.injEq, Except.error.injEq] at h
      obtain ⟨-, rfl, rfl⟩ := h
      have hres : tbl.Restored { tbl with
          table := ipaTableEraseEntry entryInterface nat.table nat.recIndex } := ⟨hundo, .refl _⟩
      refine ⟨(ipaTableAddEntry_error hindx).1, hinv.restored hres ?_ hinv.indxMeta, hres,
        ⟨?_, ?_⟩, ⟨rfl, rfl⟩⟩
      · rw [eraseEntry_tblMeta, hm, hinv.natMeta]
      · rw [eraseEntry_addrOffset, ho]
      · rw [eraseEntry_nmi, hnmi]
    | ok indx =>
      cases hget : ipaTableGetEntryByIndex d nat.recIndex with
      | some rule => simp [hnat, hindx, hget] at h
      | none =>
        -- the slot just taken is a slot of the table
        have hne : nat.recIndex ≠ 0 := by
          obtain ⟨hn0, -⟩ := newEntryIndex_bounds env d pdns tok clnt
          rcases ipaTableAddEntry_ok (hnb.trans d.tableEntries_lt_tot)
            (fun hv last hl => tbl.table.lt_of_occ (hinv.nat.last_lt hv hl)) hnat with
            ⟨-, rfl⟩ | ⟨-, last, f, -, hf, rfl⟩
          · exact hn0.ne'
          · have h2 := d.two_le_base
            have hf' : d.tableEntries ≤ f := (findExpnTblFreeEntry_ok hf).1
            show f ≠ 0
            omega
        unfold ipaTableGetEntryByIndex at hget
        rw [if_neg (by omega)] at hget
        cases hget

/-- **A failed post takes both entries back.** -/
theorem eraseBoth_restores {p : PreparedAdd d} (hinv : TablesInv tbl g)
    (h : prepareAdd env pdns tok tbl clnt = (tok', .ok p)) :
    TablesInv (eraseBoth p.tbl p.newEntryIndex p.newIndexTblEntryIndex) g ∧
      tbl.Restored (eraseBoth p.tbl p.newEntryIndex p.newIndexTblEntryIndex) ∧
      SameLayout tbl.table (eraseBoth p.tbl p.newEntryIndex p.newIndexTblEntryIndex).table ∧
      SameLayout tbl.indexTable
        (eraseBoth p.tbl p.newEntryIndex p.newIndexTblEntryIndex).indexTable := by
  obtain ⟨-, hnb⟩ := newEntryIndex_bounds env d pdns tok clnt
  obtain ⟨-, hib⟩ := newIndexTblEntryIndex_bounds d (newEntryIndex env d pdns tok clnt).2 clnt
  simp only [prepareAdd] at h
  cases hnat : ipaTableAddEntry entryInterface tbl.table ⟨pdns, clnt⟩
      (newEntryIndex env d pdns tok clnt).1 [] with
  | error e => simp [hnat] at h
  | ok nat =>
    cases hindx : ipaTableAddEntry indexEntryInterface tbl.indexTable nat.recIndex
        (newIndexTblEntryIndex d (newEntryIndex env d pdns tok clnt).2 clnt).1 nat.cmd with
    | error e => simp [hnat, hindx] at h
    | ok indx =>
      cases hget : ipaTableGetEntryByIndex d nat.recIndex with
      | none => simp [hnat, hindx, hget] at h
      | some rule =>
        obtain rfl : nat.recIndex = rule := by
          unfold ipaTableGetEntryByIndex at hget
          split at hget
          · cases hget
          · exact Option.some.inj hget
        simp only [hnat, hindx, hget, Prod.mk.injEq, Except.ok.injEq] at h
        obtain ⟨-, rfl⟩ := h
        obtain ⟨-, nlt, -⟩ := ipaTableAddEntry_frame hinv.nat hnb hnat
        obtain ⟨nm, nnmi, no⟩ := ipaTableAddEntry_natMeta hinv.nat hnb hnat
        obtain ⟨im, inmi, io⟩ := ipaTableAddEntry_indxMeta hinv.indx hib hinv.indxMeta hindx
        have hres : tbl.Restored (eraseBoth
            { tbl with
              table := nat.table.modifyRec nat.recIndex (writeRuleFields clnt indx.recIndex)
              indexTable := indx.table } nat.recIndex indx.recIndex) :=
          ⟨hinv.nat.undo
            (nat.table.modifyRec nat.recIndex (writeRuleFields clnt indx.recIndex)) hnb hnat
            (fun k hk => by rw [Table.gotoRec_modifyRec _ _ _ _ nlt, if_neg hk]) rfl rfl rfl,
          hinv.indx.undo indx.table hib hindx (fun _ _ => rfl) rfl rfl rfl⟩
        refine ⟨hinv.restored hres ?_ ?_, hres, ⟨?_, ?_⟩, ⟨?_, ?_⟩⟩
        · rw [eraseBoth, eraseEntry_tblMeta, Table.modifyRec_tblMeta, nm, hinv.natMeta]
        · rw [eraseBoth, eraseEntry_tblMeta]
          exact im
        all_goals simp [eraseBoth, nnmi, no, inmi, io]

end Refused

end Sm8850.Ipanat
