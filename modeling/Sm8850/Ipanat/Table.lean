/-
  The generic table of the IPA NAT library (`ipa_table.c`).

  * `Dims`: the two sizes of a table, as `ipaTableCalculateEntriesNum` fixes them.
  * `EntryInterface`: the callbacks and layout of one kind of record, together
    with what its DMA command helpers hold.
  * `Table`: records, side metadata and counters.  A record pointer is the slot
    index it points at; the null pointer is index 0.
  * The operations, under the names of the source.

  An operation that fails before it has written anything returns `Except.error`
  with the (negative) status.  Debug output is left out.
-/
import Sm8850.Lib.Chain

namespace Sm8850.Ipanat

/-- `enum ipa3_nat_mem_in`. -/
inductive MemIn
  | ddr
  | sram
  deriving DecidableEq

/-- The bit a memory type occupies in rule and table handles. -/
def MemIn.bit : MemIn → ℕ
  | .ddr => 0
  | .sram => 1

def eperm : ℤ := 1
def eio : ℤ := 5
def einval : ℤ := 22

/-- `IPA_TABLE_MAX_ENTRIES`. -/
def ipaTableMaxEntries : ℕ := 5120

/-- `VALID_INDEX`. -/
def validIndex (idx : ℕ) : Bool := idx ≠ 0

theorem validIndex_iff {idx : ℕ} : validIndex idx = true ↔ idx ≠ 0 := decide_eq_true_iff

theorem validIndex_eq_false {idx : ℕ} : validIndex idx = false ↔ idx = 0 :=
  decide_eq_false_iff_not.trans not_not

/-! ## Table dimensions -/

/-- The loop of `Get2PowerTightUpperBound`, one shift of `tmp` per turn. -/
def get2PowerLoop : ℕ → ℕ → ℕ → ℕ → ℕ × ℕ
  | 0, _, prev, curr => (prev, curr)
  | fuel + 1, tmp, prev, curr =>
    if tmp = 1 then (prev, curr) else get2PowerLoop fuel (tmp / 2) curr (2 * curr % 65536)

/-- `Get2PowerTightUpperBound`; sixteen turns empty a 16-bit `tmp`. -/
def get2PowerTightUpperBound (num : ℕ) : ℕ :=
  if num = 0 then 2
  else
    let (prev, curr) := get2PowerLoop 16 num 0 2
    if num = prev then prev else curr

/-- `GetEvenTightUpperBound`. -/
def getEvenTightUpperBound (num : ℕ) : ℕ :=
  if num = 0 then 2 else if num % 2 = 1 then num + 1 else num

/-- The sizes of a table.  The base size is a power of two, which the hash masks
    rely on, and both parts fit the 12 index bits of a rule handle. -/
structure Dims where
  tableEntries : ℕ
  expnTableEntries : ℕ
  base_pow : ∃ k, tableEntries = 2 ^ k
  two_le_base : 2 ≤ tableEntries
  base_le : tableEntries ≤ 4096
  expn_pos : 0 < expnTableEntries
  expn_le : expnTableEntries ≤ 4096

/-- `tot_tbl_ents`. -/
def Dims.totTblEnts (d : Dims) : ℕ := d.tableEntries + d.expnTableEntries

@[simp] theorem Dims.tableEntries_lt_tot (d : Dims) : d.tableEntries < d.totTblEnts := by
  have := d.expn_pos
  simp only [totTblEnts]
  omega

/-- `2 ^ j` as the loop holds it: its first turn starts from 0. -/
private def prevPow (j : ℕ) : ℕ := if j = 0 then 0 else 2 ^ j

private theorem get2PowerLoop_pow (fuel j tmp : ℕ) (h0 : tmp ≠ 0) (ht : tmp < 2 ^ (13 - j))
    (hj : j ≤ 13) : ∃ m ≤ 13, get2PowerLoop fuel tmp (prevPow j) (2 ^ (j + 1)) =
      (prevPow m, 2 ^ (m + 1)) := by
  induction fuel generalizing j tmp with
  | zero => exact ⟨j, hj, rfl⟩
  | succ fuel ih =>
    unfold get2PowerLoop
    split
    · exact ⟨j, hj, rfl⟩
    · have hj' : j < 12 := by
        by_contra hc
        have : 2 ^ (13 - j) ≤ 2 ^ 1 := Nat.pow_le_pow_right (by omega) (by omega)
        omega
      have hsucc : 2 ^ (13 - j) = 2 * 2 ^ (13 - (j + 1)) := by
        rw [← pow_succ']
        congr 1
        omega
      have hcurr : 2 * 2 ^ (j + 1) % 65536 = 2 ^ (j + 1 + 1) := by
        rw [← pow_succ']
        refine Nat.mod_eq_of_lt ((Nat.pow_lt_pow_iff_right (by omega)).2 ?_ : _ < 2 ^ 16)
        omega
      have := ih (j + 1) (tmp / 2) (by omega) (by omega) (by omega)
      simpa only [hcurr, prevPow, Nat.add_one_ne_zero, if_false] using this

theorem get2PowerTightUpperBound_pow (num : ℕ) (h : num < 2 ^ 13) :
    ∃ k, 1 ≤ k ∧ get2PowerTightUpperBound num = 2 ^ k := by
  unfold get2PowerTightUpperBound
  split
  · exact ⟨1, le_rfl, rfl⟩
  · next h0 =>
    obtain ⟨m, -, hm⟩ := get2PowerLoop_pow 16 0 num h0 h (by omega)
    rw [show get2PowerLoop 16 num 0 2 = (prevPow m, 2 ^ (m + 1)) from hm]
    dsimp only
    split
    · next he =>
      rcases Nat.eq_zero_or_pos m with rfl | hpos
      · exact absurd he h0
      · exact ⟨m, hpos, by simp [prevPow, hpos.ne']⟩
    · exact ⟨m + 1, by omega, rfl⟩

theorem getEvenTightUpperBound_bounds (num : ℕ) :
    0 < getEvenTightUpperBound num ∧ getEvenTightUpperBound num ≤ num + 2 := by
  unfold getEvenTightUpperBound
  split_ifs <;> omega

/-- `number_of_entries * btp`, truncated.  The factors are 1.00 for SRAM and .8
    for DDR. -/
def baseShare (n : ℕ) : MemIn → ℕ
  | .sram => n
  | .ddr => n * 8 / 10

/-- `number_of_entries * etp`, truncated.  The factors are 0.43 for SRAM and .2
    for DDR. -/
def expnShare (n : ℕ) : MemIn → ℕ
  | .sram => n * 43 / 100
  | .ddr => n * 2 / 10

theorem baseShare_le (n : ℕ) (nmi : MemIn) : baseShare n nmi ≤ n := by
  cases nmi <;> simp only [baseShare] <;> omega

theorem expnShare_le (n : ℕ) (nmi : MemIn) : expnShare n nmi ≤ n * 43 / 100 := by
  cases nmi <;> simp only [expnShare] <;> omega

/-- A power of two that leaves room in 5120 entries fits twelve bits. -/
private theorem pow_le_of_le {k : ℕ} (h : 2 ^ k ≤ ipaTableMaxEntries) : 2 ^ k ≤ 4096 := by
  have hk : k < 13 := by
    by_contra hc
    have : 2 ^ 13 ≤ 2 ^ k := Nat.pow_le_pow_right (by omega) (by omega)
    simp only [ipaTableMaxEntries] at h
    omega
  exact (Nat.pow_le_pow_right (by omega) (by omega) : 2 ^ k ≤ 2 ^ 12)

/-- `ipa_table_calculate_entries_num`. -/
def ipaTableCalculateEntriesNum (numberOfEntries : ℕ) (nmi : MemIn) : Except ℤ Dims :=
  if hn : numberOfEntries > ipaTableMaxEntries then .error (-einval)
  else
    if ht : get2PowerTightUpperBound (baseShare numberOfEntries nmi) +
        getEvenTightUpperBound (expnShare numberOfEntries nmi) > ipaTableMaxEntries then
      .error (-einval)
    else
      have hpow := get2PowerTightUpperBound_pow (baseShare numberOfEntries nmi) (by
        have := baseShare_le numberOfEntries nmi
        simp only [ipaTableMaxEntries] at hn
        omega)
      have heven := getEvenTightUpperBound_bounds (expnShare numberOfEntries nmi)
      .ok
        { tableEntries := get2PowerTightUpperBound (baseShare numberOfEntries nmi)
          expnTableEntries := getEvenTightUpperBound (expnShare numberOfEntries nmi)
          base_pow := let ⟨k, _, hk⟩ := hpow; ⟨k, hk⟩
          two_le_base := by
            obtain ⟨k, hk1, hk⟩ := hpow
            rw [hk]
            exact Nat.le_self_pow (Nat.one_le_iff_ne_zero.1 hk1) 2
          base_le := by
            obtain ⟨k, -, hk⟩ := hpow
            rw [hk] at ht ⊢
            exact pow_le_of_le ((Nat.le_add_right ..).trans (not_lt.1 ht))
          expn_pos := heven.1
          expn_le := by
            have := expnShare_le numberOfEntries nmi
            simp only [ipaTableMaxEntries] at hn
            omega }

/-! ## Records and commands -/

/-- `ipa_table_dma_type`, for the tables of this library part. -/
inductive TableDmaType
  | natBaseTbl
  | natExpnTbl
  | indxTbl
  | indexExpnTbl

/-- `dma_help_type`. -/
inductive DmaHelpType
  | updateHead
  | updateEntry
  | deleteHead

/-- `struct ipa_ioc_nat_dma_one`. -/
structure DmaOne where
  tableIndex : ℕ
  baseAddr : TableDmaType
  offset : ℕ
  data : ℕ

/-- `struct ipa_ioc_nat_dma_cmd`: the queued entries. -/
abbrev DmaCmd := List DmaOne

/-- `ipa_table_entry_interface` for records `ρ` built from user data `υ`, with
    the layout constants its tables are created with.  A record is read and
    rebuilt by value; `zero` is the record of a `memset`. -/
structure EntryInterface (ρ υ : Type) where
  entrySize : ℕ
  zero : ρ
  entryIsValid : ρ → Bool
  entryGetNextIndex : ρ → ℕ
  entryGetPrevIndex : ρ → ℕ → Option (List ℕ) → ℕ → ℕ
  entrySetPrevIndex : ρ → ℕ → ℕ → Option (List ℕ) → ℕ → ρ × Option (List ℕ)
  entryHeadInsert : ρ → υ → ρ × ℕ
  entryTailInsert : ρ → υ → ρ
  entryGetDeleteHeadDmaCommandData : ρ → ρ → ℕ
  tableType : TableDmaType
  expnTableType : TableDmaType
  fieldOffset : DmaHelpType → ℕ
  /-- The effect of a 16-bit write at a byte offset of the record. -/
  write16 : ρ → ℕ → ℕ → ρ

/-- `ipa_table`: the records of both parts, the side metadata and the counters. -/
structure Table (d : Dims) (ρ : Type) where
  nmi : MemIn
  tableIndx : ℕ
  addrOffset : ℕ
  recs : List ρ
  curTblCnt : ℕ
  curExpnTblCnt : ℕ
  tblMeta : Option (List ℕ)
  len : recs.length = d.totTblEnts

/-- `ipa_table_iterator`; the entry pointers are the indices (0 is NULL). -/
structure Iterator where
  prevIndex : ℕ
  currIndex : ℕ
  nextIndex : ℕ

section Ops
variable {d : Dims} {ρ υ : Type} (I : EntryInterface ρ υ)

/-- The record `GOTO_REC` points at. -/
def Table.gotoRec (t : Table d ρ) (idx : ℕ) : ρ := t.recs.getD idx I.zero

/-- Rewrite one record in place. -/
def Table.modifyRec (t : Table d ρ) (idx : ℕ) (f : ρ → ρ) : Table d ρ :=
  { t with
    recs := t.recs.modify idx f
    len := (List.length_modify f t.recs idx).trans t.len }

def Table.setTblCnt (t : Table d ρ) (c : ℕ) : Table d ρ := { t with curTblCnt := c }

def Table.setExpnTblCnt (t : Table d ρ) (c : ℕ) : Table d ρ := { t with curExpnTblCnt := c }

def Table.setMeta (t : Table d ρ) (m : Option (List ℕ)) : Table d ρ := { t with tblMeta := m }

/-- `++` and `--` on a 16-bit counter. -/
def inc16 (c : ℕ) : ℕ := if c = 65535 then 0 else c + 1
def dec16 (c : ℕ) : ℕ := if c = 0 then 65535 else c - 1

/-- `ipa_table_reset`. -/
def ipaTableReset (t : Table d ρ) : Table d ρ :=
  { t with recs := List.replicate d.totTblEnts I.zero, len := List.length_replicate }

/-- `ipa_table_dma_cmd_generate` with the helper of `ht`. -/
def ipaTableDmaCmdGenerate (t : Table d ρ) (ht : DmaHelpType) (isExpn : Bool)
    (entryOffset data : ℕ) (cmd : DmaCmd) : DmaCmd :=
  cmd ++ [{ tableIndex := t.tableIndx
            baseAddr := if isExpn then I.expnTableType else I.tableType
            offset := t.addrOffset + I.fieldOffset ht + entryOffset
            data := data }]

/-- `ipa_table_add_dma_cmd`; every caller ignores its status. -/
def ipaTableAddDmaCmd (t : Table d ρ) (ht : DmaHelpType) (recIndex data : ℕ)
    (cmd : DmaCmd) : DmaCmd :=
  if recIndex ≥ d.totTblEnts then cmd
  else
    let isExpn : Bool := recIndex ≥ d.tableEntries
    let entryOffset :=
      (if isExpn then recIndex - d.tableEntries else recIndex) * I.entrySize
    ipaTableDmaCmdGenerate I t ht isExpn entryOffset data cmd

/-- `MakeEntryHdl`. -/
def makeEntryHdl (t : Table d ρ) (tblEntry : ℕ) : ℕ :=
  let entryHdl :=
    if tblEntry ≥ d.tableEntries then 2 * (tblEntry - d.tableEntries) + 1 else 2 * tblEntry
  entryHdl + t.nmi.bit * 2 ^ 15

/-- `When2Callback`. -/
inductive When2Callback
  | slotEmpty
  | slotFilled
  deriving DecidableEq

/-- The arguments of an `ipa_table_walk_cb`. -/
structure WalkArgs (ρ : Type) where
  ruleHdl : ℕ
  record : ρ
  recordIndex : ℕ
  metaRecord : Option ℕ
  metaRecordIndex : ℕ

/-- What the loop of `ipa_table_walk` passes for slot `i`. -/
def walkArgs (t : Table d ρ) (i : ℕ) : WalkArgs ρ :=
  let inMeta := i ≥ d.tableEntries ∧ t.tblMeta.isSome
  { ruleHdl := makeEntryHdl t i
    record := t.gotoRec I i
    recordIndex := i
    metaRecord := if inMeta then (t.tblMeta.getD []).getD (i - d.tableEntries) 0 else none
    metaRecordIndex := if inMeta then i - d.tableEntries else 0 }

/-- The loop of `ipa_table_walk` over `n` slots from `i`; the callback state `σ`
    is everything the callback may change. -/
def walkLoop {σ : Type} (t : Table d ρ) (when2cb : When2Callback)
    (walkCb : WalkArgs ρ → σ → ℤ × σ) : ℕ → ℕ → σ → ℤ × σ
  | 0, _, s => (0, s)
  | n + 1, i, s =>
    let callBack :=
      if I.entryIsValid (t.gotoRec I i) then when2cb = .slotFilled else when2cb = .slotEmpty
    if callBack then
      match walkCb (walkArgs I t i) s with
      | (0, s) => walkLoop t when2cb walkCb n (i + 1) s
      | (ret, s) => (ret, s)
    else walkLoop t when2cb walkCb n (i + 1) s

/-- `ipa_table_walk`. -/
def ipaTableWalk {σ : Type} (t : Table d ρ) (startIndex : ℕ) (when2cb : When2Callback)
    (walkCb : WalkArgs ρ → σ → ℤ × σ) (s : σ) : ℤ × σ :=
  if startIndex ≥ d.totTblEnts then (-einval, s)
  else walkLoop I t when2cb walkCb (d.totTblEnts - startIndex) startIndex s

/-- `mt_slot`. -/
def mtSlot (a : WalkArgs ρ) (s : Unit) : ℤ × Unit := (a.recordIndex, s)

/-- `FindExpnTblFreeEntry`. -/
def findExpnTblFreeEntry (t : Table d ρ) : Except ℤ ℕ :=
  let ret := (ipaTableWalk I t d.tableEntries .slotEmpty mtSlot ()).1
  if ret > 0 then .ok ret.toNat else .error (-1)

/-- The loop of `ipa_table_iterator_end`.  A chain visits no slot twice, so the
    number of slots bounds its turns. -/
def iteratorEndLoop (t : Table d ρ) : ℕ → ℕ → Except ℤ ℕ
  | 0, _ => .error (-1)
  | fuel + 1, prevIndex =>
    let nextIndex := I.entryGetNextIndex (t.gotoRec I prevIndex)
    if ! validIndex nextIndex then .ok prevIndex
    else if nextIndex = prevIndex then .error (-1)
    else iteratorEndLoop t fuel nextIndex

/-- `ipa_table_iterator_end`: the last slot of the chain through `recIndex`. -/
def ipaTableIteratorEnd (t : Table d ρ) (recIndex : ℕ) : Except ℤ ℕ :=
  iteratorEndLoop I t d.totTblEnts recIndex

/-- `InsertHead`. -/
def insertHead (t : Table d ρ) (recIndex : ℕ) (userData : υ) (cmd : DmaCmd) :
    Table d ρ × DmaCmd :=
  let (entry, enableData) := I.entryHeadInsert (t.gotoRec I recIndex) userData
  let t := t.modifyRec recIndex fun _ => entry
  let cmd := ipaTableAddDmaCmd I t .updateHead recIndex enableData cmd
  (t.setTblCnt (inc16 t.curTblCnt), cmd)

/-- `entry_set_prev_index` on the record at `idx`. -/
def setPrevIndex (t : Table d ρ) (idx prevIndex : ℕ) : Table d ρ :=
  let (entry, tblMeta) :=
    I.entrySetPrevIndex (t.gotoRec I idx) idx prevIndex t.tblMeta d.tableEntries
  (t.modifyRec idx fun _ => entry).setMeta tblMeta

/-- `InsertTail`; the new index comes back in place of `*rec_index_ptr`. -/
def insertTail (t : Table d ρ) (recIndex : ℕ) (userData : υ) (cmd : DmaCmd) :
    Except ℤ (Table d ρ × ℕ × DmaCmd) := do
  let isIndexTbl := t.tblMeta.isSome
  let prevIndex ← ipaTableIteratorEnd I t recIndex
  let currIndex ← findExpnTblFreeEntry I t
  let (entry, enableData) :=
    if isIndexTbl then (I.entryTailInsert (t.gotoRec I currIndex) userData, 0)
    else I.entryHeadInsert (t.gotoRec I currIndex) userData
  let t := t.modifyRec currIndex fun _ => entry
  let t := setPrevIndex I t currIndex prevIndex
  let cmd :=
    if isIndexTbl then cmd else ipaTableAddDmaCmd I t .updateHead currIndex enableData cmd
  let cmd := ipaTableAddDmaCmd I t .updateEntry prevIndex currIndex cmd
  return (t.setExpnTblCnt (inc16 t.curExpnTblCnt), currIndex, cmd)

/-- What a successful `ipa_table_add_entry` leaves: `*rec_index_ptr`, `*rule_hdl`
    and the queued commands. -/
structure AddEntry (d : Dims) (ρ : Type) where
  table : Table d ρ
  recIndex : ℕ
  ruleHdl : ℕ
  cmd : DmaCmd

/-- `ipa_table_add_entry`. -/
def ipaTableAddEntry (t : Table d ρ) (userData : υ) (recIndex : ℕ) (cmd : DmaCmd) :
    Except ℤ (AddEntry d ρ) := do
  let occupied := I.entryIsValid (t.gotoRec I recIndex)
  let (t, recIndex, cmd) ←
    if ! occupied then
      let (t, cmd) := insertHead I t recIndex userData cmd
      .ok (t, recIndex, cmd)
    else insertTail I t recIndex userData cmd
  return { table := t, recIndex, ruleHdl := makeEntryHdl t recIndex, cmd }

/-- `ipa_table_create_delete_command`. -/
def ipaTableCreateDeleteCommand (t : Table d ρ) (cmd : DmaCmd) (it : Iterator) : DmaCmd :=
  if ! validIndex it.prevIndex then
    if validIndex it.nextIndex then
      let data := I.entryGetDeleteHeadDmaCommandData (t.gotoRec I it.currIndex)
        (t.gotoRec I it.nextIndex)
      ipaTableAddDmaCmd I t .deleteHead it.currIndex data cmd
    else ipaTableAddDmaCmd I t .updateHead it.currIndex 0 cmd
  else ipaTableAddDmaCmd I t .updateEntry it.prevIndex it.nextIndex cmd

/-- `ipa_table_erase_entry`. -/
def ipaTableEraseEntry (t : Table d ρ) (index : ℕ) : Table d ρ :=
  let t := t.modifyRec index fun _ => I.zero
  if index < d.tableEntries then t.setTblCnt (dec16 t.curTblCnt)
  else t.setExpnTblCnt (dec16 t.curExpnTblCnt)

/-- `ipa_table_delete_entry`. -/
def ipaTableDeleteEntry (t : Table d ρ) (it : Iterator) (isPrevEmpty : Bool) : Table d ρ :=
  let t :=
    if validIndex it.nextIndex then setPrevIndex I t it.nextIndex it.prevIndex
    else if isPrevEmpty && validIndex it.prevIndex then
      -- the dead head goes with the last of its tail
      let t := t.modifyRec it.prevIndex fun _ => I.zero
      t.setTblCnt (dec16 t.curTblCnt)
    else t
  ipaTableEraseEntry I t it.currIndex

/-- `BREAK_RULE_HDL`: memory type bit, expansion bit and absolute index. -/
def breakRuleHdl (d : Dims) (hdl : ℕ) : ℕ × ℕ × ℕ :=
  let mt := hdl / 2 ^ 15 % 2
  let iet := hdl % 2
  let indx := hdl / 2 % 2 ^ 12
  (mt, iet, if iet = 1 then indx + d.tableEntries else indx)

/-- `ipa_table_get_entry`: the absolute index a handle names. -/
def ipaTableGetEntry (d : Dims) (entryHandle : ℕ) : Except ℤ ℕ :=
  let recIndex := (breakRuleHdl d entryHandle).2.2
  if recIndex ≥ d.totTblEnts then .error (-einval) else .ok recIndex

/-- `ipa_table_get_entry_by_index`: `none` is the null pointer. -/
def ipaTableGetEntryByIndex (d : Dims) (recIndex : ℕ) : Option ℕ :=
  if recIndex = 0 ∨ recIndex ≥ d.totTblEnts then none else some recIndex

/-- `ipa_table_iterator_init`. -/
def ipaTableIteratorInit (t : Table d ρ) (currIndex : ℕ) : Except ℤ Iterator :=
  let entry := t.gotoRec I currIndex
  if ! I.entryIsValid entry then .error (-einval)
  else
    let prevIndex := I.entryGetPrevIndex entry currIndex t.tblMeta d.tableEntries
    let nextIndex := I.entryGetNextIndex entry
    if validIndex prevIndex && (ipaTableGetEntryByIndex d prevIndex).isNone then .error (-eperm)
    else if validIndex nextIndex && (ipaTableGetEntryByIndex d nextIndex).isNone then
      .error (-eperm)
    else .ok { prevIndex, currIndex, nextIndex }

/-- `ipa_table_iterator_next`. -/
def ipaTableIteratorNext (it : Iterator) (t : Table d ρ) : Except ℤ Iterator :=
  let nextIndex := I.entryGetNextIndex (t.gotoRec I it.nextIndex)
  if validIndex nextIndex && (ipaTableGetEntryByIndex d nextIndex).isNone then .error (-eperm)
  else .ok { prevIndex := it.currIndex, currIndex := it.nextIndex, nextIndex }

/-- `ipa_table_iterator_is_head_with_tail`. -/
def ipaTableIteratorIsHeadWithTail (it : Iterator) : Bool :=
  validIndex it.nextIndex && ! validIndex it.prevIndex

end Ops

end Sm8850.Ipanat
