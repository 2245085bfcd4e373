/-
  The NAT driver interface (`ipa_nat_drvi.c`): the two table caches and the
  `ipa_NATI_*` calls on them.

  * `Ip4Tbl`: one IPv4 NAT table with its index table.
  * `applyDma`: a posted DMA command writes each 16-bit datum at its field.
  * `Drv`: the file's static state.  `Env` answers the system calls in the order
    they are made; the recursive mutex always locks.
  * `ipaNATIAddIpv4Rule`, `ipaNATIDelIpv4Rule`, `ipaNATIClearIpv4Tbl` and the
    calls that create, delete, walk and measure tables.
-/
import Sm8850.Ipanat.Rule

namespace Sm8850.Ipanat

/-- `struct ipa_nat_ip4_table_cache`, of given dimensions. -/
structure Ip4Tbl (d : Dims) where
  publicAddr : UInt32
  table : Table d NatRule
  indexTable : Table d IndxTblRule

/-- `struct ipa_nat_cache`.  `ip4Tbl` is there while `mem_desc.valid` is set. -/
structure NatCache where
  ipaDesc : Bool
  tableCnt : ℕ
  ip4Tbl : Option (Σ d : Dims, Ip4Tbl d)

/-- The static data of the file; `calls` counts the system calls made. -/
structure Drv where
  ddr : NatCache
  sram : NatCache
  activeNatCache : Option MemIn
  pdns : List PdnEntry
  numPdns : ℕ
  hashToken : ℕ
  calls : ℕ

/-- The environment: whether the `n`-th system call succeeds, whether the hardware
    is version 4.0 or later, the SRAM size and the offset of a table in its memory
    that the kernel reports. -/
structure Env where
  io : ℕ → Bool
  ver4 : Bool
  sramSize : ℕ
  addrOffset : ℕ

/-- `&ipv4_nat_cache[nmi]`. -/
def Drv.natCache (w : Drv) : MemIn → NatCache
  | .ddr => w.ddr
  | .sram => w.sram

def Drv.setNatCache (w : Drv) (nmi : MemIn) (c : NatCache) : Drv :=
  match nmi with
  | .ddr => { w with ddr := c }
  | .sram => { w with sram := c }

/-- Replace the table of a cache. -/
def Drv.setIp4Tbl {d : Dims} (w : Drv) (nmi : MemIn) (tbl : Ip4Tbl d) : Drv :=
  w.setNatCache nmi { w.natCache nmi with ip4Tbl := some ⟨d, tbl⟩ }

/-- Make one system call. -/
def sysCall (env : Env) (w : Drv) : Bool × Drv := (env.io w.calls, { w with calls := w.calls + 1 })

/-- `MAKE_TBL_HDL`. -/
def makeTblHdl (hdl : ℕ) (nmi : MemIn) : ℕ := nmi.bit * 2 ^ 31 + hdl

/-- `BREAK_TBL_HDL`: both memory types are valid ones. -/
def breakTblHdl (hdlIn : ℕ) : MemIn × ℕ :=
  (if hdlIn / 2 ^ 31 % 2 = 1 then .sram else .ddr, hdlIn % 2 ^ 8)

/-- `VALID_TBL_HDL`. -/
def validTblHdl (h : ℕ) : Bool := h % 2 ^ 8 = 1

/-- `&nat_cache_ptr->ip4_tbl[tbl_hdl - 1]` when its memory is valid; a cache has one
    table. -/
def ip4TblAt (w : Drv) (tblHdl : ℕ) : Option (Σ d : Dims, Ip4Tbl d) :=
  if (breakTblHdl tblHdl).2 = 1 then (w.natCache (breakTblHdl tblHdl).1).ip4Tbl else none

/-! ## DMA commands -/

section Dma
variable {d : Dims}

/-- Write a 16-bit datum `rel` bytes into the part of a table that starts at slot
    `start`. -/
def Table.dmaWrite {ρ υ : Type} (I : EntryInterface ρ υ) (t : Table d ρ) (start rel data : ℕ) :
    Table d ρ :=
  t.modifyRec (start + rel / I.entrySize) fun r => I.write16 r (rel % I.entrySize) data

/-- One entry of a posted command: `base_addr` selects the part, `offset` the
    field. -/
def applyDmaOne (tbl : Ip4Tbl d) (dma : DmaOne) : Ip4Tbl d :=
  let nat := fun start => { tbl with
    table := tbl.table.dmaWrite entryInterface start (dma.offset - tbl.table.addrOffset)
      dma.data }
  let indx := fun start => { tbl with
    indexTable := tbl.indexTable.dmaWrite indexEntryInterface start
      (dma.offset - tbl.indexTable.addrOffset) dma.data }
  match dma.baseAddr with
  | .natBaseTbl => nat 0
  | .natExpnTbl => nat d.tableEntries
  | .indxTbl => indx 0
  | .indexExpnTbl => indx d.tableEntries

/-- The effect of a posted `struct ipa_ioc_nat_dma_cmd`. -/
def applyDma (tbl : Ip4Tbl d) (cmd : DmaCmd) : Ip4Tbl d := cmd.foldl applyDmaOne tbl

end Dma

/-- `ipa_nati_post_ipv4_dma_cmd` on the table of `nmi`. -/
def ipaNatiPostIpv4DmaCmd {d : Dims} (env : Env) (w : Drv) (nmi : MemIn) (tbl : Ip4Tbl d)
    (cmd : DmaCmd) : ℤ × Ip4Tbl d × Drv :=
  match sysCall env w with
  | (true, w) => (0, applyDma tbl cmd, w.setIp4Tbl nmi (applyDma tbl cmd))
  | (false, w) => (-eio, tbl, w.setIp4Tbl nmi tbl)

/-! ## Adding a rule -/

section AddRule
variable {d : Dims}

/-- A bucket moved on by `Hash_token`, for rules that are only looked up the other
    way. -/
def tokenBucket (d : Dims) (hash hashToken : ℕ) : ℕ :=
  let index := (hash + hashToken) % 2 ^ 16 &&& (d.tableEntries - 1)
  if index = 0 then d.tableEntries - 1 else index

/-- The NAT bucket of a rule and the token after it. -/
def newEntryIndex (env : Env) (d : Dims) (pdns : List PdnEntry) (hashToken : ℕ)
    (r : Ipv4Rule) : ℕ × ℕ :=
  let hash := dstHash env.ver4 (pdnAt pdns r.pdnIndex.toNat).publicIp r.targetIp r.targetPort
    r.publicPort r.protocol (d.tableEntries - 1)
  if r.srcOnly then (tokenBucket d hash hashToken, hashToken + 1) else (hash, hashToken)

/-- The index bucket of a rule and the token after it. -/
def newIndexTblEntryIndex (d : Dims) (hashToken : ℕ) (r : Ipv4Rule) : ℕ × ℕ :=
  let hash := srcHash r.privateIp r.privatePort r.targetIp r.targetPort r.protocol
    (d.tableEntries - 1)
  if r.dstOnly then (tokenBucket d hash hashToken, hashToken + 1) else (hash, hashToken)

/-- The fields `ipa_NATI_add_ipv4_rule` writes itself, once both entries exist. -/
def writeRuleFields (clnt : Ipv4Rule) (newIndexTblEntry : ℕ) (rule : NatRule) : NatRule :=
  { rule with
    indxTblEntry := newIndexTblEntry
    redirect := clnt.redirect.toNat.testBit 0
    enable := clnt.enable.toNat.testBit 0
    timeStamp := BitVec.ofNat 24 clnt.timeStamp.toNat }

/-- What is ready to be posted: the table with its direct writes, both indices, the
    handle and the command. -/
structure PreparedAdd (d : Dims) where
  tbl : Ip4Tbl d
  newEntryIndex : ℕ
  newIndexTblEntryIndex : ℕ
  newEntryHandle : ℕ
  cmd : DmaCmd

/-- `ipa_NATI_add_ipv4_rule` between taking the table and posting the command.  An
    error leaves the table as the `fail_add_index_entry` path does. -/
def prepareAdd (env : Env) (pdns : List PdnEntry) (hashToken : ℕ) (tbl : Ip4Tbl d)
    (clnt : Ipv4Rule) : ℕ × Except (ℤ × Ip4Tbl d) (PreparedAdd d) :=
  let (bucket, hashToken) := newEntryIndex env d pdns hashToken clnt
  match ipaTableAddEntry entryInterface tbl.table ⟨pdns, clnt⟩ bucket [] with
  | .error ret => (hashToken, .error (ret, tbl))
  | .ok nat =>
    let (bucket, hashToken) := newIndexTblEntryIndex d hashToken clnt
    match ipaTableAddEntry indexEntryInterface tbl.indexTable nat.recIndex bucket nat.cmd with
    | .error ret =>
      let table := ipaTableEraseEntry entryInterface nat.table nat.recIndex
      (hashToken, .error (ret, { tbl with table }))
    | .ok indx =>
      match ipaTableGetEntryByIndex d nat.recIndex with
      | none =>
        let table := ipaTableEraseEntry entryInterface nat.table nat.recIndex
        let indexTable := ipaTableEraseEntry indexEntryInterface indx.table indx.recIndex
        (hashToken, .error (-eperm, { tbl with table, indexTable }))
      | some rule =>
        let table := nat.table.modifyRec rule (writeRuleFields clnt indx.recIndex)
        (hashToken, .ok
          { tbl := { tbl with table, indexTable := indx.table }
            newEntryIndex := nat.recIndex
            newIndexTblEntryIndex := indx.recIndex
            newEntryHandle := nat.ruleHdl
            cmd := indx.cmd })

/-- The `bail` path: drop both entries again. -/
def eraseBoth (tbl : Ip4Tbl d) (entryIndex indexTblEntryIndex : ℕ) : Ip4Tbl d :=
  { tbl with
    indexTable := ipaTableEraseEntry indexEntryInterface tbl.indexTable indexTblEntryIndex
    table := ipaTableEraseEntry entryInterface tbl.table entryIndex }

/-- The argument checks of `ipa_NATI_add_ipv4_rule` after the handle's: a protocol
    in use and a PDN with an address. -/
def clntRuleValid (pdns : List PdnEntry) (clnt : Ipv4Rule) : Bool :=
  clnt.protocol ≠ ipahalNatInvalidProtocol ∧ clnt.pdnIndex.toNat < 16 ∧
    (pdnAt pdns clnt.pdnIndex.toNat).publicIp ≠ 0

/-- `ipa_NATI_add_ipv4_rule`.  The second component is what it stores through
    `rule_hdl`, `none` when it stores nothing. -/
def ipaNATIAddIpv4Rule (env : Env) (w : Drv) (tblHdl : ℕ) (clnt : Ipv4Rule) :
    ℤ × Option ℕ × Drv :=
  if ! validTblHdl tblHdl then (-einval, none, w)
  else if ! clntRuleValid w.pdns clnt then (-einval, some 0, w)
  else
    let nmi := (breakTblHdl tblHdl).1
    match ip4TblAt w tblHdl with
    | none => (-einval, some 0, w)
    | some ⟨_, tbl⟩ =>
      match prepareAdd env w.pdns w.hashToken tbl clnt with
      | (hashToken, .error (ret, tbl)) =>
        (ret, some 0, { w with hashToken }.setIp4Tbl nmi tbl)
      | (hashToken, .ok p) =>
        match ipaNatiPostIpv4DmaCmd env { w with hashToken } nmi p.tbl p.cmd with
        | (0, _, w) => (0, some p.newEntryHandle, w)
        | (ret, tbl, w) =>
          (ret, some 0, w.setIp4Tbl nmi
            (eraseBoth tbl p.newEntryIndex p.newIndexTblEntryIndex))

end AddRule

/-! ## Deleting a rule -/

section DelRule
variable {d : Dims}

/-- `ipa_nati_copy_second_index_entry_to_head`: queue the link, and point the rule of
    the second entry at the head. -/
def ipaNatiCopySecondIndexEntryToHead (tbl : Ip4Tbl d) (it : Iterator) (cmd : DmaCmd) :
    Ip4Tbl d × DmaCmd :=
  let second := tbl.indexTable.gotoRec indexEntryInterface it.nextIndex
  let cmd := ipaTableAddDmaCmd indexEntryInterface tbl.indexTable .updateEntry it.currIndex
    second.nextIndex cmd
  let table := tbl.table.modifyRec second.tblEntry fun r =>
    { r with indxTblEntry := it.currIndex }
  ({ tbl with table }, cmd)

/-- What is ready to be posted by a delete. -/
structure PreparedDel where
  tableIterator : Iterator
  indexTableIterator : Iterator
  cmd : DmaCmd

/-- `ipa_NATI_del_ipv4_rule` between taking the table and posting the command. -/
def prepareDel (tbl : Ip4Tbl d) (ruleHdl : ℕ) : Ip4Tbl d × Except ℤ PreparedDel :=
  let nat := entryInterface
  match ipaTableGetEntry d ruleHdl with
  | .error ret => (tbl, .error ret)
  | .ok index =>
    match ipaTableIteratorInit nat tbl.table index with
    | .error ret => (tbl, .error ret)
    | .ok tableIterator =>
      match ipaTableGetEntryByIndex d (tbl.table.gotoRec nat index).indxTblEntry with
      | none => (tbl, .error (-eperm))
      | some index =>
        match ipaTableIteratorInit indexEntryInterface tbl.indexTable index with
        | .error ret => (tbl, .error ret)
        | .ok it =>
          let cmd := ipaTableCreateDeleteCommand indexEntryInterface tbl.indexTable [] it
          if ipaTableIteratorIsHeadWithTail it then
            let (tbl, cmd) := ipaNatiCopySecondIndexEntryToHead tbl it cmd
            -- the next entry is the one that goes
            match ipaTableIteratorNext indexEntryInterface it tbl.indexTable with
            | .error ret => (tbl, .error ret)
            | .ok it =>
              let cmd := ipaTableCreateDeleteCommand nat tbl.table cmd tableIterator
              (tbl, .ok { tableIterator, indexTableIterator := it, cmd })
          else
            let cmd := ipaTableCreateDeleteCommand nat tbl.table cmd tableIterator
            (tbl, .ok { tableIterator, indexTableIterator := it, cmd })

/-- `ipa_NATI_del_ipv4_rule` after the command has been posted. -/
def commitDel (tbl : Ip4Tbl d) (p : PreparedDel) : Ip4Tbl d :=
  let nat := entryInterface
  let it := p.tableIterator
  let table :=
    if ! ipaTableIteratorIsHeadWithTail it then
      let isPrevEmpty := validIndex it.prevIndex &&
        (tbl.table.gotoRec nat it.prevIndex).protocol == ipahalNatInvalidProtocol
      ipaTableDeleteEntry nat tbl.table it isPrevEmpty
    else tbl.table
  let indexTable :=
    ipaTableDeleteEntry indexEntryInterface tbl.indexTable p.indexTableIterator false
  let curr := p.indexTableIterator.currIndex
  let indexTable :=
    if curr ≥ d.tableEntries then
      indexTable.setMeta (indexTable.tblMeta.map fun m => m.set (curr - d.tableEntries) 0)
    else indexTable
  { tbl with table, indexTable }

/-- `ipa_NATI_del_ipv4_rule`. -/
def ipaNATIDelIpv4Rule (env : Env) (w : Drv) (tblHdl ruleHdl : ℕ) : ℤ × Drv :=
  let nmi := (breakTblHdl tblHdl).1
  match ip4TblAt w tblHdl with
  | none => (-einval, w)
  | some ⟨_, tbl⟩ =>
    match prepareDel tbl ruleHdl with
    | (tbl, .error ret) => (ret, w.setIp4Tbl nmi tbl)
    | (tbl, .ok p) =>
      match ipaNatiPostIpv4DmaCmd env w nmi tbl p.cmd with
      | (0, tbl, w) => (0, w.setIp4Tbl nmi (commitDel tbl p))
      | (ret, _, w) => (ret, w)

end DelRule

/-! ## Whole tables -/

/-- Both tables after `ipa_table_reset`, with their counters cleared.  The side
    metadata keeps its old contents. -/
def clearIp4Tbl {d : Dims} (tbl : Ip4Tbl d) : Ip4Tbl d :=
  { tbl with
    table := ((ipaTableReset entryInterface tbl.table).setTblCnt 0).setExpnTblCnt 0
    indexTable :=
      ((ipaTableReset indexEntryInterface tbl.indexTable).setTblCnt 0).setExpnTblCnt 0 }

/-- `ipa_NATI_clear_ipv4_tbl`. -/
def ipaNATIClearIpv4Tbl (w : Drv) (tblHdl : ℕ) : ℤ × Drv :=
  let nmi := (breakTblHdl tblHdl).1
  if (w.natCache nmi).tableCnt = 0 then (-einval, w)
  else
    match ip4TblAt w tblHdl with
    | none => (-einval, w)
    | some ⟨_, tbl⟩ => (0, w.setIp4Tbl nmi (clearIp4Tbl tbl))

/-- The tables `ipa_nati_create_table` lays out: zero records and metadata. -/
def freshIp4Tbl (d : Dims) (nmi : MemIn) (publicAddr : UInt32) (addrOffset : ℕ) : Ip4Tbl d where
  publicAddr := publicAddr
  table :=
    { nmi, tableIndx := 0, addrOffset
      recs := List.replicate d.totTblEnts NatRule.zero
      curTblCnt := 0
      curExpnTblCnt := 0
      tblMeta := none
      len := List.length_replicate }
  indexTable :=
    { nmi, tableIndx := 0, addrOffset
      recs := List.replicate d.totTblEnts IndxTblRule.zero
      curTblCnt := 0
      curExpnTblCnt := 0
      tblMeta := some (List.replicate d.expnTableEntries 0)
      len := List.length_replicate }

/-- `ipa_nati_create_table`; the memory allocation is the system call. -/
def ipaNatiCreateTable (env : Env) (w : Drv) (nmi : MemIn) (publicIpAddr : UInt32)
    (numberOfEntries : ℕ) : Except ℤ (Σ d : Dims, Ip4Tbl d) × Drv :=
  match ipaTableCalculateEntriesNum numberOfEntries nmi with
  | .error ret => (.error ret, w)
  | .ok d =>
    match sysCall env w with
    | (false, w) => (.error (-eio), w)
    | (true, w) => (.ok ⟨d, freshIp4Tbl d nmi publicIpAddr env.addrOffset⟩, w)

/-- Open the device of a cache if it is not open yet. -/
def openDesc (env : Env) (w : Drv) (nmi : MemIn) : Bool × Drv :=
  if (w.natCache nmi).ipaDesc then (true, w)
  else
    match sysCall env w with
    | (true, w) => (true, w.setNatCache nmi { w.natCache nmi with ipaDesc := true })
    | (false, w) => (false, w)

/-- `ipa_nati_post_ipv4_init_cmd`: one `ioctl`. -/
def ipaNatiPostIpv4InitCmd (env : Env) (w : Drv) : ℤ × Drv :=
  match sysCall env w with
  | (true, w) => (0, w)
  | (false, w) => (-1, w)

/-- `ipa_NATI_post_ipv4_init_cmd`: focus the hardware on a table. -/
def ipaNATIPostIpv4InitCmd (env : Env) (w : Drv) (tblHdl : ℕ) : ℤ × Drv :=
  let nmi := (breakTblHdl tblHdl).1
  if (w.natCache nmi).tableCnt = 0 then (-einval, w)
  else
    match ipaNatiPostIpv4InitCmd env w with
    | (0, w) => (0, { w with activeNatCache := some nmi })
    | (ret, w) => (ret, w)

/-- `ipa_nati_destroy_table`: the table goes even when the kernel keeps the memory. -/
def ipaNatiDestroyTable (env : Env) (w : Drv) (nmi : MemIn) : ℤ × Drv :=
  let (ok, w) := sysCall env w
  (if ok then 0 else -1, w.setNatCache nmi { w.natCache nmi with ip4Tbl := none })

/-- `ipa_NATI_add_ipv4_tbl`; the handle is 0 unless it succeeds. -/
def ipaNATIAddIpv4Tbl (env : Env) (w : Drv) (nmi : MemIn) (publicIpAddr : UInt32)
    (numberOfEntries : ℕ) : ℤ × ℕ × Drv :=
  if (w.natCache nmi).tableCnt ≥ 1 then (-einval, 0, w)
  else
    match openDesc env w nmi with
    | (false, w) => (-eio, 0, w)
    | (true, w) =>
      let closed := fun w : Drv =>
        w.setNatCache nmi { ipaDesc := false, tableCnt := 0, ip4Tbl := none }
      match ipaNatiCreateTable env w nmi publicIpAddr numberOfEntries with
      | (.error ret, w) => (ret, 0, closed w)
      | (.ok tbl, w) =>
        match ipaNatiPostIpv4InitCmd env w with
        | (0, w) =>
          let pdns := w.pdns.modify 0 fun p => { p with publicIp := publicIpAddr }
          let w := { w with activeNatCache := some nmi, pdns, numPdns := 1 }
          (0, makeTblHdl 1 nmi, w.setNatCache nmi { ipaDesc := true, tableCnt := 1, ip4Tbl := tbl })
        | (ret, w) => (ret, 0, closed (ipaNatiDestroyTable env w nmi).2)

/-- `ipa_NATI_del_ipv4_table`. -/
def ipaNATIDelIpv4Table (env : Env) (w : Drv) (tblHdl : ℕ) : ℤ × Drv :=
  let nmi := (breakTblHdl tblHdl).1
  match ip4TblAt w tblHdl with
  | none => (-einval, w)
  | some _ =>
    match ipaNatiDestroyTable env w nmi with
    | (0, w) =>
      let tableCnt := (w.natCache nmi).tableCnt - 1
      (0, w.setNatCache nmi
        { w.natCache nmi with tableCnt, ipaDesc := (w.natCache nmi).ipaDesc && tableCnt ≠ 0 })
    | (ret, w) => (ret, w)

/-- `ipa_NATI_query_timestamp`. -/
def ipaNATIQueryTimestamp (w : Drv) (tblHdl ruleHdl : ℕ) : ℤ × Option ℕ :=
  match ip4TblAt w tblHdl with
  | none => (-einval, none)
  | some ⟨d, tbl⟩ =>
    match ipaTableGetEntry d ruleHdl with
    | .error ret => (ret, none)
    | .ok index =>
      (0, some (tbl.table.gotoRec entryInterface index).timeStamp.toNat)

/-- `ipa_nati_get_sram_size`. -/
def ipaNatiGetSramSize (env : Env) (w : Drv) : ℤ × ℕ × Drv :=
  match openDesc env w .sram with
  | (false, w) => (-eio, 0, w)
  | (true, w) =>
    match sysCall env w with
    | (false, w) => (-1, 0, w)
    | (true, w) => (if env.sramSize = 0 then -einval else 0, env.sramSize, w)

/-- `ipa_nati_vote_clock`. -/
def ipaNatiVoteClock (env : Env) (w : Drv) : ℤ × Drv :=
  match openDesc env w .sram with
  | (false, w) => (-eio, w)
  | (true, w) =>
    match sysCall env w with
    | (true, w) => (0, w)
    | (false, w) => (-1, w)

/-- `ipa_nati_modify_pdn`; the entry goes to the kernel first. -/
def ipaNatiModifyPdn (env : Env) (w : Drv) (pdnIndex : ℕ) (entry : PdnEntry) : ℤ × Drv :=
  let nmi : MemIn := if w.ddr.ipaDesc then .ddr else .sram
  if ! (w.natCache nmi).ipaDesc then (-eio, w)
  else
    match sysCall env w with
    | (true, w) => (0, { w with pdns := w.pdns.set pdnIndex entry })
    | (false, w) => (-1, w)

/-! ## Walks and statistics -/

/-- `ipa_NATI_walk_ipv4_tbl` over the table that `which` selects. -/
def ipaNATIWalkIpv4Tbl {ρ υ σ : Type} (I : EntryInterface ρ υ)
    (which : {d : Dims} → Ip4Tbl d → Table d ρ) (w : Drv) (tblHdl : ℕ)
    (walkCb : {d : Dims} → Table d ρ → WalkArgs ρ → σ → ℤ × σ) (s : σ) : ℤ × σ :=
  if ! validTblHdl tblHdl then (-einval, s)
  else if (w.natCache (breakTblHdl tblHdl).1).tableCnt = 0 then (-einval, s)
  else
    match ip4TblAt w tblHdl with
    | none => (-einval, s)
    | some ⟨_, tbl⟩ => ipaTableWalk I (which tbl) 0 .slotFilled (walkCb (which tbl)) s

/-- `ipa_nati_tbl_stats`, without the average chain length. -/
structure TblStats where
  nmi : MemIn
  totEnts : ℕ
  totBaseEnts : ℕ
  totExpnEnts : ℕ
  totBaseEntsFilled : ℕ
  totExpnEntsFilled : ℕ
  totChains : ℕ
  minChainLen : ℕ
  maxChainLen : ℕ

def TblStats.zero : TblStats := ⟨.ddr, 0, 0, 0, 0, 0, 0, 0, 0⟩

section Stats
variable {d : Dims} {ρ υ : Type} (I : EntryInterface ρ υ)

/-- The inner loop of `gen_chain_stats`; a chain visits no slot twice. -/
def chainLenLoop (t : Table d ρ) : ℕ → ρ → ℕ → ℕ
  | 0, _, chainLen => chainLen
  | fuel + 1, listElem, chainLen =>
    if I.entryGetNextIndex listElem = 0 then chainLen
    else chainLenLoop t fuel (t.gotoRec I (I.entryGetNextIndex listElem)) (chainLen + 1)

/-- `gen_chain_stats`: the walk stops at the first expansion slot. -/
def genChainStats (t : Table d ρ) (a : WalkArgs ρ) (stats : TblStats) : ℤ × TblStats :=
  if (breakRuleHdl d a.ruleHdl).2.1 = 1 then (1, stats)
  else if I.entryGetNextIndex a.record = 0 then (0, stats)
  else
    let chainLen := chainLenLoop I t d.totTblEnts a.record 1
    (0, { stats with
      totChains := stats.totChains + 1
      minChainLen := if stats.minChainLen = 0 then chainLen else min stats.minChainLen chainLen
      maxChainLen := max stats.maxChainLen chainLen })

/-- One half of `ipa_NATI_ipv4_tbl_stats`. -/
def tblStats (t : Table d ρ) (nmi : MemIn) : ℤ × TblStats :=
  ipaTableWalk I t 0 .slotFilled (genChainStats I t)
    { TblStats.zero with
      nmi
      totBaseEnts := d.tableEntries
      totExpnEnts := d.expnTableEntries
      totEnts := d.tableEntries + d.expnTableEntries
      totBaseEntsFilled := t.curTblCnt
      totExpnEntsFilled := t.curExpnTblCnt }

end Stats

/-- `ipa_NATI_ipv4_tbl_stats`: of the NAT table, then of the index table. -/
def ipaNATIIpv4TblStats (w : Drv) (tblHdl : ℕ) : ℤ × Option (TblStats × TblStats) :=
  let nmi := (breakTblHdl tblHdl).1
  if ! validTblHdl tblHdl then (-einval, none)
  else if (w.natCache nmi).tableCnt = 0 then (-einval, some (.zero, .zero))
  else
    match ip4TblAt w tblHdl with
    | none => (-einval, some (.zero, .zero))
    | some ⟨_, tbl⟩ =>
      let (ret, natStats) := tblStats entryInterface tbl.table nmi
      if ret < 0 then (-einval, some (natStats, .zero))
      else
        let (ret, idxStats) := tblStats indexEntryInterface tbl.indexTable nmi
        if ret < 0 then (-einval, some (natStats, idxStats))
        else (0, some (natStats, idxStats))

end Sm8850.Ipanat
