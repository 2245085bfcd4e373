/-
  NAT rules and index entries (`ipa_nat_drvi.h` and the private helpers of
  `ipa_nat_drvi.c`).

  * `NatRule`, `IndxTblRule`: the two record layouts, little endian.
  * `entryInterface`, `indexEntryInterface`: their callback tables.
  * `dstHash`, `srcHash`: the buckets of the NAT and the index table.

  Slot numbers are natural numbers; every other field keeps its width.  The
  reserved bits and the text printers are left out.
-/
import Sm8850.Ipanat.Table

namespace Sm8850.Ipanat

/-- `ipa_nat_ipv4_rule`: a rule as a client gives it. -/
structure Ipv4Rule where
  targetIp : UInt32
  privateIp : UInt32
  targetPort : UInt16
  privatePort : UInt16
  publicPort : UInt16
  protocol : UInt8
  pdnIndex : UInt8
  redirect : UInt8
  enable : UInt8
  timeStamp : UInt32
  ucActivationIndex : UInt16
  s : Bool
  ucp : Bool
  dstOnly : Bool
  srcOnly : Bool

/-- `ipa_nat_pdn_entry`. -/
structure PdnEntry where
  publicIp : UInt32
  srcMetadata : UInt32
  dstMetadata : UInt32
  deriving DecidableEq

def PdnEntry.zero : PdnEntry := ⟨0, 0, 0⟩

/-- `struct ipa_nat_rule`: a record of the NAT table. -/
structure NatRule where
  privateIp : UInt32
  targetIp : UInt32
  nextIndex : ℕ
  publicPort : UInt16
  privatePort : UInt16
  targetPort : UInt16
  ipChksum : UInt16
  ucActivationIndex : BitVec 13
  s : Bool
  redirect : Bool
  enable : Bool
  timeStamp : BitVec 24
  protocol : UInt8
  prevIndex : ℕ
  indxTblEntry : ℕ
  dstOnly : Bool
  srcOnly : Bool
  ucp : Bool
  pdnIndex : BitVec 4
  tcpUdpChksum : UInt16

/-- A record cleared by `memset`. -/
def NatRule.zero : NatRule where
  privateIp := 0
  targetIp := 0
  nextIndex := 0
  publicPort := 0
  privatePort := 0
  targetPort := 0
  ipChksum := 0
  ucActivationIndex := 0
  s := false
  redirect := false
  enable := false
  timeStamp := 0
  protocol := 0
  prevIndex := 0
  indxTblEntry := 0
  dstOnly := false
  srcOnly := false
  ucp := false
  pdnIndex := 0
  tcpUdpChksum := 0

/-- `struct ipa_nat_indx_tbl_rule`: a record of the index table. -/
structure IndxTblRule where
  tblEntry : ℕ
  nextIndex : ℕ

def IndxTblRule.zero : IndxTblRule := ⟨0, 0⟩

/-- `IPAHAL_NAT_INVALID_PROTOCOL`, also the protocol of a dead head. -/
def ipahalNatInvalidProtocol : UInt8 := 0xFF

/-- `IPA_NAT_INVALID_PROTO_FIELD_VALUE`. -/
def ipaNatInvalidProtoFieldValue : ℕ := 0xFF00

def ipaNatRuleFlagFieldOffset : ℕ := 18
def ipaNatRuleNextFieldOffset : ℕ := 8
def ipaNatRuleProtoFieldOffset : ℕ := 22
def ipaNatIndexRuleNextFieldOffset : ℕ := 2
def ipaNatIndexRuleNatIndexFieldOffset : ℕ := 0

/-! ## Checksums -/

/-- Fold one carry of a 17-bit sum back in. -/
def foldCarry (cksum : UInt32) : UInt32 :=
  if cksum >>> 16 ≠ 0 then (cksum &&& (0x0000FFFF : UInt32)) + 1 else cksum

/-- `ipa_nati_calc_ip_cksum`. -/
def ipaNatiCalcIpCksum (pubIpAddr privIpAddr : UInt32) : UInt16 :=
  let cksum := foldCarry ((pubIpAddr &&& (0xFFFF : UInt32)) + (pubIpAddr >>> 16))
  let privIpAddr := ~~~privIpAddr
  let cksum := foldCarry (cksum + (privIpAddr &&& 0xFFFF))
  let cksum := foldCarry (cksum + (privIpAddr >>> 16))
  cksum.toUInt16

/-- `ipa_nati_calc_tcp_udp_cksum`. -/
def ipaNatiCalcTcpUdpCksum (pubIpAddr : UInt32) (pubPort : UInt16) (privIpAddr : UInt32)
    (privPort : UInt16) : UInt16 :=
  let cksum := foldCarry ((pubIpAddr &&& (0xFFFF : UInt32)) + (pubIpAddr >>> 16))
  let cksum := foldCarry (cksum + pubPort.toUInt32)
  let privIpAddr := ~~~privIpAddr
  let cksum := foldCarry (cksum + (privIpAddr &&& 0xFFFF))
  let cksum := foldCarry (cksum + (privIpAddr >>> 16))
  let privPort := ~~~privPort
  let cksum := foldCarry (cksum + privPort.toUInt32)
  cksum.toUInt16

/-! ## The NAT table's entry interface -/

def ipprotoTcp : UInt8 := 6
def ipprotoUdp : UInt8 := 17

/-- `pdns[i]`. -/
def pdnAt (pdns : List PdnEntry) (i : ℕ) : PdnEntry := pdns.getD i PdnEntry.zero

/-- `table_entry_copy_from_user`.  `redirect`, `enable` and the time stamp are not
    among the fields it copies; the TCP/UDP checksum only moves for those two
    protocols. -/
def tableEntryCopyFromUser (pdns : List PdnEntry) (natEntry : NatRule) (userRule : Ipv4Rule) :
    NatRule :=
  let pubIpAddr := (pdnAt pdns userRule.pdnIndex.toNat).publicIp
  { natEntry with
    privateIp := userRule.privateIp
    privatePort := userRule.privatePort
    protocol := userRule.protocol
    publicPort := userRule.publicPort
    targetIp := userRule.targetIp
    targetPort := userRule.targetPort
    pdnIndex := BitVec.ofNat 4 userRule.pdnIndex.toNat
    ucActivationIndex := BitVec.ofNat 13 userRule.ucActivationIndex.toNat
    s := userRule.s
    ucp := userRule.ucp
    dstOnly := userRule.dstOnly
    srcOnly := userRule.srcOnly
    ipChksum := ipaNatiCalcIpCksum pubIpAddr userRule.privateIp
    tcpUdpChksum :=
      if userRule.protocol = ipprotoTcp ∨ userRule.protocol = ipprotoUdp then
        ipaNatiCalcTcpUdpCksum pubIpAddr userRule.publicPort userRule.privateIp
          userRule.privatePort
      else natEntry.tcpUdpChksum }

/-- What the NAT table's insert callbacks read: the client's rule, and the static PDN
    table. -/
structure NatUserData where
  pdns : List PdnEntry
  rule : Ipv4Rule

/-- The half-word `ipa_nat_flags` overlays. -/
def flagsHalfWord (ucActivationIndex : BitVec 13) (s redirect enable : Bool) : ℕ :=
  ucActivationIndex.toNat + s.toNat * 2 ^ 13 + redirect.toNat * 2 ^ 14 + enable.toNat * 2 ^ 15

/-- `table_entry_head_insert`: the DMA datum enables the rule and carries the uC
    index and `s`, but not `redirect`. -/
def tableEntryHeadInsert (entry : NatRule) (userData : NatUserData) : NatRule × ℕ :=
  let natEntry := tableEntryCopyFromUser userData.pdns entry userData.rule
  (natEntry, flagsHalfWord natEntry.ucActivationIndex natEntry.s false true)

/-- `table_entry_tail_insert`. -/
def tableEntryTailInsert (entry : NatRule) (userData : NatUserData) : NatRule :=
  { tableEntryCopyFromUser userData.pdns entry userData.rule with enable := true }

/-- A 16-bit write into a NAT record at one of the offsets its helpers use.  The
    half-word at 22 is the top byte of the time stamp, then the protocol. -/
def NatRule.write16 (r : NatRule) (offset data : ℕ) : NatRule :=
  if offset = ipaNatRuleNextFieldOffset then { r with nextIndex := data }
  else if offset = ipaNatRuleFlagFieldOffset then
    { r with
      ucActivationIndex := BitVec.ofNat 13 data
      s := data.testBit 13
      redirect := data.testBit 14
      enable := data.testBit 15 }
  else if offset = ipaNatRuleProtoFieldOffset then
    { r with
      timeStamp := BitVec.ofNat 24 (data % 256 * 2 ^ 16 + r.timeStamp.toNat % 2 ^ 16)
      protocol := UInt8.ofNat (data / 256) }
  else r

/-- `entry_interface`. -/
def entryInterface : EntryInterface NatRule NatUserData where
  entrySize := 32
  zero := NatRule.zero
  entryIsValid r := r.enable
  entryGetNextIndex r := r.nextIndex
  entryGetPrevIndex r _ _ _ := r.prevIndex
  entrySetPrevIndex r _ prevIndex tblMeta _ := ({ r with prevIndex }, tblMeta)
  entryHeadInsert := tableEntryHeadInsert
  entryTailInsert := tableEntryTailInsert
  entryGetDeleteHeadDmaCommandData _ _ := ipaNatInvalidProtoFieldValue
  tableType := .natBaseTbl
  expnTableType := .natExpnTbl
  fieldOffset
    | .updateHead => ipaNatRuleFlagFieldOffset
    | .updateEntry => ipaNatRuleNextFieldOffset
    | .deleteHead => ipaNatRuleProtoFieldOffset
  write16 := NatRule.write16

/-! ## The index table's entry interface -/

/-- `index_table_entry_get_prev_index`. -/
def indexTableEntryGetPrevIndex (entryIndex : ℕ) (tblMeta : Option (List ℕ))
    (baseTableSize : ℕ) : ℕ :=
  if entryIndex ≥ baseTableSize then (tblMeta.getD []).getD (entryIndex - baseTableSize) 0
  else 0

/-- `index_table_entry_set_prev_index`. -/
def indexTableEntrySetPrevIndex (entryIndex prevIndex : ℕ) (tblMeta : Option (List ℕ))
    (baseTableSize : ℕ) : Option (List ℕ) :=
  if entryIndex ≥ baseTableSize then
    tblMeta.map fun m => m.set (entryIndex - baseTableSize) prevIndex
  else tblMeta

/-- A 16-bit write into an index record. -/
def IndxTblRule.write16 (r : IndxTblRule) (offset data : ℕ) : IndxTblRule :=
  if offset = ipaNatIndexRuleNatIndexFieldOffset then { r with tblEntry := data }
  else if offset = ipaNatIndexRuleNextFieldOffset then { r with nextIndex := data }
  else r

/-- `index_entry_interface`.  The head insert leaves the record alone: the DMA
    command writes it. -/
def indexEntryInterface : EntryInterface IndxTblRule ℕ where
  entrySize := 4
  zero := IndxTblRule.zero
  entryIsValid r := r.tblEntry ≠ 0
  entryGetNextIndex r := r.nextIndex
  entryGetPrevIndex _ := indexTableEntryGetPrevIndex
  entrySetPrevIndex r entryIndex prevIndex tblMeta baseTableSize :=
    (r, indexTableEntrySetPrevIndex entryIndex prevIndex tblMeta baseTableSize)
  entryHeadInsert r tblEntry := (r, tblEntry)
  entryTailInsert r tblEntry := { r with tblEntry }
  entryGetDeleteHeadDmaCommandData _ nextEntry := nextEntry.tblEntry
  tableType := .indxTbl
  expnTableType := .indexExpnTbl
  fieldOffset
    | .updateHead => ipaNatIndexRuleNatIndexFieldOffset
    | .updateEntry => ipaNatIndexRuleNextFieldOffset
    | .deleteHead => ipaNatIndexRuleNatIndexFieldOffset
  write16 := IndxTblRule.write16

/-! ## Hashes -/

/-- The two halves of an address, folded. -/
def foldIp (ip : UInt32) : UInt16 := ip.toUInt16 ^^^ (ip >>> 16).toUInt16

/-- The end of both hashes: mask with the table size minus one; bucket 0 is never
    used, the last one stands in for it. -/
def maskHash (hash : UInt16) (size : ℕ) : ℕ :=
  if hash.toNat &&& size = 0 then size else hash.toNat &&& size

/-- `dst_hash`; the public address takes part from IPA version 4.0 on. -/
def dstHash (ver4 : Bool) (publicIp trgtIp : UInt32) (trgtPort publicPort : UInt16)
    (proto : UInt8) (size : ℕ) : ℕ :=
  let hash := foldIp trgtIp ^^^ trgtPort ^^^ publicPort ^^^ proto.toUInt16
  let hash := if ver4 then hash ^^^ foldIp publicIp else hash
  maskHash hash size

/-- `src_hash`. -/
def srcHash (privIp : UInt32) (privPort : UInt16) (trgtIp : UInt32) (trgtPort : UInt16)
    (proto : UInt8) (size : ℕ) : ℕ :=
  maskHash (foldIp privIp ^^^ privPort ^^^ foldIp trgtIp ^^^ trgtPort ^^^ proto.toUInt16) size

/-- Both hashes name a base slot other than 0. -/
theorem maskHash_bounds (d : Dims) (hash : UInt16) :
    0 < maskHash hash (d.tableEntries - 1) ∧
      maskHash hash (d.tableEntries - 1) < d.tableEntries := by
  have h2 := d.two_le_base
  have hle : hash.toNat &&& (d.tableEntries - 1) ≤ d.tableEntries - 1 := Nat.and_le_right
  unfold maskHash
  split <;> omega

theorem dstHash_bounds (d : Dims) (ver4 : Bool) (publicIp trgtIp : UInt32)
    (trgtPort publicPort : UInt16) (proto : UInt8) :
    0 < dstHash ver4 publicIp trgtIp trgtPort publicPort proto (d.tableEntries - 1) ∧
      dstHash ver4 publicIp trgtIp trgtPort publicPort proto (d.tableEntries - 1) <
        d.tableEntries := maskHash_bounds d _

theorem srcHash_bounds (d : Dims) (privIp : UInt32) (privPort : UInt16) (trgtIp : UInt32)
    (trgtPort : UInt16) (proto : UInt8) :
    0 < srcHash privIp privPort trgtIp trgtPort proto (d.tableEntries - 1) ∧
      srcHash privIp privPort trgtIp trgtPort proto (d.tableEntries - 1) < d.tableEntries :=
  maskHash_bounds d _

end Sm8850.Ipanat
