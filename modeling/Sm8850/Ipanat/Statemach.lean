/-
  The NAT state machine (`ipa_nat_statemach.c`, `ipa_nat_map.cpp`) and the client
  calls on it (`ipa_nat_drv.c`).

  * `NatiObj`: the object the machine works on.  The two maps of a memory relate the
    handles that clients keep to the handles of the slots.
  * `migrateRule`, `ipaNatiCopyIpv4Tbl`: copying one table into the other.
  * `smFirstTbl` and the other `sm…`: the callbacks.  Those that run the machine again
    take it as `sm`.
  * `ipaNatiStatemach`: the machine.  Its first argument bounds how deep it runs
    itself; `none` is a call that does not return within that depth.
  * `runCall`: one call of the client.

  The mutex always locks and unlocks.  The statistics that a switch prints are left
  out: every caller asks for none.
-/
import Sm8850.Ipanat.SramSize
import Sm8850.Ipanat.Pdn

namespace Sm8850.Ipanat

/-! ## The maps -/

/-- `std::map<uint32_t, uint32_t>`. -/
abbrev NatMap := ℕ → Option ℕ

/-- `ipa_nat_map_add`: a key that is there keeps its value. -/
def ipaNatMapAdd (m : NatMap) (key val : ℕ) : ℤ × NatMap :=
  match m key with
  | some _ => (-1, m)
  | none => (0, Function.update m key (some val))

/-- `ipa_nat_map_find`. -/
def ipaNatMapFind (m : NatMap) (key : ℕ) : Except ℤ ℕ :=
  match m key with
  | none => .error (-1)
  | some val => .ok val

/-- `ipa_nat_map_del`: the value that was there, and the map without it. -/
def ipaNatMapDel (m : NatMap) (key : ℕ) : Except ℤ (ℕ × NatMap) :=
  match m key with
  | none => .error (-1)
  | some val => .ok (val, Function.update m key none)

/-- `nati_map_pair`. -/
structure NatiMapPair where
  orig2new : NatMap
  new2orig : NatMap

/-- Both maps after `ipa_nat_map_clear`. -/
def NatiMapPair.empty : NatiMapPair := ⟨fun _ => none, fun _ => none⟩

/-- Enter a rule: the original handle points to the new one, and the new one back. -/
def NatiMapPair.add (p : NatiMapPair) (orig new : ℕ) : ℤ × NatiMapPair :=
  match ipaNatMapAdd p.orig2new orig new with
  | (0, orig2new) =>
    let (ret, new2orig) := ipaNatMapAdd p.new2orig new orig
    (ret, ⟨orig2new, new2orig⟩)
  | (ret, orig2new) => (ret, { p with orig2new })

/-! ## The object -/

/-- `ipa_nati_state`. -/
inductive NatiState
  | null
  | ddrOnly
  | sramOnly
  | hybrid
  | hybridDdr
  deriving DecidableEq

/-- `strcasesame`. -/
def strcasesame (a b : String) : Bool := a.toList.map Char.toLower = b.toList.map Char.toLower

/-- `mem_type_str_to_ipa_nati_state`. -/
def memTypeStrToIpaNatiState (str : String) : NatiState :=
  if strcasesame str "HYBRID" then .hybrid
  else if strcasesame str "SRAM" then .sramOnly
  else .ddrOnly

/-- `nati_switch_stats`. -/
structure NatiSwitchStats where
  pass : ℕ
  fail : ℕ

/-- `++` and `--` on a 32-bit counter. -/
def inc32 (c : ℕ) : ℕ := if c = 2 ^ 32 - 1 then 0 else c + 1
def dec32 (c : ℕ) : ℕ := if c = 0 then 2 ^ 32 - 1 else c - 1

/-- `ipa_nati_obj`.  What has one element for each memory is indexed by the memory. -/
structure NatiObj where
  prevState : NatiState
  currState : NatiState
  holdState : Bool
  stateToHold : NatiState
  ddrTblHdl : ℕ
  sramTblHdl : ℕ
  totSlotsInSram : ℕ
  backToSramThresh : ℕ
  totRulesInTable : MemIn → ℕ
  mapPairs : MemIn → NatiMapPair
  swStats : MemIn → NatiSwitchStats

/-- `nati_obj` before the first call. -/
def natiObj : NatiObj where
  prevState := .null
  currState := .null
  holdState := false
  stateToHold := .null
  ddrTblHdl := 0
  sramTblHdl := 0
  totSlotsInSram := 0
  backToSramThresh := 0
  totRulesInTable _ := 0
  mapPairs _ := .empty
  swStats _ := ⟨0, 0⟩

namespace NatiObj
variable (o : NatiObj)

/-- `SET_NATIOBJ_STATE`. -/
def setState (st : NatiState) : NatiObj := { o with prevState := o.currState, currState := st }

/-- `BACK2_UNSTARTED_STATE`. -/
def back2Unstarted : NatiObj := { o with prevState := .null, currState := .null }

/-- `IN_UNSTARTED_STATE`. -/
def inUnstartedState : Bool := o.prevState = .null

/-- `IN_HYBRID_STATE`. -/
def inHybridState : Bool := o.currState = .hybrid ∨ o.currState = .hybridDdr

/-- `COMPATIBLE_NMI_4SWITCH`. -/
def compatibleNmi4Switch (nmi : MemIn) : Bool :=
  match nmi, o.currState with
  | .sram, .hybridDdr | .ddr, .hybrid | .ddr, .ddrOnly | .sram, .sramOnly => true
  | _, _ => false

/-- `GEN_HOLD_STATE`. -/
def genHoldState : NatiState :=
  if ! o.inHybridState then o.currState
  else if o.currState = .hybrid then .sramOnly
  else .ddrOnly

/-- `SRAM_CURRENTLY_ACTIVE`. -/
def sramCurrentlyActive : Bool := o.currState = .sramOnly ∨ o.currState = .hybrid

/-- `CHOOSE_MEM_SUB`. -/
def chooseMemSub : MemIn := if o.currState = .hybrid then .sram else .ddr

/-- The handle of the table of one memory. -/
def tblHdl : MemIn → ℕ
  | .ddr => o.ddrTblHdl
  | .sram => o.sramTblHdl

/-- The table a hybrid callback works on: the client's, or the one in DDR. -/
def hybridTblHdl (clntTblHdl : ℕ) : ℕ :=
  if o.currState = .hybrid then clntTblHdl else o.ddrTblHdl

def setCntr (sub : MemIn) (c : ℕ) : NatiObj :=
  { o with totRulesInTable := Function.update o.totRulesInTable sub c }

def setMaps (sub : MemIn) (p : NatiMapPair) : NatiObj :=
  { o with mapPairs := Function.update o.mapPairs sub p }

/-- Zero the counter of a memory and clear its maps. -/
def clearMem (sub : MemIn) : NatiObj := (o.setCntr sub 0).setMaps sub .empty

/-- Count a switch that passed or failed. -/
def countSwitch (sub : MemIn) (passed : Bool) : NatiObj :=
  let st := o.swStats sub
  let st := if passed then { st with pass := inc32 st.pass } else { st with fail := inc32 st.fail }
  { o with swStats := Function.update o.swStats sub st }

end NatiObj

/-- What a client passes pointers to. -/
structure ClntVars where
  tblHdl : ℕ
  ruleHdl : ℕ
  timeStamp : ℕ
  stats : Option (TblStats × TblStats)

/-- The whole library: the object, the driver's data and the client's variables.
    `noSlots` is a history variable: how many adds of migrations found no slot for
    one of their two entries. -/
structure NatiLib where
  nati : NatiObj
  drv : Drv
  clnt : ClntVars
  noSlots : ℕ

namespace NatiLib
variable (s : NatiLib)

def setNati (o : NatiObj) : NatiLib := { s with nati := o }

def setDrv (w : Drv) : NatiLib := { s with drv := w }

def setTblHdl (hdl : ℕ) : NatiLib := { s with clnt := { s.clnt with tblHdl := hdl } }

/-- What an add stores through `rule_hdl`, if it stores anything. -/
def storeRuleHdl (out : Option ℕ) : NatiLib :=
  { s with clnt := { s.clnt with ruleHdl := out.getD s.clnt.ruleHdl } }

end NatiLib

/-! ## Moving a table -/

/-- The client rule that `migrate_rule` rebuilds from a record. -/
def v4RuleOf (r : NatRule) : Ipv4Rule where
  targetIp := r.targetIp
  privateIp := r.privateIp
  targetPort := r.targetPort
  privatePort := r.privatePort
  publicPort := r.publicPort
  protocol := r.protocol
  pdnIndex := UInt8.ofNat r.pdnIndex.toNat
  redirect := if r.redirect then 1 else 0
  enable := if r.enable then 1 else 0
  timeStamp := UInt32.ofNat r.timeStamp.toNat
  ucActivationIndex := UInt16.ofNat r.ucActivationIndex.toNat
  s := r.s
  ucp := r.ucp
  dstOnly := r.dstOnly
  srcOnly := r.srcOnly

/-- An add that passes its checks and cannot make both of its entries. -/
def addFindsNoSlot (env : Env) (w : Drv) (tblHdl : ℕ) (clnt : Ipv4Rule) : Bool :=
  match ip4TblAt w tblHdl with
  | none => false
  | some ⟨_, tbl⟩ =>
    clntRuleValid w.pdns clnt &&
      match (prepareAdd env w.pdns w.hashToken tbl clnt).2 with
      | .error _ => true
      | .ok _ => false

/-- `migrate_rule`: the record of a walk over `table`, added to the table `dstTblHdl`. -/
def migrateRule (env : Env) {d : Dims} (table : Table d NatRule) (dstTblHdl : ℕ)
    (a : WalkArgs NatRule) (s : NatiLib) : ℤ × NatiLib :=
  let (src, dst) : MemIn × MemIn := if table.nmi = .sram then (.sram, .ddr) else (.ddr, .sram)
  if a.record.protocol = ipahalNatInvalidProtocol then (0, s)
  else
    match ipaNatMapFind (s.nati.mapPairs src).new2orig a.ruleHdl with
    | .error ret => (ret, s)
    | .ok origRuleHdl =>
      let v4Rule := v4RuleOf a.record
      let lacks := addFindsNoSlot env s.drv dstTblHdl v4Rule
      let s := { s with noSlots := if lacks then s.noSlots + 1 else s.noSlots }
      match ipaNATIAddIpv4Rule env s.drv dstTblHdl v4Rule with
      | (0, newRuleHdl, w) =>
        let o := s.nati.setCntr dst (inc32 (s.nati.totRulesInTable dst))
        let (ret, maps) := (o.mapPairs dst).add origRuleHdl (newRuleHdl.getD 0)
        (ret, (s.setDrv w).setNati (o.setMaps dst maps))
      | (ret, _, w) => (ret, s.setDrv w)

/-- `ipa_nati_copy_ipv4_tbl` with `migrate_rule`: clear the destination, then walk the
    NAT table of the source. -/
def ipaNatiCopyIpv4Tbl (env : Env) (srcTblHdl dstTblHdl : ℕ) (s : NatiLib) : ℤ × NatiLib :=
  match ipaNATIClearIpv4Tbl s.drv dstTblHdl with
  | (0, w) =>
    ipaNATIWalkIpv4Tbl entryInterface (fun tbl => tbl.table) w srcTblHdl
      (fun table => migrateRule env table dstTblHdl) (s.setDrv w)
  | (ret, w) => (ret, s.setDrv w)

/-! ## The triggers -/

/-- The table a walk goes over, and what its callback answers. -/
inductive WalkWhich
  | natTable (walkCb : WalkArgs NatRule → ℤ)
  | indexTable (walkCb : WalkArgs IndxTblRule → ℤ)

/-- `ipa_nati_trigger`, each with what `arb_data_ptr` points at. -/
inductive NatiTrigger
  | addTable (publicIpAddr : UInt32) (numberOfEntries : ℕ) (memType : String)
  | delTable (tblHdl : ℕ)
  | clrTable (tblHdl : ℕ)
  | wlkTable (tblHdl : ℕ) (which : WalkWhich)
  | tblStats (tblHdl : ℕ)
  | addRule (tblHdl : ℕ) (clntRule : Ipv4Rule)
  | delRule (tblHdl ruleHdl : ℕ)
  | tblSwitch
  | gotoDdr
  | gotoSram
  | getTstamp (tblHdl ruleHdl : ℕ)

/-- `VOTE_REQUIRED`. -/
def voteRequired (o : NatiObj) (trigger : NatiTrigger) : Bool :=
  match trigger with
  | .getTstamp .. | .addTable .. => false
  | .gotoSram | .tblSwitch => true
  | _ => o.sramCurrentlyActive

/-! ## Callbacks on tables -/

section Callbacks
variable (env : Env) (sm : NatiTrigger → NatiLib → Option (ℤ × NatiLib))

/-- `_smUndef`. -/
def smUndef (s : NatiLib) : ℤ × NatiLib := (-1, s)

/-- `_smDelTbl`. -/
def smDelTbl (tblHdl : ℕ) (s : NatiLib) : ℤ × NatiLib :=
  let (ret, w) := ipaNATIDelIpv4Table env s.drv tblHdl
  let s := s.setDrv w
  (ret, if ret = 0 ∧ ! s.nati.inHybridState then s.setNati s.nati.back2Unstarted else s)

/-- `_smFirstTbl`. -/
def smFirstTbl (publicIpAddr : UInt32) (numberOfEntries : ℕ) (memType : String) (s : NatiLib) :
    Option (ℤ × NatiLib) :=
  let st := if s.nati.holdState ∧ s.nati.stateToHold ≠ .null then s.nati.stateToHold
    else memTypeStrToIpaNatiState memType
  sm (.addTable publicIpAddr numberOfEntries memType) (s.setNati (s.nati.setState st))

/-- `_smAddDdrTbl`; `toClnt` says whether `tbl_hdl_ptr` is the client's. -/
def smAddDdrTbl (publicIpAddr : UInt32) (numberOfEntries : ℕ) (toClnt : Bool) (s : NatiLib) :
    ℤ × NatiLib :=
  let (ret, hdl, w) := ipaNATIAddIpv4Tbl env s.drv .ddr publicIpAddr numberOfEntries
  let s := (s.setDrv w).setNati { s.nati with ddrTblHdl := hdl }
  (ret, if ret = 0 ∧ toClnt then s.setTblHdl hdl else s)

/-- `_smAddSramTbl`.  The search for the number of slots repeats itself after 65536
    turns, so it ends within these or never. -/
def smAddSramTbl (publicIpAddr : UInt32) (s : NatiLib) : Option (ℤ × NatiLib) :=
  match ipaNatiGetSramSize env s.drv with
  | (0, sramSize, w) => do
    let s := s.setDrv w
    let (ret, num) ← ipaCalcNumSramTableEntries 65536 sramSize entryInterface.entrySize
      indexEntryInterface.entrySize
    let s := s.setNati { s.nati with totSlotsInSram := num }
    if ret = 0 then
      let s := s.setNati { s.nati with backToSramThresh := num / 4 }
      match ipaNatiVoteClock env s.drv with
      | (0, w) =>
        let (ret, hdl, w) := ipaNATIAddIpv4Tbl env w .sram publicIpAddr num
        let w := (ipaNatiVoteClock env w).2
        let s := (s.setDrv w).setNati { s.nati with sramTblHdl := hdl }
        return (ret, if ret = 0 then s.setTblHdl hdl else s)
      | (ret, w) => return (ret, s.setDrv w)
    else return (ret, s)
  | (ret, _, w) => some (ret, s.setDrv w)

/-- `_smAddSramAndDdrTbl`. -/
def smAddSramAndDdrTbl (publicIpAddr : UInt32) (numberOfEntries : ℕ) (s : NatiLib) :
    Option (ℤ × NatiLib) := do
  let s := s.setNati ((s.nati.clearMem .sram).clearMem .ddr)
  let (ret, s) ← smAddSramTbl env publicIpAddr s
  if ret = 0 then
    if s.nati.totSlotsInSram ≥ numberOfEntries then
      return (ret, s.setNati (s.nati.setState .sramOnly))
    else
      match smAddDdrTbl env publicIpAddr numberOfEntries false s with
      | (0, s) => sm .gotoSram s
      | (ret, s) => return (ret, s)
  else
    match smAddDdrTbl env publicIpAddr numberOfEntries true s with
    | (0, s) => return (0, s.setNati (s.nati.setState .ddrOnly))
    | (ret, s) => return (ret, s)

/-- `_smDelSramAndDdrTbl`. -/
def smDelSramAndDdrTbl (tblHdl : ℕ) (s : NatiLib) : ℤ × NatiLib :=
  let s := s.setNati ((s.nati.clearMem .sram).clearMem .ddr)
  match smDelTbl env tblHdl s with
  | (0, s) =>
    match smDelTbl env s.nati.ddrTblHdl s with
    | (0, s) => (0, s.setNati s.nati.back2Unstarted)
    | (ret, s) => (ret, s)
  | (ret, s) => (ret, s)

/-- `_smClrTbl`. -/
def smClrTbl (tblHdl : ℕ) (s : NatiLib) : ℤ × NatiLib :=
  let s := s.setNati (s.nati.clearMem (breakTblHdl tblHdl).1)
  let (ret, w) := ipaNATIClearIpv4Tbl s.drv tblHdl
  (ret, s.setDrv w)

/-- `_smClrTblHybrid`. -/
def smClrTblHybrid (tblHdl : ℕ) (s : NatiLib) : ℤ × NatiLib :=
  smClrTbl (s.nati.hybridTblHdl tblHdl) s

/-- `_smWalkTbl`. -/
def smWalkTbl (tblHdl : ℕ) (which : WalkWhich) (s : NatiLib) : ℤ × NatiLib :=
  match which with
  | .natTable walkCb =>
    ipaNATIWalkIpv4Tbl entryInterface (fun tbl => tbl.table) s.drv tblHdl
      (fun _ a s => (walkCb a, s)) s
  | .indexTable walkCb =>
    ipaNATIWalkIpv4Tbl indexEntryInterface (fun tbl => tbl.indexTable) s.drv tblHdl
      (fun _ a s => (walkCb a, s)) s

/-- `_smWalkTblHybrid`. -/
def smWalkTblHybrid (tblHdl : ℕ) (which : WalkWhich) (s : NatiLib) : ℤ × NatiLib :=
  smWalkTbl (s.nati.hybridTblHdl tblHdl) which s

/-- `_smStatTbl`. -/
def smStatTbl (tblHdl : ℕ) (s : NatiLib) : ℤ × NatiLib :=
  let (ret, stats) := ipaNATIIpv4TblStats s.drv tblHdl
  (ret, { s with clnt := { s.clnt with stats } })

/-- `_smStatTblHybrid`. -/
def smStatTblHybrid (tblHdl : ℕ) (s : NatiLib) : ℤ × NatiLib :=
  smStatTbl (s.nati.hybridTblHdl tblHdl) s

/-! ## Callbacks on rules -/

/-- `_smAddRuleToTbl`. -/
def smAddRuleToTbl (tblHdl : ℕ) (clntRule : Ipv4Rule) (s : NatiLib) : ℤ × NatiLib :=
  let clntRule := { clntRule with redirect := 0, enable := 0, timeStamp := 0 }
  let (ret, out, w) := ipaNATIAddIpv4Rule env s.drv tblHdl clntRule
  let s := (s.setDrv w).storeRuleHdl out
  let sub := s.nati.chooseMemSub
  (ret, if ret = 0 then s.setNati (s.nati.setCntr sub (inc32 (s.nati.totRulesInTable sub))) else s)

/-- `_smDelRuleFromTbl`. -/
def smDelRuleFromTbl (tblHdl ruleHdl : ℕ) (s : NatiLib) : ℤ × NatiLib :=
  let (ret, w) := ipaNATIDelIpv4Rule env s.drv tblHdl ruleHdl
  let s := s.setDrv w
  let sub := s.nati.chooseMemSub
  (ret, if ret = 0 then s.setNati (s.nati.setCntr sub (dec32 (s.nati.totRulesInTable sub))) else s)

/-- `_smAddRuleHybrid`. -/
def smAddRuleHybrid (tblHdl : ℕ) (clntRule : Ipv4Rule) (s : NatiLib) : Option (ℤ × NatiLib) :=
  let (ret, s) := smAddRuleToTbl env (s.nati.hybridTblHdl tblHdl) clntRule s
  if ret = 0 then
    let sub := s.nati.chooseMemSub
    let (ret, maps) := (s.nati.mapPairs sub).add s.clnt.ruleHdl s.clnt.ruleHdl
    some (ret, s.setNati (s.nati.setMaps sub maps))
  else if s.nati.currState = .hybrid ∧ ! s.nati.holdState then do
    let (ret, s) ← sm .tblSwitch s
    if ret = 0 then
      sm (.addRule tblHdl clntRule) (s.setNati (s.nati.setState .hybridDdr))
    else return (ret, s)
  else some (ret, s)

/-- `_smDelRuleHybrid`. -/
def smDelRuleHybrid (tblHdl origRuleHdl : ℕ) (s : NatiLib) : Option (ℤ × NatiLib) :=
  let sub := s.nati.chooseMemSub
  let maps := s.nati.mapPairs sub
  match ipaNatMapDel maps.orig2new origRuleHdl with
  | .error ret => some (ret, s)
  | .ok (newRuleHdl, orig2new) =>
    let new2orig := match ipaNatMapDel maps.new2orig newRuleHdl with
      | .error _ => maps.new2orig
      | .ok (_, new2orig) => new2orig
    let s := s.setNati (s.nati.setMaps sub ⟨orig2new, new2orig⟩)
    let (ret, s) := smDelRuleFromTbl env (s.nati.hybridTblHdl tblHdl) newRuleHdl s
    if ret = 0 ∧ s.nati.currState = .hybridDdr then
      if s.nati.totRulesInTable s.nati.chooseMemSub ≤ s.nati.backToSramThresh ∧
          ! s.nati.holdState then do
        let (ret, s) ← sm .tblSwitch s
        -- a failed switch would have stayed in DDR
        return (0, if ret = 0 then s.setNati (s.nati.setState .hybrid) else s)
      else some (ret, s)
    else some (ret, s)

/-! ## Callbacks that switch -/

/-- `_smGoToDdr` and `_smGoToSram`. -/
def smGoTo (dst : MemIn) (s : NatiLib) : ℤ × NatiLib :=
  let (ret, w) := ipaNATIPostIpv4InitCmd env s.drv (s.nati.tblHdl dst)
  let s := s.setDrv w
  let st : NatiState := match dst with
    | .ddr => .hybridDdr
    | .sram => .hybrid
  (ret, if ret = 0 then s.setNati (s.nati.setState st) else s)

def smGoToDdr : NatiLib → ℤ × NatiLib := smGoTo env .ddr
def smGoToSram : NatiLib → ℤ × NatiLib := smGoTo env .sram

/-- `_smSwitchFromSramToDdr` and `_smSwitchFromDdrToSram`. -/
def smSwitch (src dst : MemIn) (s : NatiLib) : Option (ℤ × NatiLib) := do
  let sub := s.nati.chooseMemSub
  let (ret, s) ← sm (match dst with | .ddr => .gotoDdr | .sram => .gotoSram) s
  if ret = 0 then
    let s := s.setNati (s.nati.clearMem dst)
    let (ret, s) := ipaNatiCopyIpv4Tbl env (s.nati.tblHdl src) (s.nati.tblHdl dst) s
    return (ret, s.setNati (s.nati.countSwitch sub (ret = 0)))
  else return (ret, s)

def smSwitchFromSramToDdr : NatiLib → Option (ℤ × NatiLib) := smSwitch env sm .sram .ddr
def smSwitchFromDdrToSram : NatiLib → Option (ℤ × NatiLib) := smSwitch env sm .ddr .sram

/-- `_smGetTmStmp`. -/
def smGetTmStmp (tblHdl ruleHdl : ℕ) (s : NatiLib) : ℤ × NatiLib :=
  let (ret, timeStamp) := ipaNATIQueryTimestamp s.drv tblHdl ruleHdl
  (ret, { s with clnt := { s.clnt with timeStamp := timeStamp.getD s.clnt.timeStamp } })

/-- `_smGetTmStmpHybrid`. -/
def smGetTmStmpHybrid (tblHdl origRuleHdl : ℕ) (s : NatiLib) : ℤ × NatiLib :=
  match ipaNatMapFind (s.nati.mapPairs s.nati.chooseMemSub).orig2new origRuleHdl with
  | .error ret => (ret, s)
  | .ok newRuleHdl => smGetTmStmp (s.nati.hybridTblHdl tblHdl) newRuleHdl s

/-! ## The machine -/

/-- `_state_mach_tbl`: the callback of a trigger in a state. -/
def stateMachTbl (state : NatiState) (trigger : NatiTrigger) (s : NatiLib) :
    Option (ℤ × NatiLib) :=
  match state, trigger with
  | .null, .addTable ip n mem => smFirstTbl sm ip n mem s
  | .null, _ => some (smUndef s)
  | .ddrOnly, .addTable ip n _ => some (smAddDdrTbl env ip n true s)
  | .sramOnly, .addTable ip _ _ => smAddSramTbl env ip s
  | .ddrOnly, .delTable hdl | .sramOnly, .delTable hdl => some (smDelTbl env hdl s)
  | .ddrOnly, .clrTable hdl | .sramOnly, .clrTable hdl => some (smClrTbl hdl s)
  | .ddrOnly, .wlkTable hdl which | .sramOnly, .wlkTable hdl which => some (smWalkTbl hdl which s)
  | .ddrOnly, .tblStats hdl | .sramOnly, .tblStats hdl => some (smStatTbl hdl s)
  | .ddrOnly, .addRule hdl r | .sramOnly, .addRule hdl r => some (smAddRuleToTbl env hdl r s)
  | .ddrOnly, .delRule hdl r | .sramOnly, .delRule hdl r => some (smDelRuleFromTbl env hdl r s)
  | .ddrOnly, .getTstamp hdl r | .sramOnly, .getTstamp hdl r => some (smGetTmStmp hdl r s)
  | .ddrOnly, _ | .sramOnly, _ => some (smUndef s)
  | .hybrid, .addTable ip n _ => smAddSramAndDdrTbl env sm ip n s
  | .hybridDdr, .addTable .. => some (smUndef s)
  | _, .delTable hdl => some (smDelSramAndDdrTbl env hdl s)
  | _, .clrTable hdl => some (smClrTblHybrid hdl s)
  | _, .wlkTable hdl which => some (smWalkTblHybrid hdl which s)
  | _, .tblStats hdl => some (smStatTblHybrid hdl s)
  | _, .addRule hdl r => smAddRuleHybrid env sm hdl r s
  | _, .delRule hdl r => smDelRuleHybrid env sm hdl r s
  | .hybrid, .tblSwitch => smSwitchFromSramToDdr env sm s
  | .hybridDdr, .tblSwitch => smSwitchFromDdrToSram env sm s
  | _, .gotoDdr => some (smGoToDdr env s)
  | _, .gotoSram => some (smGoToSram env s)
  | _, .getTstamp hdl r => some (smGetTmStmpHybrid hdl r s)

end Callbacks

/-- `give_mutex`. -/
def giveMutex : ℤ := 0

/-- `ipa_nati_statemach`.  Its status is that of `give_mutex`, whatever the vote and the
    callback have answered. -/
def ipaNatiStatemach (env : Env) : ℕ → NatiTrigger → NatiLib → Option (ℤ × NatiLib)
  | 0, _, _ => none
  | depth + 1, trigger, s =>
    let callback := fun s : NatiLib =>
      stateMachTbl env (ipaNatiStatemach env depth) s.nati.currState trigger s
    if voteRequired s.nati trigger then
      match ipaNatiVoteClock env s.drv with
      | (0, w) => do
        let (_, s) ← callback (s.setDrv w)
        return (giveMutex, s.setDrv (ipaNatiVoteClock env s.drv).2)
      | (_, w) => some (giveMutex, s.setDrv w)
    else do
      let (_, s) ← callback s
      return (giveMutex, s)

/-! ## The client's calls -/

section Api
variable (env : Env) (depth : ℕ) (s : NatiLib)

/-- `VALID_RULE_HDL`. -/
def validRuleHdl (hdl : ℕ) : Bool := hdl ≠ 0

/-- `ipa_nat_add_ipv4_tbl`. -/
def ipaNatAddIpv4Tbl (publicIpAddr : UInt32) (memType : String) (numberOfEntries : ℕ) :
    Option (ℤ × NatiLib) :=
  if numberOfEntries = 0 then some (-einval, s)
  else
    ipaNatiStatemach env depth (.addTable publicIpAddr numberOfEntries memType) (s.setTblHdl 0)

/-- `ipa_nat_del_ipv4_tbl`. -/
def ipaNatDelIpv4Tbl (tblHdl : ℕ) : Option (ℤ × NatiLib) :=
  if ! validTblHdl tblHdl then some (-einval, s)
  else ipaNatiStatemach env depth (.delTable tblHdl) s

/-- `ipa_nat_add_ipv4_rule`. -/
def ipaNatAddIpv4Rule (tblHdl : ℕ) (clntRule : Ipv4Rule) : Option (ℤ × NatiLib) :=
  if ! validTblHdl tblHdl then some (-einval, s)
  else ipaNatiStatemach env depth (.addRule tblHdl clntRule) s

/-- `ipa_nat_del_ipv4_rule`. -/
def ipaNatDelIpv4Rule (tblHdl ruleHdl : ℕ) : Option (ℤ × NatiLib) :=
  if ! validTblHdl tblHdl || ! validRuleHdl ruleHdl then some (-einval, s)
  else ipaNatiStatemach env depth (.delRule tblHdl ruleHdl) s

/-- `ipa_nat_query_timestamp`. -/
def ipaNatQueryTimestamp (tblHdl ruleHdl : ℕ) : Option (ℤ × NatiLib) :=
  if ! validTblHdl tblHdl || ! validRuleHdl ruleHdl then some (-einval, s)
  else ipaNatiStatemach env depth (.getTstamp tblHdl ruleHdl) s

/-- `ipa_nat_switch_to`. -/
def ipaNatSwitchTo (nmi : MemIn) (holdState : Bool) : Option (ℤ × NatiLib) :=
  if s.nati.inUnstartedState then
    let stateToHold := match nmi with
      | .ddr => .ddrOnly
      | .sram => .sramOnly
    some (giveMutex, s.setNati { s.nati with holdState, stateToHold })
  else if s.nati.inHybridState then do
    let (ret, s) ←
      if s.nati.compatibleNmi4Switch nmi then ipaNatiStatemach env depth .tblSwitch s
      else some (0, s)
    let stateToHold := if holdState then s.nati.genHoldState else s.nati.stateToHold
    return (giveMutex, if ret = 0 then s.setNati { s.nati with holdState, stateToHold } else s)
  else if holdState then
    if s.nati.compatibleNmi4Switch nmi then
      some (giveMutex, s.setNati { s.nati with holdState, stateToHold := s.nati.genHoldState })
    else some (giveMutex, s)
  else some (giveMutex, s.setNati { s.nati with holdState, stateToHold := .null })

end Api

/-- A call of the client.  Its table is the one whose handle its last table creation
    has stored. -/
inductive ClntCall
  | addIpv4Tbl (publicIpAddr : UInt32) (memType : String) (numberOfEntries : ℕ)
  | delIpv4Tbl
  | clearIpv4Tbl
  | walkIpv4Tbl (which : WalkWhich)
  | ipv4TblStats
  | addIpv4Rule (clntRule : Ipv4Rule)
  | delIpv4Rule (ruleHdl : ℕ)
  | queryTimestamp (ruleHdl : ℕ)
  | switchTo (nmi : MemIn) (holdState : Bool)
  | modifyPdn (pdnIndex : ℕ) (entry : PdnEntry)
  | allocPdn (pdnInfo : PdnEntry)
  | deallocPdn (pdnIndex : ℕ)
  | voteClock

/-- Run one call of the client. -/
def runCall (env : Env) (depth : ℕ) (c : ClntCall) (s : NatiLib) : Option (ℤ × NatiLib) :=
  match c with
  | .addIpv4Tbl ip mem n => ipaNatAddIpv4Tbl env depth s ip mem n
  | .delIpv4Tbl => ipaNatDelIpv4Tbl env depth s s.clnt.tblHdl
  | .clearIpv4Tbl => ipaNatiStatemach env depth (.clrTable s.clnt.tblHdl) s
  | .walkIpv4Tbl which => ipaNatiStatemach env depth (.wlkTable s.clnt.tblHdl which) s
  | .ipv4TblStats => ipaNatiStatemach env depth (.tblStats s.clnt.tblHdl) s
  | .addIpv4Rule r => ipaNatAddIpv4Rule env depth s s.clnt.tblHdl r
  | .delIpv4Rule hdl => ipaNatDelIpv4Rule env depth s s.clnt.tblHdl hdl
  | .queryTimestamp hdl => ipaNatQueryTimestamp env depth s s.clnt.tblHdl hdl
  | .switchTo nmi hold => ipaNatSwitchTo env depth s nmi hold
  | .modifyPdn i e =>
    if i > ipaMaxPdnNum then some (-einval, s)
    else
      let (ret, w) := ipaNatiModifyPdn env s.drv i e
      some (ret, s.setDrv w)
  | .allocPdn e =>
    let (ret, _, w) := ipaNatiAllocPdn env s.drv e
    some (ret, s.setDrv w)
  | .deallocPdn i =>
    if i > ipaMaxPdnNum then some (-einval, s)
    else
      let (ret, w) := ipaNatiDeallocPdn env s.drv i
      some (ret, s.setDrv w)
  | .voteClock =>
    let (ret, w) := ipaNatiVoteClock env s.drv
    some (ret, s.setDrv w)

end Sm8850.Ipanat
