/-
  Runs of calls on one NAT table.

  * `ClientStep`: one successful call, and what the client holds after it.
  * `nat_wellFormed`: both tables stay well formed in every run.
  * `nat_consistent`: rules and index entries correspond, rules lie in their
    buckets, and the live rules are the ones the client holds.
-/
import Sm8850.Ipanat.Calls

namespace Sm8850.Ipanat

open Lib

variable {d : Dims}

/-! ## Runs -/

/-- The rules a client has added and not deleted, by handle. -/
abbrev Held := ℕ → Option Ipv4Rule

/-- Whether a handle names a live rule. -/
def liveHandle (w : Drv) (tblHdl ruleHdl : ℕ) : Bool :=
  match ip4TblAt w tblHdl with
  | none => false
  | some ⟨d, tbl⟩ =>
    match ipaTableGetEntry d ruleHdl with
    | .error _ => false
    | .ok i => (tbl.natRec i).live

theorem liveHandle_iff {w : Drv} {tblHdl ruleHdl : ℕ} : liveHandle w tblHdl ruleHdl = true ↔
    ∃ (d : Dims) (tbl : Ip4Tbl d) (i : ℕ), ip4TblAt w tblHdl = some ⟨d, tbl⟩ ∧
      ipaTableGetEntry d ruleHdl = .ok i ∧ (tbl.natRec i).live = true := by
  unfold liveHandle
  constructor
  · intro h
    split at h
    · cases h
    · next d tbl ht =>
      split at h
      · cases h
      · next i hi => exact ⟨d, tbl, i, ht, hi, h⟩
  · rintro ⟨d, tbl, i, ht, hi, hl⟩
    simp only [ht, hi, hl]

/-- One call that answers 0.  A delete names a live rule, which is then no longer
    held; the PDN table may change in between. -/
inductive ClientStep (env : Env) (tblHdl : ℕ) : Drv × Held → Drv × Held → Prop
  | add {w w' : Drv} {held : Held} (clnt : Ipv4Rule) (hdl : ℕ)
      (call : ipaNATIAddIpv4Rule env w tblHdl clnt = (0, some hdl, w')) :
      ClientStep env tblHdl (w, held) (w', Function.update held hdl (some clnt))
  | del {w w' : Drv} {held : Held} {d : Dims} {tbl : Ip4Tbl d} {i : ℕ} (hdl : ℕ)
      (table : ip4TblAt w tblHdl = some ⟨d, tbl⟩) (names : ipaTableGetEntry d hdl = .ok i)
      (live : (tbl.natRec i).live) (call : ipaNATIDelIpv4Rule env w tblHdl hdl = (0, w')) :
      ClientStep env tblHdl (w, held)
        (w', fun k => if ipaTableGetEntry d k = .ok i then none else held k)
  | clear {w w' : Drv} {held : Held} (call : ipaNATIClearIpv4Tbl w tblHdl = (0, w')) :
      ClientStep env tblHdl (w, held) (w', fun _ => none)
  | modifyPdn {w w' : Drv} {held : Held} (pdnIndex : ℕ) (entry : PdnEntry)
      (call : ipaNatiModifyPdn env w pdnIndex entry = (0, w')) :
      ClientStep env tblHdl (w, held) (w', held)

/-- The public addresses of the PDN table. -/
def publicIps (w : Drv) (i : ℕ) : UInt32 := (pdnAt w.pdns i).publicIp

theorem publicIps_congr {w w' : Drv} (h : w'.pdns = w.pdns) : publicIps w' = publicIps w :=
  funext fun k => by rw [publicIps, h, publicIps]

/-! ## What a step keeps -/

/-- The state of a run: a well-formed pair under the handle. -/
def NatInv (nmi : MemIn) (w : Drv) : Prop :=
  ∃ (d : Dims) (tbl : Ip4Tbl d) (g : PairGhost),
    (w.natCache nmi).ip4Tbl = some ⟨d, tbl⟩ ∧ PairInv tbl g

theorem ipaNatiModifyPdn_natCache {env : Env} {w w' : Drv} {i : ℕ} {e : PdnEntry} {ret : ℤ}
    (h : ipaNatiModifyPdn env w i e = (ret, w')) (nmi : MemIn) :
    w'.natCache nmi = w.natCache nmi := by
  simp only [ipaNatiModifyPdn, sysCall] at h
  generalize (if w.ddr.ipaDesc = true then MemIn.ddr else MemIn.sram) = m at h
  cases hd : (w.natCache m).ipaDesc <;> cases hio : env.io w.calls <;>
    simp only [hd, hio, Bool.not_false, Bool.not_true, Bool.false_eq_true, if_true, if_false,
      Prod.mk.injEq] at h <;>
    rw [← h.2] <;> cases nmi <;> rfl

theorem ClientStep.inv {env : Env} {tblHdl : ℕ} {nmi : MemIn} (hh : IsTblHdl tblHdl nmi)
    {s s' : Drv × Held} (h : ClientStep env tblHdl s s') (hinv : NatInv nmi s.1) :
    NatInv nmi s'.1 := by
  obtain ⟨d, tbl, g, ht, hp⟩ := hinv
  cases h with
  | add clnt hdl call =>
    obtain ⟨-, tbl', g', ht', hp', -⟩ := ipaNATIAddIpv4Rule_spec hh ht hp clnt call
    exact ⟨d, tbl', g', ht', hp'⟩
  | del hdl table names live call =>
    rw [hh.ip4TblAt, ht] at table
    cases table
    obtain ⟨-, ⟨-, -, hdel⟩ | ⟨-, hne, -⟩⟩ := ipaNATIDelIpv4Rule_spec hh ht hp names live call
    · exact ⟨d, _, g, hdel, (hp.del live).1⟩
    · exact absurd rfl hne
  | clear call =>
    rcases ipaNATIClearIpv4Tbl_spec hh ht call with ⟨-, hne, -⟩ | ⟨-, -, rfl⟩
    · exact absurd rfl hne
    · exact ⟨d, clearIp4Tbl tbl, g, Drv.setIp4Tbl_ip4Tbl .., (hp.tables.clear g).1⟩
  | modifyPdn pdnIndex entry call =>
    exact ⟨d, tbl, g, (ipaNatiModifyPdn_natCache call nmi).symm ▸ ht, hp⟩

theorem NatInv.run {env : Env} {tblHdl : ℕ} {nmi : MemIn} (hh : IsTblHdl tblHdl nmi)
    {s s' : Drv × Held} (hinv : NatInv nmi s.1)
    (h : Relation.ReflTransGen (ClientStep env tblHdl) s s') : NatInv nmi s'.1 := by
  induction h with
  | refl => exact hinv
  | tail _ step ih => exact step.inv hh ih

/-! ## A run -/

/-- The static data before the first call. -/
def bootDrv : Drv where
  ddr := ⟨false, 0, none⟩
  sram := ⟨false, 0, none⟩
  activeNatCache := none
  pdns := List.replicate 16 PdnEntry.zero
  numPdns := 0
  hashToken := 69
  calls := 0

/-- An environment in which no system call fails. -/
def calmEnv (sramSize : ℕ) : Env where
  io _ := true
  ver4 := true
  sramSize := sramSize
  addrOffset := 0

/-- A TCP rule of one server and one client; ports that differ by a multiple of 8 share
    a bucket of an 8-slot table. -/
def portRule (port : UInt16) : Ipv4Rule where
  targetIp := 0x08080808
  privateIp := 0xC0A80002
  targetPort := 80
  privatePort := port
  publicPort := port
  protocol := ipprotoTcp
  pdnIndex := 0
  redirect := 0
  enable := 1
  timeStamp := 0
  ucActivationIndex := 0
  s := false
  ucp := false
  dstOnly := false
  srcOnly := false

/-- A new DDR table of ten slots, under the handle 1. -/
def tenSlots : Drv := (ipaNATIAddIpv4Tbl (calmEnv 0) bootDrv .ddr 0x0A000001 10).2.2

/-- Two rules that share a bucket in both tables, and the first one deleted again. -/
def twoRules : Drv :=
  (ipaNATIAddIpv4Rule (calmEnv 0) (ipaNATIAddIpv4Rule (calmEnv 0) tenSlots 1 (portRule 80)).2.2 1
    (portRule 88)).2.2

/-- The first of the two. -/
def firstRule : Drv := (ipaNATIAddIpv4Rule (calmEnv 0) tenSlots 1 (portRule 80)).2.2

/-- What the calls answer. -/
theorem twoRules_answers :
    ((ipaNATIAddIpv4Tbl (calmEnv 0) bootDrv .ddr 0x0A000001 10).1 = 0 ∧
      (ipaNATIAddIpv4Tbl (calmEnv 0) bootDrv .ddr 0x0A000001 10).2.1 = 1) ∧
    ((ipaNATIAddIpv4Rule (calmEnv 0) tenSlots 1 (portRule 80)).1 = 0 ∧
      (ipaNATIAddIpv4Rule (calmEnv 0) tenSlots 1 (portRule 80)).2.1 = some 14 ∧
      firstRule.pdns = tenSlots.pdns) ∧
    ((ipaNATIAddIpv4Rule (calmEnv 0) firstRule 1 (portRule 88)).1 = 0 ∧
      (ipaNATIAddIpv4Rule (calmEnv 0) firstRule 1 (portRule 88)).2.1 = some 1 ∧
      twoRules.pdns = firstRule.pdns) ∧
    liveHandle twoRules 1 14 = true ∧ (ipaNATIDelIpv4Rule (calmEnv 0) twoRules 1 14).1 = 0 := by
  decide +kernel

theorem tenSlots_create :
    ipaNATIAddIpv4Tbl (calmEnv 0) bootDrv .ddr 0x0A000001 10 = (0, 1, tenSlots) :=
  Prod.ext twoRules_answers.1.1 (Prod.ext twoRules_answers.1.2 rfl)

theorem twoRules_run : Relation.ReflTransGen
    (fun s s' => ClientStep (calmEnv 0) 1 s s' ∧ publicIps s'.1 = publicIps s.1)
    (tenSlots, fun _ => none) (twoRules, Function.update
      (Function.update (fun _ => none) 14 (some (portRule 80))) 1 (some (portRule 88))) := by
  obtain ⟨-, ⟨hret₁, hout₁, hpdns₁⟩, ⟨hret₂, hout₂, hpdns₂⟩, -⟩ := twoRules_answers
  refine .tail (.single ⟨.add (portRule 80) 14 (Prod.ext ?_ (Prod.ext ?_ rfl)), ?_⟩)
    ⟨.add (portRule 88) 1 (Prod.ext ?_ (Prod.ext ?_ rfl)), ?_⟩
  · exact hret₁
  · exact hout₁
  · exact publicIps_congr hpdns₁
  · exact hret₂
  · exact hout₂
  · exact publicIps_congr hpdns₂

/-! ## Well-formed tables -/

/-- **A well-formed table**: chains as `WellChained` says, all of them inside the
    table, and counters that count. -/
structure Table.WellFormed {ρ υ : Type} (I : EntryInterface ρ υ) (t : Table d ρ) : Prop where
  chains : WellChained 0 (· < d.tableEntries) (t.links I)
  inside : ∀ i, (t.links I).occ i → i < d.totTblEnts
  tblCnt : t.curTblCnt = t.baseOccupied I
  expnCnt : t.curExpnTblCnt = t.expnOccupied I

theorem TableInv.wellFormed {ρ υ : Type} {I : EntryInterface ρ υ} [LawfulInterface I]
    {t : Table d ρ} {root rank : ℕ → ℕ} (h : TableInv I t root rank) : t.WellFormed I where
  chains := h.chained.wellChained fun _ hi => Finset.mem_range.2 (t.lt_of_occ hi)
  inside _ := t.lt_of_occ
  tblCnt := h.tblCnt
  expnCnt := h.expnCnt

/-- **Every run of successful calls on a new table keeps both tables well formed.** -/
theorem nat_wellFormed {env : Env} {w w₀ w' : Drv} {nmi : MemIn} {publicIpAddr : UInt32}
    {n tblHdl : ℕ} {held : Held}
    (create : ipaNATIAddIpv4Tbl env w nmi publicIpAddr n = (0, tblHdl, w₀))
    (run : Relation.ReflTransGen (ClientStep env tblHdl) (w₀, fun _ => none) (w', held)) :
    ∃ (d : Dims) (tbl : Ip4Tbl d), ip4TblAt w' tblHdl = some ⟨d, tbl⟩ ∧
      tbl.table.WellFormed entryInterface ∧ tbl.indexTable.WellFormed indexEntryInterface := by
  obtain ⟨rfl, d, -, hc, -⟩ := ipaNATIAddIpv4Tbl_spec create
  have hh := isTblHdl_make nmi
  have hinv : NatInv nmi w₀ := ⟨d, _, ⟨id, id, id, id⟩, by rw [hc], (PairInv.fresh ..).1⟩
  obtain ⟨d, tbl, g, ht, hp⟩ := hinv.run (s := (w₀, fun _ => none)) hh run
  exact ⟨d, tbl, by rw [hh.ip4TblAt, ht], hp.nat.wellFormed, hp.indx.wellFormed⟩

/-- The first of two rules in one bucket is deleted: a dead head stays for its tail. -/
theorem nat_wellFormed_deadHead : ∃ (d : Dims) (tbl : Ip4Tbl d),
    ip4TblAt (ipaNATIDelIpv4Rule (calmEnv 0) twoRules 1 14).2 1 = some ⟨d, tbl⟩ ∧
      tbl.table.WellFormed entryInterface ∧ tbl.indexTable.WellFormed indexEntryInterface := by
  obtain ⟨d, tbl, i, ht, hi, hl⟩ :=
    liveHandle_iff.1 twoRules_answers.2.2.2.1
  have hdel : ipaNATIDelIpv4Rule (calmEnv 0) twoRules 1 14 =
      (0, (ipaNATIDelIpv4Rule (calmEnv 0) twoRules 1 14).2) :=
    Prod.ext twoRules_answers.2.2.2.2 rfl
  exact nat_wellFormed tenSlots_create
    (.tail (twoRules_run.lift id fun _ _ h => h.1) (.del 14 ht hi hl hdel))

/-! ## Consistent tables -/

/-- The bucket of a rule's destination, as the table keeps the rule. -/
def NatRule.dstBucket (env : Env) (d : Dims) (publicIp : ℕ → UInt32) (r : NatRule) : ℕ :=
  dstHash env.ver4 (publicIp r.pdnIndex.toNat) r.targetIp r.targetPort r.publicPort r.protocol
    (d.tableEntries - 1)

/-- The bucket of a rule's source. -/
def NatRule.srcBucket (d : Dims) (r : NatRule) : ℕ :=
  srcHash r.privateIp r.privatePort r.targetIp r.targetPort r.protocol (d.tableEntries - 1)

/-- **The two tables and the client agree.** -/
structure Consistent (env : Env) (w : Drv) (tbl : Ip4Tbl d) (held : Held) : Prop where
  /-- A live rule names its index entry, which names it. -/
  rule_entry : ∀ i, (tbl.natRec i).live → tbl.indxLinks.occ (tbl.natRec i).indxTblEntry ∧
    (tbl.indxRec (tbl.natRec i).indxTblEntry).tblEntry = i
  /-- An index entry names a live rule, which names it. -/
  entry_rule : ∀ j, tbl.indxLinks.occ j → (tbl.natRec (tbl.indxRec j).tblEntry).live ∧
    (tbl.natRec (tbl.indxRec j).tblEntry).indxTblEntry = j
  /-- A rule is found from its destination. -/
  dst : ∀ i, (tbl.natRec i).live → ¬ (tbl.natRec i).srcOnly → ∃ l,
    IsPath 0 tbl.natLinks.next ((tbl.natRec i).dstBucket env d (publicIps w)) l ∧ i ∈ l
  /-- Its index entry is found from its source. -/
  src : ∀ i, (tbl.natRec i).live → ¬ (tbl.natRec i).dstOnly → ∃ l,
    IsPath 0 tbl.indxLinks.next ((tbl.natRec i).srcBucket d) l ∧
      (tbl.natRec i).indxTblEntry ∈ l
  /-- The live rules are the held ones. -/
  live : ∀ i, i < d.totTblEnts → tbl.liveAt i =
    (held (makeEntryHdl tbl.table i)).map (installedContent w.pdns)
  held : ∀ hdl r, held hdl = some r → ∃ i, i < d.totTblEnts ∧ hdl = makeEntryHdl tbl.table i

/-- The invariant behind `Consistent`. -/
structure HeldInv (env : Env) (w : Drv) (tbl : Ip4Tbl d) (g : PairGhost) (held : Held) : Prop where
  pair : PairInv tbl g
  dst : ∀ i r, tbl.liveAt i = some r → r.srcOnly = false →
    g.natRoot i = r.dstBucket env d (publicIps w)
  src : ∀ i r, tbl.liveAt i = some r → r.dstOnly = false → g.srcRoot tbl i = r.srcBucket d
  live : ∀ i, i < d.totTblEnts → tbl.liveAt i =
    (held (makeEntryHdl tbl.table i)).map (installedContent w.pdns)
  held : ∀ hdl r, held hdl = some r → ∃ i, i < d.totTblEnts ∧ hdl = makeEntryHdl tbl.table i

theorem HeldInv.consistent {env : Env} {w : Drv} {tbl : Ip4Tbl d} {g : PairGhost} {held : Held}
    (h : HeldInv env w tbl g held) : Consistent env w tbl held where
  rule_entry := h.pair.rule_entry
  entry_rule := h.pair.entry_rule
  dst i hl hs := by
    obtain ⟨-, -, hpath⟩ := h.pair.nat.chained.exists_root_path
      (fun _ hi => Finset.mem_range.2 (tbl.table.lt_of_occ hi)) (Ip4Tbl.occ_of_live hl)
    rwa [h.dst i _ (if_pos hl) (Bool.eq_false_iff.2 hs)] at hpath
  src i hl hd := by
    obtain ⟨-, -, hpath⟩ := h.pair.indx.chained.exists_root_path
      (fun _ hi => Finset.mem_range.2 (tbl.indexTable.lt_of_occ hi)) (h.pair.rule_entry i hl).1
    have hroot := h.src i _ (if_pos hl) (Bool.eq_false_iff.2 hd)
    rw [PairGhost.srcRoot] at hroot
    rwa [hroot] at hpath
  live := h.live
  held := h.held

/-! ## What a step keeps of it -/

/-- A rule's record depends on the public addresses alone. -/
theorem installedContent_congr {w w' : Drv} (h : publicIps w' = publicIps w) :
    installedContent w'.pdns = installedContent w.pdns := funext fun clnt => by
  have := congrFun h clnt.pdnIndex.toNat
  simp only [publicIps] at this
  simp only [installedContent, installedRule, tableEntryCopyFromUser, this]

theorem HeldInv.congr {env : Env} {w w' : Drv} {tbl : Ip4Tbl d} {g : PairGhost} {held : Held}
    (h : HeldInv env w tbl g held) (hp : publicIps w' = publicIps w) :
    HeldInv env w' tbl g held where
  pair := h.pair
  dst := hp ▸ h.dst
  src := h.src
  live := installedContent_congr hp ▸ h.live
  held := h.held

/-- An added rule is put in the bucket of its record. -/
theorem natBucket_eq (env : Env) (d : Dims) (w : Drv) (tok : ℕ) {clnt : Ipv4Rule}
    (hv : clntRuleValid w.pdns clnt = true)
    (hs : (installedContent w.pdns clnt).srcOnly = false) :
    natBucket env d w.pdns tok clnt =
      (installedContent w.pdns clnt).dstBucket env d (publicIps w) := by
  have hlt := (clntRuleValid_iff.1 hv).2.1
  have hs' : clnt.srcOnly = false := hs
  have hpdn : (installedContent w.pdns clnt).pdnIndex.toNat = clnt.pdnIndex.toNat :=
    (BitVec.toNat_ofNat ..).trans (Nat.mod_eq_of_lt hlt)
  rw [NatRule.dstBucket, hpdn]
  simp only [natBucket, newEntryIndex, hs', Bool.false_eq_true, if_false]
  rfl

theorem indxBucket_eq (env : Env) (d : Dims) (pdns : List PdnEntry) (tok : ℕ) {clnt : Ipv4Rule}
    (hd : (installedContent pdns clnt).dstOnly = false) :
    indxBucket env d pdns tok clnt = (installedContent pdns clnt).srcBucket d := by
  have hd' : clnt.dstOnly = false := hd
  simp only [indxBucket, newIndexTblEntryIndex, hd', Bool.false_eq_true, if_false]
  rfl

theorem HeldInv.add {env : Env} {w w' : Drv} {nmi : MemIn} {tbl tbl' : Ip4Tbl d} {g g' : PairGhost}
    {held : Held} (h : HeldInv env w tbl g held) (hw : w.SameBut nmi w') (hp : PairInv tbl' g')
    (hl : SameLayout tbl.table tbl'.table) {clnt : Ipv4Rule} {i : ℕ}
    (ha : RuleAdded env w clnt tbl tbl' g g' i) :
    HeldInv env w' tbl' g'
      (Function.update held (makeEntryHdl tbl.table i) (some clnt)) := by
  have hpdns := publicIps_congr hw.pdns
  have hlive : ∀ k r, tbl'.liveAt k = some r →
      k = i ∧ r = installedContent w.pdns clnt ∨ k ≠ i ∧ tbl.liveAt k = some r := fun k r hk => by
    rw [ha.liveAt, Function.update_apply] at hk
    split at hk
    · next e => exact Or.inl ⟨e, (Option.some.inj hk).symm⟩
    · next e => exact Or.inr ⟨e, hk⟩
  refine ⟨hp, fun k r hk hs => ?_, fun k r hk hd => ?_, fun k hk => ?_, fun hdl r hr => ?_⟩
  · rw [ha.natRoot, hpdns]
    rcases hlive k r hk with ⟨rfl, rfl⟩ | ⟨hne, hk'⟩
    · rw [Function.update_self]
      exact natBucket_eq env d w w.hashToken ha.valid hs
    · rw [Function.update_of_ne hne]
      exact h.dst k r hk' hs
  · rw [ha.srcRoot k (Ip4Tbl.liveAt_eq_some.1 hk).1]
    rcases hlive k r hk with ⟨rfl, rfl⟩ | ⟨hne, hk'⟩
    · rw [if_pos rfl]
      exact indxBucket_eq env d w.pdns w.hashToken hd
    · rw [if_neg hne]
      exact h.src k r hk' hd
  · rw [makeEntryHdl_congr hl.nmi, installedContent_congr hpdns, ha.liveAt]
    rcases eq_or_ne k i with rfl | hne
    · rw [Function.update_self, Function.update_self]
      rfl
    · rw [Function.update_of_ne hne, h.live k hk, Function.update_of_ne]
      exact fun e => hne (makeEntryHdl_inj _ hk ha.lt e)
  · rw [Function.update_apply] at hr
    split at hr
    · next e => exact ⟨i, ha.lt, by rw [makeEntryHdl_congr hl.nmi, e]⟩
    · obtain ⟨k, hk, rfl⟩ := h.held hdl r hr
      exact ⟨k, hk, (makeEntryHdl_congr hl.nmi k).symm⟩

theorem HeldInv.del {env : Env} {w w' : Drv} {nmi : MemIn} {tbl : Ip4Tbl d} {g : PairGhost}
    {held : Held} (h : HeldInv env w tbl g held) (hw : w.SameBut nmi w') {i : ℕ}
    (hl : (tbl.natRec i).live) :
    HeldInv env w' (tbl.delete i) g
      (fun k => if ipaTableGetEntry d k = .ok i then none else held k) := by
  obtain ⟨hp, hlive, hsrc, hlay, -⟩ := h.pair.del hl
  have hpdns := publicIps_congr hw.pdns
  have hkeep : ∀ k r, (tbl.delete i).liveAt k = some r → tbl.liveAt k = some r := fun k r hk => by
    rw [hlive, Function.update_apply] at hk
    split at hk
    · cases hk
    · exact hk
  refine ⟨hp, fun k r hk hs => ?_, fun k r hk hd => ?_, fun k hk => ?_, fun hdl r hr => ?_⟩
  · rw [hpdns]
    exact h.dst k r (hkeep k r hk) hs
  · rw [hsrc k (Ip4Tbl.liveAt_eq_some.1 hk).1]
    exact h.src k r (hkeep k r hk) hd
  · rw [makeEntryHdl_congr hlay.nmi, installedContent_congr hpdns, hlive,
      ipaTableGetEntry_makeEntryHdl _ hk]
    rcases eq_or_ne k i with rfl | hne
    · rw [Function.update_self, if_pos rfl]
      rfl
    · rw [Function.update_of_ne hne, h.live k hk, if_neg fun e => hne (Except.ok.inj e)]
  · split at hr
    · cases hr
    · obtain ⟨k, hk, rfl⟩ := h.held hdl r hr
      exact ⟨k, hk, (makeEntryHdl_congr hlay.nmi k).symm⟩

/-- An empty table held by nobody. -/
theorem HeldInv.of_empty {env : Env} {w : Drv} {tbl : Ip4Tbl d} {g : PairGhost}
    (hp : PairInv tbl g) (hlive : tbl.liveAt = fun _ => none) :
    HeldInv env w tbl g (fun _ => none) where
  pair := hp
  dst i r hi := by rw [hlive] at hi; cases hi
  src i r hi := by rw [hlive] at hi; cases hi
  live i _ := by rw [hlive]; rfl
  held _ _ hr := by cases hr

/-- **One step keeps the tables and the client in agreement.** -/
theorem HeldInv.step {env : Env} {tblHdl : ℕ} {nmi : MemIn} (hh : IsTblHdl tblHdl nmi)
    {s s' : Drv × Held} (step : ClientStep env tblHdl s s')
    (pdns : publicIps s'.1 = publicIps s.1) {tbl : Ip4Tbl d} {g : PairGhost}
    (ht : (s.1.natCache nmi).ip4Tbl = some ⟨d, tbl⟩) (h : HeldInv env s.1 tbl g s.2) :
    ∃ tbl' g', (s'.1.natCache nmi).ip4Tbl = some ⟨d, tbl'⟩ ∧ HeldInv env s'.1 tbl' g' s'.2 := by
  cases step with
  | add clnt hdl call =>
    obtain ⟨hw, tbl', g', ht', hp', hl, ⟨hne, -⟩ | ⟨-, i, hout, ha⟩⟩ :=
      ipaNATIAddIpv4Rule_spec hh ht h.pair clnt call
    · exact absurd rfl hne
    · rw [Option.some.inj hout]
      exact ⟨tbl', g', ht', h.add hw hp' hl ha⟩
  | del hdl table names live call =>
    rw [hh.ip4TblAt, ht] at table
    cases table
    obtain ⟨hw, ⟨-, -, hdel⟩ | ⟨-, hne, -⟩⟩ :=
      ipaNATIDelIpv4Rule_spec hh ht h.pair names live call
    · exact ⟨_, g, hdel, h.del hw live⟩
    · exact absurd rfl hne
  | clear call =>
    rcases ipaNATIClearIpv4Tbl_spec hh ht call with ⟨-, hne, -⟩ | ⟨-, -, rfl⟩
    · exact absurd rfl hne
    · obtain ⟨hp, hlive⟩ := h.pair.tables.clear g
      exact ⟨_, g, Drv.setIp4Tbl_ip4Tbl .., .of_empty hp hlive⟩
  | modifyPdn pdnIndex entry call =>
    exact ⟨tbl, g, (ipaNatiModifyPdn_natCache call nmi).symm ▸ ht, h.congr pdns⟩

/-- **Every run of successful calls on a new table, the public addresses unchanged,
    keeps the two tables and the client in agreement**; the handle of a next add is
    not among the held ones. -/
theorem nat_consistent {env : Env} {w w₀ w' : Drv} {nmi : MemIn} {publicIpAddr : UInt32}
    {n tblHdl : ℕ} {held : Held}
    (create : ipaNATIAddIpv4Tbl env w nmi publicIpAddr n = (0, tblHdl, w₀))
    (run : Relation.ReflTransGen
      (fun s s' => ClientStep env tblHdl s s' ∧ publicIps s'.1 = publicIps s.1)
      (w₀, fun _ => none) (w', held)) :
    (∃ (d : Dims) (tbl : Ip4Tbl d), ip4TblAt w' tblHdl = some ⟨d, tbl⟩ ∧
      Consistent env w' tbl held) ∧
    ∀ clnt hdl w'', ipaNATIAddIpv4Rule env w' tblHdl clnt = (0, some hdl, w'') →
      held hdl = none := by
  obtain ⟨rfl, d, -, hc, -⟩ := ipaNATIAddIpv4Tbl_spec create
  have hh := isTblHdl_make nmi
  obtain ⟨hp, hlive⟩ := PairInv.fresh d nmi publicIpAddr env.addrOffset ⟨id, id, id, id⟩
  -- the dimensions never change, so the invariant is about one `d`
  have hinv : ∀ s', Relation.ReflTransGen
      (fun s s' => ClientStep env (makeTblHdl 1 nmi) s s' ∧ publicIps s'.1 = publicIps s.1)
      (w₀, fun _ => none) s' →
      ∃ (tbl : Ip4Tbl d) (g : PairGhost), (s'.1.natCache nmi).ip4Tbl = some ⟨d, tbl⟩ ∧
        HeldInv env s'.1 tbl g s'.2 := fun s' hrun => by
    induction hrun with
    | refl => exact ⟨_, _, by rw [hc], .of_empty hp hlive⟩
    | tail _ step ih =>
      obtain ⟨tbl, g, ht, h⟩ := ih
      exact h.step hh step.1 step.2 ht
  obtain ⟨tbl, g, ht, h⟩ := hinv _ run
  refine ⟨⟨d, tbl, by rw [hh.ip4TblAt, ht], h.consistent⟩, fun clnt hdl w'' call => ?_⟩
  obtain ⟨-, _, _, -, -, -, ⟨hne, -⟩ | ⟨-, i, hout, ha⟩⟩ :=
    ipaNATIAddIpv4Rule_spec hh ht h.pair clnt call
  · exact absurd rfl hne
  · have hfree := h.live i ha.lt
    rw [ha.free, eq_comm, Option.map_eq_none_iff] at hfree
    exact (congrArg held (Option.some.inj hout)).trans hfree

/-- Two rules in one bucket of both tables. -/
theorem nat_consistent_twoRules :
    (∃ (d : Dims) (tbl : Ip4Tbl d), ip4TblAt twoRules 1 = some ⟨d, tbl⟩ ∧
      Consistent (calmEnv 0) twoRules tbl (Function.update
        (Function.update (fun _ => none) 14 (some (portRule 80))) 1 (some (portRule 88)))) ∧
    ∀ clnt hdl w'', ipaNATIAddIpv4Rule (calmEnv 0) twoRules 1 clnt = (0, some hdl, w'') →
      Function.update (Function.update (fun _ => none) 14 (some (portRule 80))) 1
        (some (portRule 88)) hdl = none :=
  nat_consistent tenSlots_create twoRules_run

end Sm8850.Ipanat
