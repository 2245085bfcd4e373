/-
  The copy of a switch.

  * `migrateRule_cases`: one record of the walk is passed over, or added and entered.
  * `copy_keeps`: the copy works on the destination, and what DDR holds is right after
    it in either direction.
  * `copy_noSlots`: from DDR to SRAM no add lacks a slot, if the counter is at most the
    threshold.
-/
import Sm8850.Ipanat.Callbacks

namespace Sm8850.Ipanat

variable {d : Dims} {env : Env} {s : NatiLib}

/-! ## One rule -/

/-- What `migrate_rule` can do, into the memory that the walked table is not in. -/
theorem migrateRule_cases {table : Table d NatRule} {dst : MemIn} (hdst : dst ≠ table.nmi)
    (hdl : ℕ) (a : WalkArgs NatRule) :
    (migrateRule env table hdl a s).2 = s ∨
      ∃ orig ret out w n p, (s.nati.mapPairs table.nmi).new2orig a.ruleHdl = some orig ∧
        ipaNATIAddIpv4Rule env s.drv hdl (v4RuleOf a.record) = (ret, out, w) ∧
        n = (if addFindsNoSlot env s.drv hdl (v4RuleOf a.record) then s.noSlots + 1
          else s.noSlots) ∧ p = ((s.nati.mapPairs dst).add orig (out.getD 0)).2 ∧
        (migrateRule env table hdl a s).2 = if ret = 0 then
          ({ s with noSlots := n }.setDrv w).setNati
            ((s.nati.setCntr dst (inc32 (s.nati.totRulesInTable dst))).setMaps dst p)
          else { s with noSlots := n }.setDrv w := by
  have hmem : (if table.nmi = .sram then ((.sram, .ddr) : MemIn × MemIn) else (.ddr, .sram)) =
      (table.nmi, dst) := by
    cases hn : table.nmi <;> cases dst <;> first | rfl | exact absurd hn.symm hdst
  unfold migrateRule
  rw [hmem]
  dsimp only
  by_cases hproto : a.record.protocol = ipahalNatInvalidProtocol
  · rw [if_pos hproto]
    exact Or.inl rfl
  rw [if_neg hproto]
  unfold ipaNatMapFind
  cases hfind : (s.nati.mapPairs table.nmi).new2orig a.ruleHdl with
  | none => exact Or.inl rfl
  | some orig =>
    rcases hadd : ipaNATIAddIpv4Rule env s.drv hdl (v4RuleOf a.record) with ⟨ret, out, w⟩
    refine Or.inr ⟨orig, ret, out, w, _, _, rfl, rfl, rfl, rfl, ?_⟩
    dsimp only
    split
    · next heq =>
      cases heq
      exact (if_pos rfl).symm
    · next hne heq =>
      cases heq
      exact (if_neg hne).symm

/-- A migrated rule changes the destination only. -/
theorem migrateRule_within (h : NatiBase env s) {table : Table d NatRule} {dst : MemIn}
    (hdst : dst ≠ table.nmi) {hdl : ℕ} (hh : s.drv.HdlAt hdl dst) (a : WalkArgs NatRule) :
    s.Within dst (migrateRule env table hdl a s).2 := by
  rcases migrateRule_cases hdst hdl a with heq | ⟨orig, ret, out, w, n, p, -, hadd, -, -, heq⟩
  · rw [heq]
    exact .refl dst s
  · have htbl := addIpv4Rule_tblCall h.sound hh env (v4RuleOf a.record)
    rw [hadd] at htbl
    have hn : s.Within dst { s with noSlots := n } :=
      ⟨⟨.refl _, fun _ => rfl, rfl, rfl, rfl⟩, rfl, fun _ _ => rfl, fun _ _ => rfl, fun _ _ => rfl⟩
    have hs := hn.trans (NatiLib.within_setDrv { s with noSlots := n } htbl)
    rw [heq]
    split_ifs
    · have hc := NatiLib.within_setCntr ({ s with noSlots := n }.setDrv w) dst
        (inc32 (s.nati.totRulesInTable dst))
      exact (hs.trans hc).trans (NatiLib.within_setMaps _ dst p)
    · exact hs

/-- A rule migrated to DDR is counted and entered, or not there. -/
theorem migrateRule_tracked (h : NatiBase env s) {table : Table d NatRule}
    (hsram : table.nmi = .sram) {hdl : ℕ} (hh : s.drv.HdlAt hdl .ddr) (ht : s.TrackedDdr)
    (a : WalkArgs NatRule) : (migrateRule env table hdl a s).2.TrackedDdr := by
  have hdst : MemIn.ddr ≠ table.nmi := by
    rw [hsram]
    decide
  rcases migrateRule_cases hdst hdl a with heq | ⟨orig, ret, out, w, n, p, -, hadd, -, rfl, heq⟩
  · rw [heq]
    exact ht
  · rw [heq]
    rcases TrackedIn.addCall h.sound hh ht hadd with ⟨hne, ht'⟩ | ⟨h0, new, rfl, ht'⟩
    · rw [if_neg hne]
      exact ht'
    · rw [if_pos h0]
      exact ht' orig

/-! ## The copy -/

/-- **The copy works on the destination**, and keeps what DDR holds right. -/
theorem copy_keeps (h : NatiBase env s) (src dst : MemIn) (hne : dst ≠ src)
    (hddr : dst = .ddr → s.nati.mapPairs .ddr = .empty ∧ s.nati.totRulesInTable .ddr = 0) :
    s.Within dst (ipaNatiCopyIpv4Tbl env (s.nati.tblHdl src) (s.nati.tblHdl dst) s).2 ∧
      (dst = .ddr →
        (ipaNatiCopyIpv4Tbl env (s.nati.tblHdl src) (s.nati.tblHdl dst) s).2.TrackedDdr) := by
  have hclear := clearIpv4Tbl_tblCall h.sound ((h.hdls dst).at s.drv)
  unfold ipaNatiCopyIpv4Tbl
  rcases hcall : ipaNATIClearIpv4Tbl s.drv (s.nati.tblHdl dst) with ⟨ret, w⟩
  rw [hcall] at hclear
  have hs := s.within_setDrv hclear
  have ht : dst = .ddr → (s.setDrv w).TrackedDdr := fun hd =>
    .of_clear (hddr hd).1 (hddr hd).2
  have hbase := h.sameState hs.toSteady hs.currState
  split
  swap
  · next heq =>
    cases heq
    exact ⟨hs, ht⟩
  next heq =>
  cases heq
  rcases walkIpv4Tbl_cases entryInterface (fun tbl => tbl.table) w (s.nati.tblHdl src)
    (fun table => migrateRule env table (s.nati.tblHdl dst)) (s.setDrv w) with
    heq | ⟨d, tbl, htbl, heq⟩
  · rw [heq]
    exact ⟨hs, ht⟩
  · have hnmi : tbl.table.nmi = src := by
      rcases (h.hdls src).at w with hn | ⟨hm, -⟩
      · rw [hn] at htbl
        cases htbl
      · rw [hm.ip4TblAt] at htbl
        exact (hbase.sound src d tbl htbl).1
    obtain ⟨-, hP⟩ := walkLoop_inv entryInterface tbl.table .slotFilled
      (migrateRule env tbl.table (s.nati.tblHdl dst))
      (fun _ s' => s.Within dst s' ∧ (dst = .ddr → s'.TrackedDdr)) (fun _ _ hP => hP)
      (fun i s' _ hP => by
        have hbase' := h.sameState hP.1.toSteady hP.1.currState
        have hh := (h.hdls dst).at s'.drv
        refine ⟨hP.1.trans (migrateRule_within hbase' (hnmi ▸ hne) hh _), ?_⟩
        rintro rfl
        refine migrateRule_tracked hbase' ?_ hh (hP.2 rfl) _
        cases src
        · exact absurd rfl hne
        · exact hnmi) d.totTblEnts 0 (s.setDrv w) (by omega) ⟨hs, ht⟩
    rw [heq]
    exact hP

/-! ## Slots for the way back -/

/-- A cleared table has all of its expansion slots free. -/
theorem clear_expnAtMost {tbl : Ip4Tbl d} {g : PairGhost} (h : TablesInv tbl g) :
    (clearIp4Tbl tbl).ExpnAtMost 0 := by
  have hinv := (h.clear g).1.loose.tables
  exact ⟨hinv.nat.expnCnt.symm.le, hinv.indx.expnCnt.symm.le⟩

/-- With room in both expansion parts no add lacks a slot. -/
theorem addFindsNoSlot_of_room (env : Env) {w : Drv} {hdl : ℕ} {nmi : MemIn} (hh : IsTblHdl hdl nmi)
    {tbl : Ip4Tbl d} (ht : (w.natCache nmi).ip4Tbl = some ⟨d, tbl⟩) {g : PairGhost}
    (hinv : LooseInv tbl g) {m : ℕ} (hm : tbl.ExpnAtMost m) (hroom : m < d.expnTableEntries)
    (clnt : Ipv4Rule) : addFindsNoSlot env w hdl clnt = false := by
  obtain ⟨p, hp⟩ := prepareAdd_of_room hinv.tables hm hroom env w.pdns w.hashToken clnt
  unfold addFindsNoSlot
  rw [hh.ip4TblAt, ht]
  simp only [hp, Bool.and_false]

/-- The slots before `i` whose handles lead back to an original handle. -/
def Ip4Tbl.trackedBefore (tbl : Ip4Tbl d) (p : NatiMapPair) (i : ℕ) : Finset ℕ :=
  (tbl.trackedSlots p).filter (· < i)

/-- `n` adds of the walk have lacked no slot, and each took one expansion slot at most. -/
structure CopyInv (s₀ : NatiLib) (dS : Dims) (n : ℕ) (s : NatiLib) : Prop where
  within : s₀.Within .sram s
  noSlots : s.noSlots = s₀.noSlots
  room : ∃ (tbl : Ip4Tbl dS) (g : PairGhost), (s.drv.natCache .sram).ip4Tbl = some ⟨dS, tbl⟩ ∧
    LooseInv tbl g ∧ tbl.ExpnAtMost n

theorem Ip4Tbl.ExpnAtMost.mono {tbl : Ip4Tbl d} {m n : ℕ} (h : tbl.ExpnAtMost m) (hle : m ≤ n) :
    tbl.ExpnAtMost n := ⟨h.nat.trans hle, h.indx.trans hle⟩

theorem CopyInv.mono {s₀ : NatiLib} {dS : Dims} {m n : ℕ} (h : CopyInv s₀ dS m s)
    (hle : m ≤ n) : CopyInv s₀ dS n s := by
  obtain ⟨tbl, g, ht, hinv, hm⟩ := h.room
  exact ⟨h.within, h.noSlots, tbl, g, ht, hinv, hm.mono hle⟩

/-- **One rule finds its slots**, as long as fewer have been added than the expansion part
    holds. -/
theorem CopyInv.migrateRule {s₀ : NatiLib} (h₀ : NatiBase env s₀) {dS : Dims} {n : ℕ}
    (h : CopyInv s₀ dS n s) {table : Table d NatRule} (hddr : table.nmi = .ddr) {hdl : ℕ}
    (hh : IsTblHdl hdl .sram) (a : WalkArgs NatRule)
    (hroom : ((s₀.nati.mapPairs .ddr).new2orig a.ruleHdl).isSome → n < dS.expnTableEntries) :
    CopyInv s₀ dS (if ((s₀.nati.mapPairs .ddr).new2orig a.ruleHdl).isSome then n + 1 else n)
      (migrateRule env table hdl a s).2 := by
  have hbase := h₀.sameState h.within.toSteady h.within.currState
  obtain ⟨tbl, g, ht, hinv, hn⟩ := h.room
  have hdst : MemIn.sram ≠ table.nmi := by
    rw [hddr]
    decide
  have hwithin := h.within.trans (migrateRule_within hbase hdst (Or.inr ⟨hh, dS, tbl, ht⟩) a)
  rcases migrateRule_cases hdst hdl a with
    heq | ⟨orig, ret, out, w, k, p, hfind, hadd, hk, -, heq⟩
  · rw [heq]
    refine h.mono ?_
    split_ifs
    · exact Nat.le_succ n
    · exact le_rfl
  · rw [hddr, h.within.maps .ddr (by decide)] at hfind
    have hsome : ((s₀.nati.mapPairs .ddr).new2orig a.ruleHdl).isSome = true := by
      rw [hfind]
      rfl
    have hfits := addFindsNoSlot_of_room env hh ht hinv hn (hroom hsome)
      (v4RuleOf a.record)
    rw [hfits] at hk
    obtain ⟨-, tbl', g', ht', hinv', hexpn, -⟩ := hinv.addSlots hh ht hadd
    rw [if_pos hsome]
    refine ⟨hwithin, ?_, tbl', g', ?_, hinv', hexpn n hn⟩
    · rw [heq]
      split_ifs
      · exact hk.trans h.noSlots
      · exact hk.trans h.noSlots
    · rw [heq]
      split_ifs
      · exact ht'
      · exact ht'

section Before
variable {tbl : Ip4Tbl d} {p : NatiMapPair} {i : ℕ}

theorem Ip4Tbl.trackedBefore_subset (i : ℕ) :
    tbl.trackedBefore p i ⊆ tbl.trackedBefore p (i + 1) := fun k hk => by
  obtain ⟨hk, hlt⟩ := Finset.mem_filter.1 hk
  exact Finset.mem_filter.2 ⟨hk, Nat.lt_succ_of_lt hlt⟩

theorem Ip4Tbl.trackedBefore_succ_le (hi : i < d.totTblEnts) :
    (if (p.new2orig (makeEntryHdl tbl.table i)).isSome then (tbl.trackedBefore p i).card + 1
      else (tbl.trackedBefore p i).card) ≤ (tbl.trackedBefore p (i + 1)).card := by
  split_ifs with hsome
  · refine Finset.card_lt_card ⟨trackedBefore_subset i, fun hback => ?_⟩
    have hmem : i ∈ tbl.trackedBefore p (i + 1) :=
      Finset.mem_filter.2 ⟨mem_trackedSlots.2 ⟨hi, hsome⟩, Nat.lt_succ_self i⟩
    exact lt_irrefl i (Finset.mem_filter.1 (hback hmem)).2
  · exact Finset.card_le_card (trackedBefore_subset i)

theorem Ip4Tbl.trackedBefore_lt (hi : i ∈ tbl.trackedSlots p) :
    (tbl.trackedBefore p i).card < (tbl.trackedSlots p).card :=
  Finset.card_lt_card ⟨Finset.filter_subset _ _, fun hback =>
    lt_irrefl i (Finset.mem_filter.1 (hback hi)).2⟩

end Before

/-- **The way back lacks no slot**, whatever the rules hash to: each rule takes one
    expansion slot at most, and there are more of these than the threshold. -/
theorem copy_noSlots (h : NatiBase env s) (ht : s.TrackedDdr)
    (hle : s.nati.totRulesInTable .ddr ≤ s.nati.backToSramThresh) :
    (ipaNatiCopyIpv4Tbl env (s.nati.tblHdl .ddr) (s.nati.tblHdl .sram) s).2.noSlots =
      s.noSlots := by
  unfold ipaNatiCopyIpv4Tbl
  rcases (h.hdls .sram).at s.drv with hn | ⟨hm, dS, tblS, htS⟩
  · rw [clearIpv4Tbl_none hn]
    rfl
  rcases hcall : ipaNATIClearIpv4Tbl s.drv (s.nati.tblHdl .sram) with ⟨ret, w⟩
  obtain ⟨-, g, hinv⟩ := h.sound .sram dS tblS htS
  have hclear := clearIpv4Tbl_tblCall h.sound ((h.hdls .sram).at s.drv)
  rw [hcall] at hclear
  rcases ipaNATIClearIpv4Tbl_spec hm htS hcall with ⟨-, hret, -⟩ | ⟨-, rfl, hw⟩
  · split
    · next heq =>
      cases heq
      exact absurd rfl hret
    · next heq =>
      cases heq
      rfl
  rcases walkIpv4Tbl_cases entryInterface (fun tbl => tbl.table) w (s.nati.tblHdl .ddr)
    (fun table => migrateRule env table (s.nati.tblHdl .sram)) (s.setDrv w) with
    heq | ⟨d, tbl, htbl, heq⟩
  · have hkept : (s.setDrv w).noSlots = s.noSlots := rfl
    exact (congrArg NatiLib.noSlots heq).trans hkept
  · have htD : (s.drv.natCache .ddr).ip4Tbl = some ⟨d, tbl⟩ := by
      rw [← hclear.other .ddr (by decide)]
      rcases (h.hdls .ddr).at w with hn | ⟨hmD, -⟩
      · rw [hn] at htbl
        cases htbl
      · rwa [hmD.ip4TblAt] at htbl
    have htrack : Tracked tbl (s.nati.mapPairs .ddr) (s.nati.totRulesInTable .ddr) := by
      unfold NatiLib.TrackedDdr at ht
      rwa [htD] at ht
    have hstart : CopyInv s dS (tbl.trackedBefore (s.nati.mapPairs .ddr) 0).card (s.setDrv w) := by
      refine ⟨s.within_setDrv hclear, rfl, clearIp4Tbl tblS, g, ?_,
        (hinv.tables.clear g).1.loose, (clear_expnAtMost hinv.tables).mono (Nat.zero_le _)⟩
      rw [hw]
      exact Drv.setIp4Tbl_ip4Tbl s.drv .sram (clearIp4Tbl tblS)
    obtain ⟨j, hP⟩ := walkLoop_inv entryInterface tbl.table .slotFilled
      (migrateRule env tbl.table (s.nati.tblHdl .sram))
      (fun i s' => CopyInv s dS (tbl.trackedBefore (s.nati.mapPairs .ddr) i).card s')
      (fun i s' hP => hP.mono (Finset.card_le_card (Ip4Tbl.trackedBefore_subset i)))
      (fun i s' hi hP => (hP.migrateRule h (h.sound .ddr d tbl htD).1 hm _ fun hsome => by
        refine (h.sized dS tblS htS).room ?_
        have hlt := Ip4Tbl.trackedBefore_lt (Ip4Tbl.mem_trackedSlots.2 ⟨hi, hsome⟩)
        exact hlt.trans_le (htrack.keys_le.trans hle)).mono (Ip4Tbl.trackedBefore_succ_le hi))
      d.totTblEnts 0 (s.setDrv w) (by omega) hstart
    exact (congrArg NatiLib.noSlots heq).trans hP.noSlots

end Sm8850.Ipanat
