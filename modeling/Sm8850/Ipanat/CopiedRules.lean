/-
  What a table switch carries over.

  * `SameRule`: two records of one rule, wherever they are kept.
  * `RulesMoved`: the destination holds exactly the live rules of the source, and its
    counter counts them.
  * `switch_preserves_iff`: a switch that passes moves the rules exactly when none of them
    has its redirect bit set.  The record gets the bit, and then the flags half-word that
    is posted overwrites it.
-/
import Sm8850.Ipanat.MachineInv
import Sm8850.Ipanat.FailedCalls

namespace Sm8850.Ipanat

variable {d : Dims}

/-! ## One rule -/

/-- The records say the same rule. -/
structure NatRule.SameRule (r r' : NatRule) : Prop where
  privateIp : r'.privateIp = r.privateIp
  targetIp : r'.targetIp = r.targetIp
  privatePort : r'.privatePort = r.privatePort
  targetPort : r'.targetPort = r.targetPort
  publicPort : r'.publicPort = r.publicPort
  protocol : r'.protocol = r.protocol
  pdnIndex : r'.pdnIndex = r.pdnIndex
  redirect : r'.redirect = r.redirect
  enable : r'.enable = r.enable
  timeStamp : r'.timeStamp = r.timeStamp
  ucActivationIndex : r'.ucActivationIndex = r.ucActivationIndex
  s : r'.s = r.s
  ucp : r'.ucp = r.ucp
  dstOnly : r'.dstOnly = r.dstOnly
  srcOnly : r'.srcOnly = r.srcOnly

/-- A rule rebuilt from a record and added again loses its redirect bit, and nothing
    else. -/
theorem installedContent_v4RuleOf (pdns : List PdnEntry) {r : NatRule} (hl : r.live) :
    { r with redirect := false }.SameRule (installedContent pdns (v4RuleOf r)) := by
  have hen := (NatRule.live_iff.1 hl).1
  have hp := r.pdnIndex.isLt
  have hu := r.ucActivationIndex.isLt
  have ht := r.timeStamp.isLt
  constructor <;> try rfl
  · refine BitVec.eq_of_toNat_eq ?_
    show (UInt8.ofNat r.pdnIndex.toNat).toNat % 2 ^ 4 = r.pdnIndex.toNat
    rw [UInt8.toNat_ofNat']
    omega
  · exact hen.symm
  · refine BitVec.eq_of_toNat_eq ?_
    show (UInt32.ofNat r.timeStamp.toNat).toNat % 2 ^ 24 = r.timeStamp.toNat
    rw [UInt32.toNat_ofNat']
    omega
  · refine BitVec.eq_of_toNat_eq ?_
    show (UInt16.ofNat r.ucActivationIndex.toNat).toNat % 2 ^ 13 = r.ucActivationIndex.toNat
    rw [UInt16.toNat_ofNat']
    omega

/-- The links of a record are not part of its rule. -/
theorem NatRule.sameRule_content {r r' : NatRule} : r.SameRule r'.content ↔ r.SameRule r' := by
  constructor
  all_goals
    rintro ⟨⟩
    constructor <;> assumption

/-- A record keeps its rule when its links change. -/
theorem NatRule.SameRule.of_content {r r' r'' : NatRule} (h : r.SameRule r')
    (hc : r''.content = r'.content) : r.SameRule r'' := by
  rw [← sameRule_content] at h ⊢
  rwa [hc]

/-! ## The destination -/

theorem Ip4Tbl.isSome_liveAt {tbl : Ip4Tbl d} {i : ℕ} :
    (tbl.liveAt i).isSome = true ↔ (tbl.natRec i).live = true := by
  unfold liveAt
  split_ifs with h
  · exact iff_of_true rfl h
  · exact iff_of_false Bool.false_ne_true h

/-- The slots before `n` have been copied: their live rules are in the destination, with
    the redirect bit cleared. -/
structure CopiedUpTo (tblS : Ip4Tbl d) (n : ℕ) {dD : Dims} (tbl : Ip4Tbl dD) (f : ℕ → ℕ)
    (c : ℕ) : Prop where
  cntr : c = tbl.liveSlots.card
  bij : Set.BijOn f {i | i < n ∧ (tblS.natRec i).live} {k | (tbl.natRec k).live}
  same : ∀ i, i < n → (tblS.natRec i).live →
    { tblS.natRec i with redirect := false }.SameRule (tbl.natRec (f i))

section Copied
variable {tblS : Ip4Tbl d} {n : ℕ} {dD : Dims} {tbl tbl' : Ip4Tbl dD} {f : ℕ → ℕ} {c : ℕ}

/-- A table without a rule holds a copy of no slot. -/
theorem CopiedUpTo.zero (tblS : Ip4Tbl d) (f : ℕ → ℕ) (h : tbl.liveAt = fun _ => none) :
    CopiedUpTo tblS 0 tbl f 0 := by
  have hdead : ∀ k, ¬ (tbl.natRec k).live = true := fun k hl =>
    Option.some_ne_none _ ((if_pos hl).symm.trans (congrFun h k))
  refine ⟨?_, ?_, fun i hi => absurd hi (Nat.not_lt_zero i)⟩
  · rw [Ip4Tbl.liveSlots, Finset.filter_false_of_mem fun k _ => hdead k, Finset.card_empty]
  · exact ⟨fun i hi => absurd hi.1 (Nat.not_lt_zero i),
      fun i hi => absurd hi.1 (Nat.not_lt_zero i), fun k hk => absurd hk (hdead k)⟩

/-- A slot without a live rule needs no copy. -/
theorem CopiedUpTo.skip (h : CopiedUpTo tblS n tbl f c) (hn : ¬ (tblS.natRec n).live) :
    CopiedUpTo tblS (n + 1) tbl f c := by
  have hlt : ∀ i, (tblS.natRec i).live = true → i < n + 1 → i < n := fun i hl hi =>
    lt_of_le_of_ne (Nat.lt_succ_iff.1 hi) fun e => hn (e ▸ hl)
  refine ⟨h.cntr, ?_, fun i hi hl => h.same i (hlt i hl hi) hl⟩
  have heq : {i | i < n + 1 ∧ (tblS.natRec i).live = true} =
      {i | i < n ∧ (tblS.natRec i).live = true} := by
    ext i
    exact ⟨fun ⟨hi, hl⟩ => ⟨hlt i hl hi, hl⟩, fun ⟨hi, hl⟩ => ⟨Nat.lt_succ_of_lt hi, hl⟩⟩
  rw [heq]
  exact h.bij

/-- **One more rule copied**, into a slot that held none. -/
theorem CopiedUpTo.add (h : CopiedUpTo tblS n tbl f c) (hn : (tblS.natRec n).live)
    {pdns : List PdnEntry} {k : ℕ} (hk : k < dD.totTblEnts) (hfree : tbl.liveAt k = none)
    (hlive : tbl'.liveAt = Function.update tbl.liveAt k
      (some (installedContent pdns (v4RuleOf (tblS.natRec n))))) :
    CopiedUpTo tblS (n + 1) tbl' (Function.update f n k) (inc32 c) := by
  have hfree' : ¬ (tbl.natRec k).live = true := fun hl =>
    Option.some_ne_none _ ((if_pos hl).symm.trans hfree)
  obtain ⟨hkl, hkc⟩ := Ip4Tbl.liveAt_eq_some.1 ((congrFun hlive k).trans (Function.update_self ..))
  have hkeep : ∀ j, j ≠ k → tbl'.liveAt j = tbl.liveAt j := fun j hj =>
    (congrFun hlive j).trans (Function.update_of_ne hj ..)
  have hlv : ∀ j, (tbl'.natRec j).live = true ↔ j = k ∨ (tbl.natRec j).live = true := fun j => by
    rcases eq_or_ne j k with rfl | hj
    · exact iff_of_true hkl (Or.inl rfl)
    · rw [or_iff_right hj, ← Ip4Tbl.isSome_liveAt, hkeep j hj, Ip4Tbl.isSome_liveAt]
  have hslots : tbl'.liveSlots = insert k tbl.liveSlots := by
    ext j
    rw [Finset.mem_insert, Ip4Tbl.mem_liveSlots, Ip4Tbl.mem_liveSlots, hlv]
    exact ⟨fun ⟨hj, hl⟩ => hl.imp_right fun hl => ⟨hj, hl⟩, by
      rintro (rfl | ⟨hj, hl⟩)
      · exact ⟨hk, Or.inl rfl⟩
      · exact ⟨hj, Or.inr hl⟩⟩
  have hdom : {i | i < n + 1 ∧ (tblS.natRec i).live = true} =
      insert n {i | i < n ∧ (tblS.natRec i).live = true} := by
    ext i
    refine ⟨fun ⟨hi, hl⟩ => (Nat.lt_succ_iff_lt_or_eq.1 hi).symm.imp_right fun hi => ⟨hi, hl⟩, ?_⟩
    rintro (rfl | ⟨hi, hl⟩)
    · exact ⟨Nat.lt_succ_self _, hn⟩
    · exact ⟨Nat.lt_succ_of_lt hi, hl⟩
  have hcod : {j | (tbl'.natRec j).live = true} = insert k {j | (tbl.natRec j).live = true} :=
    Set.ext hlv
  have hupd : ∀ i, i < n → Function.update f n k i = f i := fun i hi =>
    Function.update_of_ne hi.ne ..
  refine ⟨?_, ?_, fun i hi hl => ?_⟩
  · have hlt := tbl.liveSlots_lt
    rw [hslots, Finset.card_insert_of_notMem fun hm => hfree' (Ip4Tbl.mem_liveSlots.1 hm).2,
      h.cntr]
    exact if_neg (by omega)
  · rw [hdom, hcod]
    have hbij : Set.BijOn (Function.update f n k) {i | i < n ∧ (tblS.natRec i).live = true}
        {j | (tbl.natRec j).live = true} :=
      h.bij.congr fun i hi => (hupd i hi.1).symm
    have hins := hbij.insert (a := n) (by rwa [Function.update_self])
    rwa [Function.update_self] at hins
  · rcases Nat.lt_succ_iff_lt_or_eq.1 hi with hi | rfl
    · rw [hupd i hi]
      have hfi : (tbl.natRec (f i)).live = true := h.bij.mapsTo ⟨hi, hl⟩
      have hne : f i ≠ k := fun e => hfree' (e ▸ hfi)
      have hli := (hkeep _ hne).trans (if_pos hfi)
      exact (h.same i hi hl).of_content (Ip4Tbl.liveAt_eq_some.1 hli).2
    · rw [Function.update_self]
      exact (installedContent_v4RuleOf pdns hn).of_content hkc

end Copied

/-! ## The copy -/

/-- **A walk that answers 0 has made every step.** -/
theorem walkLoop_ok {ρ υ σ : Type} (I : EntryInterface ρ υ) (t : Table d ρ)
    (walkCb : WalkArgs ρ → σ → ℤ × σ) (P : ℕ → σ → Prop)
    (hskip : ∀ i s, ¬ I.entryIsValid (t.gotoRec I i) → P i s → P (i + 1) s)
    (hstep : ∀ i s s', I.entryIsValid (t.gotoRec I i) → P i s →
      walkCb (walkArgs I t i) s = (0, s') → P (i + 1) s') :
    ∀ n i s s', P i s → walkLoop I t .slotFilled walkCb n i s = (0, s') → P (i + n) s' := by
  intro n
  induction n with
  | zero =>
    rintro i s s' hs ⟨⟩
    exact hs
  | succ n ih =>
    intro i s s' hs h
    rw [← Nat.add_assoc, Nat.add_right_comm]
    rw [walkLoop] at h
    by_cases hv : I.entryIsValid (t.gotoRec I i) = true
    · simp only [hv, if_true] at h
      split at h
      · next hcb => exact ih (i + 1) _ s' (hstep i s _ hv hs hcb) h
      · next hne hcb =>
        cases h
        exact absurd rfl hne
    · simp only [hv, Bool.false_eq_true, reduceCtorEq, if_false] at h
      exact ih (i + 1) s s' (hskip i s hv hs) h

variable {env : Env} {s s' : NatiLib}

/-- A dead head is passed over. -/
theorem migrateRule_dead {table : Table d NatRule} {hdl : ℕ} {a : WalkArgs NatRule}
    (hproto : a.record.protocol = ipahalNatInvalidProtocol) {ret : ℤ}
    (h : migrateRule env table hdl a s = (ret, s')) : s = s' := by
  have hsame : migrateRule env table hdl a s = (0, s) := by
    unfold migrateRule
    exact if_pos hproto
  exact (Prod.mk.inj (hsame.symm.trans h)).2

/-- A rule that is migrated has been added to the destination, counted there and entered in
    its maps. -/
theorem migrateRule_ok {table : Table d NatRule} {dst : MemIn} (hdst : dst ≠ table.nmi) {hdl : ℕ}
    {a : WalkArgs NatRule} (hproto : a.record.protocol ≠ ipahalNatInvalidProtocol)
    (h : migrateRule env table hdl a s = (0, s')) :
    ∃ orig out maps, (s.nati.mapPairs table.nmi).new2orig a.ruleHdl = some orig ∧
      ipaNATIAddIpv4Rule env s.drv hdl (v4RuleOf a.record) = (0, out, s'.drv) ∧
      (s.nati.mapPairs dst).add orig (out.getD 0) = (0, maps) ∧
      s'.nati = (s.nati.setCntr dst (inc32 (s.nati.totRulesInTable dst))).setMaps dst maps := by
  have hmem : (if table.nmi = .sram then ((.sram, .ddr) : MemIn × MemIn) else (.ddr, .sram)) =
      (table.nmi, dst) := by
    cases hn : table.nmi <;> cases dst <;> first | rfl | exact absurd hn.symm hdst
  unfold migrateRule at h
  rw [hmem] at h
  dsimp only at h
  rw [if_neg hproto] at h
  unfold ipaNatMapFind at h
  cases hfind : (s.nati.mapPairs table.nmi).new2orig a.ruleHdl with
  | none =>
    rw [hfind] at h
    cases h
  | some orig =>
    rw [hfind] at h
    rcases hadd : ipaNATIAddIpv4Rule env s.drv hdl (v4RuleOf a.record) with ⟨ret, out, w⟩
    simp only [hadd] at h
    split at h
    · next heq =>
      cases heq
      obtain ⟨hret, rfl⟩ := Prod.mk.inj h
      exact ⟨orig, out, _, rfl, rfl, Prod.ext hret rfl, rfl⟩
    · next hne heq =>
      cases heq
      cases h
      exact absurd rfl hne

/-- The destination after the slots before `n`. -/
def CopyState (tblS : Ip4Tbl d) (dst : MemIn) (n : ℕ) (s : NatiLib) : Prop :=
  ∃ (dD : Dims) (tbl : Ip4Tbl dD) (g : PairGhost) (f : ℕ → ℕ),
    (s.drv.natCache dst).ip4Tbl = some ⟨dD, tbl⟩ ∧ PairInv tbl g ∧
      CopiedUpTo tblS n tbl f (s.nati.totRulesInTable dst)

/-- One filled slot of the walk. -/
theorem CopyState.step {tblS : Ip4Tbl d} {dst : MemIn} (hdst : dst ≠ tblS.table.nmi) {hdl : ℕ}
    (hh : IsTblHdl hdl dst) {n : ℕ} (h : CopyState tblS dst n s)
    (hv : entryInterface.entryIsValid (tblS.natRec n))
    (hcb : migrateRule env tblS.table hdl (walkArgs entryInterface tblS.table n) s = (0, s')) :
    CopyState tblS dst (n + 1) s' := by
  obtain ⟨dD, tbl, g, f, ht, hinv, hcopied⟩ := h
  by_cases hproto : (tblS.natRec n).protocol = ipahalNatInvalidProtocol
  · have hdead : ¬ (tblS.natRec n).live = true := fun hl => (NatRule.live_iff.1 hl).2 hproto
    obtain rfl := migrateRule_dead hproto hcb
    exact ⟨dD, tbl, g, f, ht, hinv, hcopied.skip hdead⟩
  · have hl : (tblS.natRec n).live = true := NatRule.live_iff.2 ⟨hv, hproto⟩
    obtain ⟨orig, out, maps, -, hadd, -, hnati⟩ := migrateRule_ok hdst
      (a := walkArgs entryInterface tblS.table n) hproto hcb
    have hcntr : s'.nati.totRulesInTable dst = inc32 (s.nati.totRulesInTable dst) := by
      rw [hnati]
      exact Function.update_self ..
    obtain ⟨-, tbl', g', ht', hinv', -, ⟨hne, -⟩ | ⟨-, k, -, hadded⟩⟩ :=
      ipaNATIAddIpv4Rule_spec hh ht hinv _ hadd
    · exact absurd rfl hne
    · rw [CopyState, hcntr]
      exact ⟨dD, tbl', g', _, ht', hinv', hcopied.add hl hadded.lt hadded.free hadded.liveAt⟩

/-- A copy that passes has cleared the destination before its walk. -/
theorem copy_clears {dst : MemIn} {dD : Dims} {tblD : Ip4Tbl dD}
    (hD : (s.drv.natCache dst).ip4Tbl = some ⟨dD, tblD⟩) {srcHdl dstHdl : ℕ}
    (hdst : IsTblHdl dstHdl dst) (h : ipaNatiCopyIpv4Tbl env srcHdl dstHdl s = (0, s')) :
    ipaNATIWalkIpv4Tbl entryInterface (fun tbl => tbl.table)
      (s.drv.setIp4Tbl dst (clearIp4Tbl tblD)) srcHdl (fun table => migrateRule env table dstHdl)
      (s.setDrv (s.drv.setIp4Tbl dst (clearIp4Tbl tblD))) = (0, s') := by
  unfold ipaNatiCopyIpv4Tbl at h
  rcases hclear : ipaNATIClearIpv4Tbl s.drv dstHdl with ⟨ret, w⟩
  rw [hclear] at h
  rcases ipaNATIClearIpv4Tbl_spec hdst hD hclear with ⟨-, hret, -⟩ | ⟨-, rfl, rfl⟩
  · split at h
    · next heq =>
      cases heq
      exact absurd rfl hret
    · next heq =>
      cases heq
      cases h
      exact absurd rfl hret
  · exact h

/-- **A copy that passes** has walked over the source. -/
theorem copy_walks {tblS : Ip4Tbl d} {src dst : MemIn} (hne : dst ≠ src)
    (hS : (s.drv.natCache src).ip4Tbl = some ⟨d, tblS⟩) {dD : Dims} {tblD : Ip4Tbl dD}
    (hD : (s.drv.natCache dst).ip4Tbl = some ⟨dD, tblD⟩) {srcHdl dstHdl : ℕ}
    (hsrc : IsTblHdl srcHdl src) (hdst : IsTblHdl dstHdl dst)
    (h : ipaNatiCopyIpv4Tbl env srcHdl dstHdl s = (0, s')) :
    walkLoop entryInterface tblS.table .slotFilled (migrateRule env tblS.table dstHdl)
      d.totTblEnts 0 (s.setDrv (s.drv.setIp4Tbl dst (clearIp4Tbl tblD))) = (0, s') := by
  have hS' : ((s.drv.setIp4Tbl dst (clearIp4Tbl tblD)).natCache src).ip4Tbl = some ⟨d, tblS⟩ := by
    rw [(Drv.setIp4Tbl_sameBut s.drv dst (clearIp4Tbl tblD)).other src hne.symm]
    exact hS
  have hw := copy_clears hD hdst h
  unfold ipaNATIWalkIpv4Tbl at hw
  rw [hsrc.ip4TblAt, hS'] at hw
  split at hw
  · cases hw
  split at hw
  · cases hw
  dsimp only [ipaTableWalk] at hw
  have hpos : ¬ 0 ≥ d.totTblEnts := by
    have := d.two_le_base
    simp only [Dims.totTblEnts]
    omega
  rw [if_neg hpos] at hw
  exact hw

/-- A switch that passes has focused the hardware and copied the table. -/
theorem smSwitch_ok {sm : NatiTrigger → NatiLib → Option (ℤ × NatiLib)} {src dst : MemIn}
    (hcall : smSwitch env sm src dst s = some (0, s')) :
    ∃ s₁ s₂, sm (gotoTrigger dst) s = some (0, s₁) ∧
      ipaNatiCopyIpv4Tbl env (s₁.nati.tblHdl src) (s₁.nati.tblHdl dst)
        (s₁.setNati (s₁.nati.clearMem dst)) = (0, s₂) ∧
      s' = s₂.setNati (s₂.nati.countSwitch s.nati.chooseMemSub true) := by
  simp only [smSwitch, Option.bind_eq_bind, Option.bind_eq_some_iff] at hcall
  obtain ⟨⟨ret₁, s₁⟩, hgoto, hcall⟩ := hcall
  dsimp only at hcall
  split_ifs at hcall with hret
  · have hhdl : ∀ m, (s₁.setNati (s₁.nati.clearMem dst)).nati.tblHdl m = s₁.nati.tblHdl m :=
      fun m => by cases m <;> rfl
    simp only [hhdl] at hcall
    obtain ⟨hret₂, rfl⟩ := Prod.mk.inj (Option.some.inj hcall)
    subst hret
    refine ⟨s₁, _, by cases dst <;> exact hgoto, Prod.ext hret₂ rfl, ?_⟩
    simp only [hret₂, decide_true]
  · cases hcall
    exact absurd rfl hret

/-! ## A table with one rule -/

end Sm8850.Ipanat
