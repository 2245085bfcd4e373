/-
  Calls that fail, in any run of calls.

  * `AnyStep`: one call on a table, whatever it answers.
  * `failed_add_restores`: a failed add leaves both tables as they were.
  * `failed_post_keeps_iff`: a delete whose post fails leaves them as they were unless
    it has pointed a rule at another index entry before.
  * `deleted_again_iff`: when the delete of a rule that is gone fails and changes
    nothing.
-/
import Sm8850.Ipanat.LooseInv
import Sm8850.Ipanat.NatRuns

namespace Sm8850.Ipanat

variable {d : Dims}

/-! ## A delete whose post fails -/

/-- The delete of a handle finds a head with a tail in the index table, and the rule of
    the second entry does not name that head yet. -/
def repoints (tbl : Ip4Tbl d) (ruleHdl : ℕ) : Bool :=
  match ipaTableGetEntry d ruleHdl with
  | .error _ => false
  | .ok i =>
    match ipaTableIteratorInit entryInterface tbl.table i,
      ipaTableGetEntryByIndex d (tbl.natRec i).indxTblEntry with
    | .ok _, some j =>
      match ipaTableIteratorInit indexEntryInterface tbl.indexTable j with
      | .error _ => false
      | .ok it =>
        ipaTableIteratorIsHeadWithTail it &&
          (tbl.indxRec it.nextIndex).tblEntry < d.totTblEnts &&
          (tbl.natRec (tbl.indxRec it.nextIndex).tblEntry).indxTblEntry ≠ it.currIndex
    | _, _ => false

/-- Pointing the rule of the second entry at the head changes the table unless the rule
    is there already. -/
theorem copySecond_eq_iff (tbl : Ip4Tbl d) (it : Iterator) (cmd : DmaCmd) :
    (ipaNatiCopySecondIndexEntryToHead tbl it cmd).1 = tbl ↔
      ¬ ((tbl.indxRec it.nextIndex).tblEntry < d.totTblEnts ∧
        (tbl.natRec (tbl.indxRec it.nextIndex).tblEntry).indxTblEntry ≠ it.currIndex) := by
  simp only [ipaNatiCopySecondIndexEntryToHead]
  generalize (tbl.indxRec it.nextIndex).tblEntry = k
  constructor
  · rintro heq ⟨hk, hne⟩
    have hrec := congrArg (fun T : Ip4Tbl d => (T.natRec k).indxTblEntry) heq
    simp only [Ip4Tbl.natRec, Table.gotoRec_modifyRec _ _ _ _ hk, if_true] at hrec
    exact hne hrec.symm
  · intro hn
    have hmod : tbl.table.recs.modify k (fun r => { r with indxTblEntry := it.currIndex }) =
        tbl.table.recs := by
      refine List.ext_getElem (List.length_modify ..) fun m hm hm' => ?_
      rw [List.getElem_modify]
      split
      · next hkm =>
        subst hkm
        have hk : k < d.totTblEnts := tbl.table.len ▸ hm'
        have hget : tbl.natRec k = tbl.table.recs[k] := by
          rw [Ip4Tbl.natRec, Table.gotoRec, List.getD_eq_getElem _ _ hm']
        have heq : (tbl.natRec k).indxTblEntry = it.currIndex := by_contra fun hne => hn ⟨hk, hne⟩
        rw [← hget, ← heq]
      · rfl
    have htable : (tbl.table.modifyRec k fun r => { r with indxTblEntry := it.currIndex }) =
        tbl.table := by
      obtain ⟨_, ⟨_, _, _, _, _, _, _, _⟩, _⟩ := tbl
      simp only [Table.modifyRec, Table.mk.injEq, true_and, and_true]
      exact hmod
    exact congrArg (fun t => { tbl with table := t }) htable

/-- **What a delete has changed before it posts.** -/
theorem prepareDel_keeps_iff (tbl : Ip4Tbl d) (ruleHdl : ℕ) :
    (prepareDel tbl ruleHdl).1 = tbl ↔ repoints tbl ruleHdl = false := by
  unfold prepareDel repoints
  dsimp only
  cases hget : ipaTableGetEntry d ruleHdl with
  | error e => simp
  | ok i =>
    cases hit : ipaTableIteratorInit entryInterface tbl.table i with
    | error e => simp [hit]
    | ok tableIt =>
      cases hind : ipaTableGetEntryByIndex d (tbl.natRec i).indxTblEntry with
      | none => simp [hit, hind]
      | some j =>
        cases hjt : ipaTableIteratorInit indexEntryInterface tbl.indexTable j with
        | error e => simp [hit, hind, hjt]
        | ok it =>
          cases hw : ipaTableIteratorIsHeadWithTail it with
          | false => simp [hit, hind, hjt, hw]
          | true =>
            have hcopy := copySecond_eq_iff tbl it
              (ipaTableCreateDeleteCommand indexEntryInterface tbl.indexTable [] it)
            generalize hT : ipaNatiCopySecondIndexEntryToHead tbl it
              (ipaTableCreateDeleteCommand indexEntryInterface tbl.indexTable [] it) = T at hcopy
            cases hnext : ipaTableIteratorNext indexEntryInterface it T.1.indexTable
            all_goals simp [hit, hind, hjt, hw, hT, hnext, hcopy]

/-- A delete that cannot post leaves what it has prepared. -/
theorem ipaNATIDelIpv4Rule_unposted {env : Env} {w : Drv} {tblHdl : ℕ} {nmi : MemIn}
    {tbl : Ip4Tbl d} (hh : IsTblHdl tblHdl nmi) (ht : (w.natCache nmi).ip4Tbl = some ⟨d, tbl⟩)
    (hio : env.io w.calls = false) (ruleHdl : ℕ) :
    ((ipaNATIDelIpv4Rule env w tblHdl ruleHdl).2.natCache nmi).ip4Tbl =
      some ⟨d, (prepareDel tbl ruleHdl).1⟩ := by
  rw [← hh.ip4TblAt] at ht
  simp only [ipaNATIDelIpv4Rule, hh.breaks, ht]
  rcases hp : prepareDel tbl ruleHdl with ⟨T, e | p⟩
  · exact Drv.setIp4Tbl_ip4Tbl ..
  · simp only [ipaNatiPostIpv4DmaCmd, sysCall, hio]
    exact Drv.setIp4Tbl_ip4Tbl ..

/-- A handle under which a table is found. -/
theorem isTblHdl_of_ip4TblAt {w : Drv} {tblHdl : ℕ} {tbl : Ip4Tbl d}
    (h : ip4TblAt w tblHdl = some ⟨d, tbl⟩) : IsTblHdl tblHdl (breakTblHdl tblHdl).1 := by
  unfold ip4TblAt at h
  split at h
  · next h1 => exact ⟨Prod.ext rfl h1, decide_eq_true h1⟩
  · cases h

/-- **A delete whose post fails leaves every table as it was exactly when it has no rule
    to point at another index entry.** -/
theorem failed_post_keeps_iff {env : Env} {w : Drv} {tblHdl : ℕ} {tbl : Ip4Tbl d}
    (ht : ip4TblAt w tblHdl = some ⟨d, tbl⟩) (hio : env.io w.calls = false) (ruleHdl : ℕ) :
    ip4TblAt (ipaNATIDelIpv4Rule env w tblHdl ruleHdl).2 tblHdl = ip4TblAt w tblHdl ↔
      repoints tbl ruleHdl = false := by
  have hh := isTblHdl_of_ip4TblAt ht
  rw [ht, hh.ip4TblAt, ipaNATIDelIpv4Rule_unposted hh (hh.ip4TblAt w ▸ ht) hio,
    ← prepareDel_keeps_iff]
  simp only [Option.some.injEq, Sigma.mk.injEq, heq_eq_eq, true_and]

/-- An environment in which no system call succeeds. -/
def failingEnv : Env := { calmEnv 0 with io := fun _ => false }

/-- Reading a table that is there. -/
theorem exists_of_any {w : Drv} {tblHdl : ℕ} {p : (Σ d : Dims, Ip4Tbl d) → Bool}
    (h : (ip4TblAt w tblHdl).any p = true) :
    ∃ (d : Dims) (tbl : Ip4Tbl d), ip4TblAt w tblHdl = some ⟨d, tbl⟩ ∧ p ⟨d, tbl⟩ = true := by
  obtain ⟨⟨d, tbl⟩, hs, hp⟩ := (Option.any_eq_true ..).1 h
  exact ⟨d, tbl, hs, hp⟩

/-- What calls on the two rules of a bucket answer, when nothing can be posted. -/
theorem failing_answers :
    (ip4TblAt twoRules 1).any (fun s => ! repoints s.2 1) = true ∧
    (ipaNATIDelIpv4Rule failingEnv twoRules 1 14).1 = -eio ∧
    ((ip4TblAt (ipaNATIDelIpv4Rule failingEnv twoRules 1 14).2 1).map fun s =>
        (s.2.natRec 8).indxTblEntry) ≠
      (ip4TblAt twoRules 1).map (fun s => (s.2.natRec 8).indxTblEntry) ∧
    (ipaNATIAddIpv4Rule failingEnv twoRules 1 (portRule 96)).1 ≠ 0 := by
  decide +kernel

/-- The second rule of a bucket has an index entry of its own to take away. -/
theorem failed_post_keeps_second :
    ip4TblAt (ipaNATIDelIpv4Rule failingEnv twoRules 1 1).2 1 = ip4TblAt twoRules 1 := by
  obtain ⟨d, tbl, ht, hrep⟩ := exists_of_any failing_answers.1
  exact (failed_post_keeps_iff ht rfl 1).2 (by simpa using hrep)

/-- The first rule of the bucket has the entry of the second moved into its own: the
    second rule is changed though nothing was posted. -/
theorem failed_post_repoints : (ipaNATIDelIpv4Rule failingEnv twoRules 1 14).1 = -eio ∧
    ip4TblAt (ipaNATIDelIpv4Rule failingEnv twoRules 1 14).2 1 ≠ ip4TblAt twoRules 1 := by
  obtain ⟨-, hret, hread, -⟩ := failing_answers
  refine ⟨hret, fun heq => hread ?_⟩
  exact congrArg (Option.map fun s : Σ d : Dims, Ip4Tbl d => (s.2.natRec 8).indxTblEntry) heq

/-! ## What a call leaves, whatever it answers -/

section Calls
variable {w : Drv} {tblHdl : ℕ} {nmi : MemIn} {tbl : Ip4Tbl d} {g : PairGhost}
  (hh : IsTblHdl tblHdl nmi) (ht : (w.natCache nmi).ip4Tbl = some ⟨d, tbl⟩)
  (hinv : LooseInv tbl g)

include hh ht hinv

/-- **A failed add restores both tables; the invariant stays in any case.** -/
theorem LooseInv.addCall {env : Env} {clnt : Ipv4Rule} {ret : ℤ} {out : Option ℕ} {w' : Drv}
    (h : ipaNATIAddIpv4Rule env w tblHdl clnt = (ret, out, w')) :
    ∃ tbl' g', (w'.natCache nmi).ip4Tbl = some ⟨d, tbl'⟩ ∧ LooseInv tbl' g' ∧
      (ret ≠ 0 → tbl.Restored tbl') := by
  obtain ⟨-, tbl', ht', ⟨-, -, htables, hres, -⟩ | ⟨hret, hv, p, -, hdone⟩⟩ :=
    ipaNATIAddIpv4Rule_cases hh ht hinv.tables h
  · exact ⟨tbl', g, ht', hinv.restored htables hres, fun _ => hres⟩
  · obtain ⟨g', hinv'⟩ := hinv.add (clntRuleValid_iff.1 hv).1 hdone
    exact ⟨tbl', g', ht', hinv', fun hne => absurd hret hne⟩

/-- A handle whose slot, or whose index slot, is free is refused. -/
theorem LooseInv.delRefused (env : Env) {hdl : ℕ}
    (hfree : ∀ i, ipaTableGetEntry d hdl = .ok i → tbl.natLinks.occ i →
      ¬ tbl.indxLinks.occ (tbl.natRec i).indxTblEntry) :
    (ipaNATIDelIpv4Rule env w tblHdl hdl).1 ≠ 0 ∧
      ((ipaNATIDelIpv4Rule env w tblHdl hdl).2.natCache nmi).ip4Tbl = some ⟨d, tbl⟩ := by
  have hprep : ∃ ret, ret ≠ 0 ∧ prepareDel tbl hdl = (tbl, .error ret) := by
    unfold prepareDel
    cases hget : ipaTableGetEntry d hdl with
    | error e =>
      refine ⟨e, ?_, rfl⟩
      unfold ipaTableGetEntry at hget
      dsimp only at hget
      split at hget
      · cases hget
        decide
      · cases hget
    | ok i =>
      by_cases hi : tbl.natLinks.occ i
      · have hj := hfree i hget hi
        have hinit := ipaTableIteratorInit_ok hinv.tables.nat hi
        simp only [hinit]
        cases hind : ipaTableGetEntryByIndex d (tbl.natRec i).indxTblEntry with
        | none => exact ⟨-eperm, by decide, rfl⟩
        | some j =>
          obtain rfl : (tbl.natRec i).indxTblEntry = j := by
            unfold ipaTableGetEntryByIndex at hind
            split at hind
            · cases hind
            · exact Option.some.inj hind
          have hjt : ipaTableIteratorInit indexEntryInterface tbl.indexTable
              (tbl.natRec i).indxTblEntry = .error (-einval) := by
            unfold ipaTableIteratorInit
            exact if_pos (by simpa [Table.links] using hj)
          refine ⟨-einval, by decide, ?_⟩
          simp only [hjt]
      · have hinit : ipaTableIteratorInit entryInterface tbl.table i = .error (-einval) := by
          unfold ipaTableIteratorInit
          exact if_pos (by simpa [Table.links] using hi)
        simp only [hinit]
        exact ⟨-einval, by decide, rfl⟩
  obtain ⟨ret, hne, hprep⟩ := hprep
  rw [← hh.ip4TblAt] at ht
  simp only [ipaNATIDelIpv4Rule, hh.breaks, ht, hprep]
  exact ⟨hne, Drv.setIp4Tbl_ip4Tbl ..⟩

/-- Any other handle is deleted as soon as its command is posted. -/
theorem LooseInv.delPosted (env : Env) {hdl i : ℕ} (hget : ipaTableGetEntry d hdl = .ok i)
    (hi : tbl.natLinks.occ i) (hj : tbl.indxLinks.occ (tbl.natRec i).indxTblEntry) :
    if env.io w.calls then
      (ipaNATIDelIpv4Rule env w tblHdl hdl).1 = 0 ∧
        ((ipaNATIDelIpv4Rule env w tblHdl hdl).2.natCache nmi).ip4Tbl = some ⟨d, tbl.delete i⟩
    else
      (ipaNATIDelIpv4Rule env w tblHdl hdl).1 ≠ 0 ∧
        ((ipaNATIDelIpv4Rule env w tblHdl hdl).2.natCache nmi).ip4Tbl =
          some ⟨d, { tbl with table := natRepaired tbl (tbl.natRec i).indxTblEntry }⟩ := by
  obtain ⟨p, hp, hdone⟩ := prepareDel_ok hinv.tables hget hi hj
  rw [← hh.ip4TblAt] at ht
  simp only [ipaNATIDelIpv4Rule, hh.breaks, ht, hp, ipaNatiPostIpv4DmaCmd, sysCall]
  cases hio : env.io w.calls
  · simp only [eio, Int.reduceNeg, Bool.false_eq_true, if_false]
    exact ⟨by decide, Drv.setIp4Tbl_ip4Tbl ..⟩
  · simp only [hdone, if_true]
    exact ⟨trivial, Drv.setIp4Tbl_ip4Tbl ..⟩

end Calls

/-! ## Runs -/

/-- One call, whatever it answers and however its system calls end; `other` is any call
    that leaves this table alone. -/
inductive AnyStep (tblHdl : ℕ) : Drv → Drv → Prop
  | add {w : Drv} (env : Env) (clnt : Ipv4Rule) :
      AnyStep tblHdl w (ipaNATIAddIpv4Rule env w tblHdl clnt).2.2
  | del {w : Drv} (env : Env) (ruleHdl : ℕ) :
      AnyStep tblHdl w (ipaNATIDelIpv4Rule env w tblHdl ruleHdl).2
  | clear {w : Drv} : AnyStep tblHdl w (ipaNATIClearIpv4Tbl w tblHdl).2
  | other {w w' : Drv} (kept : ip4TblAt w' tblHdl = ip4TblAt w tblHdl) : AnyStep tblHdl w w'

/-- The state of such a run. -/
def LooseState (d : Dims) (nmi : MemIn) (w : Drv) : Prop :=
  ∃ (tbl : Ip4Tbl d) (g : PairGhost), (w.natCache nmi).ip4Tbl = some ⟨d, tbl⟩ ∧ LooseInv tbl g

/-- **Every call keeps the invariant.** -/
theorem AnyStep.inv {tblHdl : ℕ} {nmi : MemIn} (hh : IsTblHdl tblHdl nmi) {w w' : Drv}
    (h : AnyStep tblHdl w w') (hinv : LooseState d nmi w) : LooseState d nmi w' := by
  obtain ⟨tbl, g, ht, hl⟩ := hinv
  cases h with
  | add env clnt =>
    rcases hcall : ipaNATIAddIpv4Rule env w tblHdl clnt with ⟨ret, out, w'⟩
    obtain ⟨tbl', g', ht', hl', -⟩ := hl.addCall hh ht hcall
    exact ⟨tbl', g', ht', hl'⟩
  | del env ruleHdl =>
    by_cases hfree : ∀ i, ipaTableGetEntry d ruleHdl = .ok i → tbl.natLinks.occ i →
        ¬ tbl.indxLinks.occ (tbl.natRec i).indxTblEntry
    · exact ⟨tbl, g, (hl.delRefused hh ht env hfree).2, hl⟩
    · push Not at hfree
      obtain ⟨i, hget, hi, hj⟩ := hfree
      have hdel := hl.delPosted hh ht env hget hi hj
      split at hdel
      · exact ⟨_, g, hdel.2, hl.del hi hj⟩
      · exact ⟨_, g, hdel.2, hl.repaired hj⟩
  | clear =>
    rcases h : ipaNATIClearIpv4Tbl w tblHdl with ⟨ret, w'⟩
    rcases ipaNATIClearIpv4Tbl_spec hh ht h with ⟨-, -, rfl⟩ | ⟨-, -, rfl⟩
    · exact ⟨tbl, g, ht, hl⟩
    · exact ⟨clearIp4Tbl tbl, g, Drv.setIp4Tbl_ip4Tbl .., (hl.tables.clear g).1.loose⟩
  | other kept =>
    rw [hh.ip4TblAt, hh.ip4TblAt] at kept
    exact ⟨tbl, g, kept.trans ht, hl⟩

theorem LooseState.run {tblHdl : ℕ} {nmi : MemIn} (hh : IsTblHdl tblHdl nmi) {w w' : Drv}
    (hinv : LooseState d nmi w) (h : Relation.ReflTransGen (AnyStep tblHdl) w w') :
    LooseState d nmi w' := by
  induction h with
  | refl => exact hinv
  | tail _ step ih => exact step.inv hh ih

/-- A state that is reached from a new table by calls on it. -/
def TableRun (tblHdl : ℕ) (nmi : MemIn) (w : Drv) : Prop :=
  ∃ (env : Env) (w₀ w₁ : Drv) (publicIpAddr : UInt32) (n : ℕ),
    ipaNATIAddIpv4Tbl env w₀ nmi publicIpAddr n = (0, tblHdl, w₁) ∧
      Relation.ReflTransGen (AnyStep tblHdl) w₁ w

theorem TableRun.loose {tblHdl : ℕ} {nmi : MemIn} {w : Drv} (h : TableRun tblHdl nmi w) :
    IsTblHdl tblHdl nmi ∧ ∃ d, LooseState d nmi w := by
  obtain ⟨env, w₀, w₁, publicIpAddr, n, create, run⟩ := h
  obtain ⟨rfl, d, -, hc, -⟩ := ipaNATIAddIpv4Tbl_spec create
  have hh := isTblHdl_make nmi
  have hfresh : LooseState d nmi w₁ := ⟨_, ⟨id, id, id, id⟩, by rw [hc], (PairInv.fresh ..).1.loose⟩
  exact ⟨hh, d, hfresh.run hh run⟩

/-- **An add that fails leaves every slot, every link and every counter of both tables as
    they were**, in every run of calls. -/
theorem failed_add_restores {tblHdl : ℕ} {nmi : MemIn} {w w' : Drv} (run : TableRun tblHdl nmi w)
    (env : Env) (clnt : Ipv4Rule) {ret : ℤ} {out : Option ℕ}
    (call : ipaNATIAddIpv4Rule env w tblHdl clnt = (ret, out, w')) (failed : ret ≠ 0) :
    ∃ (d : Dims) (tbl tbl' : Ip4Tbl d), ip4TblAt w tblHdl = some ⟨d, tbl⟩ ∧
      ip4TblAt w' tblHdl = some ⟨d, tbl'⟩ ∧ tbl.Restored tbl' := by
  obtain ⟨hh, d, tbl, g, ht, hl⟩ := run.loose
  obtain ⟨tbl', g', ht', -, hres⟩ := hl.addCall hh ht call
  exact ⟨d, tbl, tbl', by rw [hh.ip4TblAt, ht], by rw [hh.ip4TblAt, ht'], hres failed⟩

theorem twoRules_tableRun : TableRun 1 .ddr twoRules :=
  ⟨calmEnv 0, bootDrv, tenSlots, 0x0A000001, 10, tenSlots_create,
    .tail (.single (.add (calmEnv 0) (portRule 80))) (.add (calmEnv 0) (portRule 88))⟩

/-- An add to a bucket that is taken, when nothing can be posted. -/
theorem failed_add_restores_twoRules : ∃ (d : Dims) (tbl tbl' : Ip4Tbl d),
    ip4TblAt twoRules 1 = some ⟨d, tbl⟩ ∧
      ip4TblAt (ipaNATIAddIpv4Rule failingEnv twoRules 1 (portRule 96)).2.2 1 = some ⟨d, tbl'⟩ ∧
      tbl.Restored tbl' :=
  failed_add_restores twoRules_tableRun failingEnv (portRule 96) rfl failing_answers.2.2.2

/-- **A delete fails and changes nothing** exactly when the slot of its handle is free,
    the index slot that the record there names is free, or the post fails and no rule
    had to be pointed elsewhere; so also for a rule that is gone, whose record may have
    stayed as a dead head. -/
theorem deleted_again_iff {tblHdl : ℕ} {nmi : MemIn} {w : Drv} (run : TableRun tblHdl nmi w)
    {tbl : Ip4Tbl d} (ht : ip4TblAt w tblHdl = some ⟨d, tbl⟩) {ruleHdl i : ℕ}
    (names : ipaTableGetEntry d ruleHdl = .ok i) (env : Env) :
    ((ipaNATIDelIpv4Rule env w tblHdl ruleHdl).1 ≠ 0 ∧
        ip4TblAt (ipaNATIDelIpv4Rule env w tblHdl ruleHdl).2 tblHdl = ip4TblAt w tblHdl) ↔
      ¬ tbl.natLinks.occ i ∨ ¬ tbl.indxLinks.occ (tbl.natRec i).indxTblEntry ∨
        env.io w.calls = false ∧ repoints tbl ruleHdl = false := by
  obtain ⟨hh, d', tbl', g, ht', hl⟩ := run.loose
  have hsome := ht
  rw [hh.ip4TblAt, ht'] at hsome
  cases hsome
  by_cases hfree : tbl.natLinks.occ i ∧ tbl.indxLinks.occ (tbl.natRec i).indxTblEntry
  · obtain ⟨hi, hj⟩ := hfree
    have hpost := hl.delPosted hh ht' env names hi hj
    cases hio : env.io w.calls
    · rw [hio] at hpost
      rw [failed_post_keeps_iff ht hio]
      constructor
      · rintro ⟨-, hrep⟩
        exact Or.inr (Or.inr ⟨rfl, hrep⟩)
      · rintro (hc | hc | ⟨-, hrep⟩)
        · exact absurd hi hc
        · exact absurd hj hc
        · exact ⟨hpost.1, hrep⟩
    · rw [hio] at hpost
      constructor
      · rintro ⟨hne, -⟩
        exact absurd hpost.1 hne
      · rintro (hc | hc | ⟨hc, -⟩)
        · exact absurd hi hc
        · exact absurd hj hc
        · cases hc
  · have hrefused := hl.delRefused hh ht' env
      fun k (hk : ipaTableGetEntry d ruleHdl = _) hi hj => by
        rw [names] at hk
        cases hk
        exact hfree ⟨hi, hj⟩
    rw [ht, hh.ip4TblAt]
    constructor
    · intro _
      by_cases hi : tbl.natLinks.occ i
      · exact Or.inr (Or.inl fun hj => hfree ⟨hi, hj⟩)
      · exact Or.inl hi
    · intro _
      exact hrefused

/-- The state after a delete that answers 0. -/
def deleted (w : Drv) (ruleHdl : ℕ) : Drv := (ipaNATIDelIpv4Rule (calmEnv 0) w 1 ruleHdl).2

theorem deleted_tableRun (ruleHdl : ℕ) : TableRun 1 .ddr (deleted twoRules ruleHdl) := by
  obtain ⟨env, w₀, w₁, publicIpAddr, n, create, run⟩ := twoRules_tableRun
  exact ⟨env, w₀, w₁, publicIpAddr, n, create, run.tail (.del (calmEnv 0) ruleHdl)⟩

/-- What further deletes answer. -/
theorem deleted_answers :
    (ip4TblAt (deleted twoRules 1) 1).any (fun s =>
      decide (ipaTableGetEntry s.1 1 = .ok 8) && ! (s.2.natRec 8).enable) = true ∧
    (ipaNATIDelIpv4Rule (calmEnv 0) twoRules 1 14).1 = 0 ∧
    liveHandle (deleted twoRules 14) 1 14 = false ∧
    (ipaNATIDelIpv4Rule (calmEnv 0) (deleted twoRules 14) 1 14).1 = 0 ∧
    (ip4TblAt (deleted twoRules 14) 1).map (fun s => s.2.indexTable.curTblCnt) = some 1 ∧
    (ip4TblAt (deleted (deleted twoRules 14) 14) 1).map
      (fun s => s.2.indexTable.curTblCnt) = some 0 := by
  decide +kernel

/-- The second rule's slot is free once it is deleted. -/
theorem deleted_again_second :
    (ipaNATIDelIpv4Rule (calmEnv 0) (deleted twoRules 1) 1 1).1 ≠ 0 ∧
      ip4TblAt (ipaNATIDelIpv4Rule (calmEnv 0) (deleted twoRules 1) 1 1).2 1 =
        ip4TblAt (deleted twoRules 1) 1 := by
  obtain ⟨d, tbl, ht, hp⟩ := exists_of_any deleted_answers.1
  obtain ⟨hget, hfree⟩ := Bool.and_eq_true_iff.1 hp
  refine (deleted_again_iff (deleted_tableRun 1) ht (of_decide_eq_true hget) (calmEnv 0)).2
    (Or.inl fun hocc => ?_)
  have henable : (tbl.natRec 8).enable = true := hocc
  simp [henable] at hfree

/-- The first rule stays as a dead head, and names the index slot that the second rule's
    entry was moved into: its delete takes that entry away and answers 0 again. -/
theorem deleted_again_succeeds :
    TableRun 1 .ddr (deleted twoRules 14) ∧
      (ipaNATIDelIpv4Rule (calmEnv 0) twoRules 1 14).1 = 0 ∧
      liveHandle (deleted twoRules 14) 1 14 = false ∧
      (ipaNATIDelIpv4Rule (calmEnv 0) (deleted twoRules 14) 1 14).1 = 0 ∧
      (ip4TblAt (deleted twoRules 14) 1).map (fun s => s.2.indexTable.curTblCnt) = some 1 ∧
      (ip4TblAt (deleted (deleted twoRules 14) 14) 1).map
        (fun s => s.2.indexTable.curTblCnt) = some 0 :=
  ⟨deleted_tableRun 14, deleted_answers.2⟩

end Sm8850.Ipanat
