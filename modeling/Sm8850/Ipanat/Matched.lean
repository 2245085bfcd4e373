/-
  The handles of the application, against the maps and the table of a memory.

  * `liveHandles`: the handles of the live rules of a table.
  * `Matched`: the two maps of a memory are inverse to each other, from the handles that
    the application holds to those of the live rules.
  * `Matched.enter`, `Matched.drop`: a rule added under a handle that is not held, and one
    taken away.
  * `copy_matched`: a copy that passes hands every held handle on.
-/
import Sm8850.Ipanat.CopiedRules

namespace Sm8850.Ipanat

variable {d : Dims}

/-- The handles of the live rules of a table, if it is there. -/
def liveHandles : Option (Σ d : Dims, Ip4Tbl d) → Set ℕ
  | none => ∅
  | some ⟨_, tbl⟩ => {new | ∃ i, (tbl.natRec i).live ∧ new = makeEntryHdl tbl.table i}

/-- **The maps of a memory lead from the held handles to the live rules and back.** -/
structure Matched (t : Option (Σ d : Dims, Ip4Tbl d)) (p : NatiMapPair) (held : Set ℕ) :
    Prop where
  inverse : ∀ orig new, p.orig2new orig = some new ↔ p.new2orig new = some orig
  held : ∀ orig, (p.orig2new orig).isSome ↔ orig ∈ held
  live : ∀ new, (p.new2orig new).isSome ↔ new ∈ liveHandles t

theorem Ip4Tbl.lt_of_live {tbl : Ip4Tbl d} {i : ℕ} (h : (tbl.natRec i).live) : i < d.totTblEnts :=
  tbl.table.lt_of_occ (Ip4Tbl.occ_of_live h)

theorem mem_liveHandles {tbl : Ip4Tbl d} {i : ℕ} (hi : i < d.totTblEnts) :
    makeEntryHdl tbl.table i ∈ liveHandles (some ⟨d, tbl⟩) ↔ (tbl.natRec i).live = true := by
  constructor
  · rintro ⟨j, hl, heq⟩
    rwa [makeEntryHdl_inj tbl.table hi (Ip4Tbl.lt_of_live hl) heq]
  · exact fun hl => ⟨i, hl, rfl⟩

section
variable {tbl tbl' : Ip4Tbl d} {p : NatiMapPair} {held : Set ℕ} {i : ℕ}

theorem Ip4Tbl.SameSlots.liveHandles (h : tbl.SameSlots tbl') :
    liveHandles (some ⟨d, tbl'⟩) = liveHandles (some ⟨d, tbl⟩) := by
  ext new
  simp only [Ipanat.liveHandles, h.live, makeEntryHdl_congr h.nmi]

theorem Ip4Tbl.SlotTaken.liveHandles (h : tbl.SlotTaken tbl' i) :
    liveHandles (some ⟨d, tbl'⟩) =
      insert (makeEntryHdl tbl.table i) (liveHandles (some ⟨d, tbl⟩)) := by
  ext new
  simp only [Ipanat.liveHandles, makeEntryHdl_congr h.nmi, Set.mem_insert_iff, Set.mem_ofPred_eq]
  constructor
  · rintro ⟨k, hl, rfl⟩
    by_cases hk : k = i
    · exact Or.inl (by rw [hk])
    · exact Or.inr ⟨k, h.keep k hk ▸ hl, rfl⟩
  · rintro (rfl | ⟨k, hl, rfl⟩)
    · exact ⟨i, h.taken, rfl⟩
    · have hk : k ≠ i := fun e => h.free (e ▸ hl)
      exact ⟨k, (h.keep k hk).symm ▸ hl, rfl⟩

theorem Ip4Tbl.SlotFreed.liveHandles (h : tbl.SlotFreed tbl' i) (hi : i < d.totTblEnts) :
    liveHandles (some ⟨d, tbl'⟩) =
      liveHandles (some ⟨d, tbl⟩) \ {makeEntryHdl tbl.table i} := by
  ext new
  simp only [Ipanat.liveHandles, makeEntryHdl_congr h.nmi, Set.mem_sdiff, Set.mem_ofPred_eq,
    Set.mem_singleton_iff]
  constructor
  · rintro ⟨k, hl, rfl⟩
    have hk : k ≠ i := fun e => h.gone (e ▸ hl)
    have hl' : (tbl.natRec k).live = true := h.keep k hk ▸ hl
    exact ⟨⟨k, hl', rfl⟩, fun e => hk (makeEntryHdl_inj _ (Ip4Tbl.lt_of_live hl') hi e)⟩
  · rintro ⟨⟨k, hl, rfl⟩, hne⟩
    have hk : k ≠ i := fun e => hne (by rw [e])
    exact ⟨k, (h.keep k hk).symm ▸ hl, rfl⟩

theorem Matched.empty {t : Option (Σ d : Dims, Ip4Tbl d)} (h : liveHandles t = ∅) :
    Matched t .empty ∅ := by
  refine ⟨fun orig new => ?_, fun orig => ?_, fun new => ?_⟩
  · exact iff_of_false (Option.some_ne_none new).symm (Option.some_ne_none orig).symm
  · exact iff_of_false Bool.false_ne_true (Set.notMem_empty orig)
  · rw [h]
    exact iff_of_false Bool.false_ne_true (Set.notMem_empty new)

theorem Matched.congr {t t' : Option (Σ d : Dims, Ip4Tbl d)} (h : Matched t p held)
    (ht : liveHandles t' = liveHandles t) : Matched t' p held :=
  ⟨h.inverse, h.held, fun new => ht ▸ h.live new⟩

/-- A handle that is not held leads nowhere. -/
theorem Matched.orig2new_none {t : Option (Σ d : Dims, Ip4Tbl d)} (h : Matched t p held)
    {orig : ℕ} (ho : orig ∉ held) : p.orig2new orig = none :=
  Option.not_isSome_iff_eq_none.1 fun hs => ho ((h.held orig).1 hs)

/-- The handle of a slot without a rule leads nowhere. -/
theorem Matched.new2orig_none (h : Matched (some ⟨d, tbl⟩) p held) (hi : i < d.totTblEnts)
    (hf : ¬ (tbl.natRec i).live) : p.new2orig (makeEntryHdl tbl.table i) = none :=
  Option.not_isSome_iff_eq_none.1 fun hs => hf ((mem_liveHandles hi).1 ((h.live _).1 hs))

/-- **A slot taken by a rule whose handle was not held.** -/
theorem Matched.enter (h : Matched (some ⟨d, tbl⟩) p held) (hs : tbl.SlotTaken tbl' i) {orig : ℕ}
    (ho : orig ∉ held) :
    p.add orig (makeEntryHdl tbl.table i) = (0, p.enter orig (makeEntryHdl tbl.table i)) ∧
      Matched (some ⟨d, tbl'⟩) (p.enter orig (makeEntryHdl tbl.table i)) (insert orig held) := by
  have hon := h.orig2new_none ho
  have hno := h.new2orig_none hs.lt hs.free
  generalize hnew : makeEntryHdl tbl.table i = new at hno
  refine ⟨?_, fun o n => ?_, fun o => ?_, fun n => ?_⟩
  · simp only [NatiMapPair.add, ipaNatMapAdd, hon, hno, NatiMapPair.enter]
  · rw [NatiMapPair.enter_orig2new, NatiMapPair.enter_new2orig]
    by_cases hoe : o = orig <;> by_cases hne : n = new
    · simp only [hoe, hne, if_true]
    · rw [if_pos hoe, if_neg hne]
      refine iff_of_false (fun e => hne (Option.some.inj e).symm) fun e => ?_
      rw [hoe, ← h.inverse, hon] at e
      cases e
    · rw [if_neg hoe, if_pos hne]
      refine iff_of_false (fun e => ?_) fun e => hoe (Option.some.inj e).symm
      rw [hne, h.inverse, hno] at e
      cases e
    · rw [if_neg hoe, if_neg hne]
      exact h.inverse o n
  · rw [NatiMapPair.enter_orig2new, Set.mem_insert_iff]
    split_ifs with hoe
    · exact iff_of_true rfl (Or.inl hoe)
    · exact (h.held o).trans (or_iff_right hoe).symm
  · rw [NatiMapPair.enter_new2orig, hs.liveHandles, hnew, Set.mem_insert_iff]
    split_ifs with hne
    · exact iff_of_true rfl (Or.inl hne)
    · exact (h.live n).trans (or_iff_right hne).symm

/-- **A slot freed whose rule the maps have dropped.** -/
theorem Matched.drop (h : Matched (some ⟨d, tbl⟩) p held) (hi : i < d.totTblEnts) {orig : ℕ}
    (ho : p.orig2new orig = some (makeEntryHdl tbl.table i)) (hs : tbl.SlotFreed tbl' i) :
    Matched (some ⟨d, tbl'⟩) (p.drop orig (makeEntryHdl tbl.table i)) (held \ {orig}) := by
  have hlive := hs.liveHandles hi
  generalize makeEntryHdl tbl.table i = new at ho hlive
  have hn := (h.inverse orig new).1 ho
  refine ⟨fun o n => ?_, fun o => ?_, fun n => ?_⟩
  · rw [NatiMapPair.drop_orig2new, NatiMapPair.drop_new2orig]
    by_cases hoe : o = orig <;> by_cases hne : n = new
    · simp only [hoe, hne, if_true, reduceCtorEq]
    · rw [if_pos hoe, if_neg hne, hoe, ← h.inverse, ho]
      exact iff_of_false (Option.some_ne_none n).symm fun e => hne (Option.some.inj e).symm
    · rw [if_neg hoe, if_pos hne, hne, h.inverse, hn]
      exact iff_of_false (fun e => hoe (Option.some.inj e).symm)
        (Option.some_ne_none o).symm
    · rw [if_neg hoe, if_neg hne]
      exact h.inverse o n
  · rw [NatiMapPair.drop_orig2new, Set.mem_sdiff, Set.mem_singleton_iff]
    split_ifs with hoe
    · exact iff_of_false Bool.false_ne_true fun hm => hm.2 hoe
    · exact (h.held o).trans (and_iff_left hoe).symm
  · rw [NatiMapPair.drop_new2orig, hlive, Set.mem_sdiff, Set.mem_singleton_iff]
    split_ifs with hne
    · exact iff_of_false Bool.false_ne_true fun hm => hm.2 hne
    · exact (h.live n).trans (and_iff_left hne).symm

end

/-! ## The copy -/

/-- The original handles of the live rules in the slots before `n`. -/
def Ip4Tbl.origsBefore (tbl : Ip4Tbl d) (p : NatiMapPair) (n : ℕ) : Set ℕ :=
  {orig | ∃ j, j < n ∧ (tbl.natRec j).live ∧
    p.new2orig (makeEntryHdl tbl.table j) = some orig}

section Origs
variable {tbl : Ip4Tbl d} {p : NatiMapPair} {held : Set ℕ} {n : ℕ}

theorem Ip4Tbl.origsBefore_zero : tbl.origsBefore p 0 = ∅ :=
  Set.eq_empty_of_forall_notMem fun _ ⟨j, hj, _⟩ => Nat.not_lt_zero j hj

theorem Ip4Tbl.origsBefore_skip (hn : ¬ (tbl.natRec n).live) :
    tbl.origsBefore p (n + 1) = tbl.origsBefore p n := by
  ext orig
  constructor
  · rintro ⟨j, hj, hl, ho⟩
    have hne : j ≠ n := fun e => hn (e ▸ hl)
    exact ⟨j, by omega, hl, ho⟩
  · rintro ⟨j, hj, hl, ho⟩
    exact ⟨j, by omega, hl, ho⟩

theorem Ip4Tbl.origsBefore_succ (hl : (tbl.natRec n).live) {orig : ℕ}
    (ho : p.new2orig (makeEntryHdl tbl.table n) = some orig) :
    tbl.origsBefore p (n + 1) = insert orig (tbl.origsBefore p n) := by
  ext o
  rw [Set.mem_insert_iff]
  constructor
  · rintro ⟨j, hj, hlj, hoj⟩
    rcases Nat.lt_succ_iff_lt_or_eq.1 hj with hj | rfl
    · exact Or.inr ⟨j, hj, hlj, hoj⟩
    · exact Or.inl (Option.some.inj (hoj.symm.trans ho))
  · rintro (rfl | ⟨j, hj, hlj, hoj⟩)
    · exact ⟨n, Nat.lt_succ_self n, hl, ho⟩
    · exact ⟨j, Nat.lt_succ_of_lt hj, hlj, hoj⟩

/-- No two rules have one original handle. -/
theorem Matched.notMem_origsBefore (h : Matched (some ⟨d, tbl⟩) p held)
    (hl : (tbl.natRec n).live) {orig : ℕ}
    (ho : p.new2orig (makeEntryHdl tbl.table n) = some orig) : orig ∉ tbl.origsBefore p n := by
  rintro ⟨j, hj, hlj, hoj⟩
  rw [← h.inverse] at ho hoj
  have heq := makeEntryHdl_inj tbl.table (Ip4Tbl.lt_of_live hlj) (Ip4Tbl.lt_of_live hl)
    (Option.some.inj (hoj.symm.trans ho))
  omega

/-- The original handles of all rules are the held ones. -/
theorem Matched.origsBefore_all (h : Matched (some ⟨d, tbl⟩) p held) :
    tbl.origsBefore p d.totTblEnts = held := by
  ext orig
  rw [← h.held, Option.isSome_iff_exists]
  constructor
  · rintro ⟨j, -, -, ho⟩
    exact ⟨_, (h.inverse ..).2 ho⟩
  · rintro ⟨new, ho⟩
    have hn := (h.inverse ..).1 ho
    obtain ⟨j, hl, rfl⟩ := (h.live new).1 (Option.isSome_iff_exists.2 ⟨orig, hn⟩)
    exact ⟨j, Ip4Tbl.lt_of_live hl, hl, hn⟩

end Origs

variable {env : Env} {s s' : NatiLib}

/-- The destination after the slots before `n`: its maps hold their original handles. -/
def HandedOn (tblS : Ip4Tbl d) (pS : NatiMapPair) (dst : MemIn) (n : ℕ) (s : NatiLib) : Prop :=
  s.nati.mapPairs tblS.table.nmi = pS ∧ ∃ (dD : Dims) (tbl : Ip4Tbl dD) (g : PairGhost),
    (s.drv.natCache dst).ip4Tbl = some ⟨dD, tbl⟩ ∧ LooseInv tbl g ∧
      Matched (some ⟨dD, tbl⟩) (s.nati.mapPairs dst) (tblS.origsBefore pS n)

/-- One filled slot of the walk. -/
theorem HandedOn.step {tblS : Ip4Tbl d} {pS : NatiMapPair} {held : Set ℕ} {dst : MemIn}
    (hS : Matched (some ⟨d, tblS⟩) pS held) (hdst : dst ≠ tblS.table.nmi) {hdl : ℕ}
    (hh : IsTblHdl hdl dst) {n : ℕ} (h : HandedOn tblS pS dst n s)
    (hv : entryInterface.entryIsValid (tblS.natRec n))
    (hcb : migrateRule env tblS.table hdl (walkArgs entryInterface tblS.table n) s = (0, s')) :
    HandedOn tblS pS dst (n + 1) s' := by
  by_cases hproto : (tblS.natRec n).protocol = ipahalNatInvalidProtocol
  · have hdead : ¬ (tblS.natRec n).live = true := fun hl => (NatRule.live_iff.1 hl).2 hproto
    obtain rfl := migrateRule_dead hproto hcb
    unfold HandedOn
    rwa [Ip4Tbl.origsBefore_skip hdead]
  · have hl : (tblS.natRec n).live = true := NatRule.live_iff.2 ⟨hv, hproto⟩
    obtain ⟨hpS, dD, tbl, g, ht, hinv, hm⟩ := h
    obtain ⟨orig, out, maps, hfind, hadd, hmaps, hnati⟩ := migrateRule_ok hdst
      (a := walkArgs entryInterface tblS.table n) hproto hcb
    rw [hpS] at hfind
    obtain ⟨-, tbl', g', ht', hinv', -, ⟨hne, -⟩ | ⟨-, i, rfl, hslot⟩⟩ :=
      hinv.addSlots hh ht hadd
    · exact absurd rfl hne
    · obtain ⟨henter, hm'⟩ := hm.enter hslot (hS.notMem_origsBefore hl hfind)
      rw [Option.getD_some] at hmaps
      obtain rfl : _ = maps := (Prod.mk.inj (henter.symm.trans hmaps)).2
      have hdstMaps : s'.nati.mapPairs dst = _ :=
        (congrArg (fun o => NatiObj.mapPairs o dst) hnati).trans (Function.update_self ..)
      have hsrcMaps : s'.nati.mapPairs tblS.table.nmi = s.nati.mapPairs tblS.table.nmi :=
        (congrArg (fun o => NatiObj.mapPairs o tblS.table.nmi) hnati).trans
          (Function.update_of_ne hdst.symm ..)
      refine ⟨hsrcMaps.trans hpS, dD, tbl', g', ht', hinv', ?_⟩
      rw [hdstMaps, Ip4Tbl.origsBefore_succ hl hfind]
      exact hm'

/-- A copy that passes has found both tables. -/
theorem copy_present (h : NatiTbls env s) {src dst : MemIn} (hne : dst ≠ src)
    (hcopy : ipaNatiCopyIpv4Tbl env (s.nati.tblHdl src) (s.nati.tblHdl dst) s = (0, s')) :
    (IsTblHdl (s.nati.tblHdl src) src ∧ ∃ d tbl, (s.drv.natCache src).ip4Tbl = some ⟨d, tbl⟩) ∧
      IsTblHdl (s.nati.tblHdl dst) dst ∧
        ∃ d tbl, (s.drv.natCache dst).ip4Tbl = some ⟨d, tbl⟩ := by
  rcases (h.hdls dst).at s.drv with hn | hdst
  · unfold ipaNatiCopyIpv4Tbl at hcopy
    rw [clearIpv4Tbl_none hn] at hcopy
    cases hcopy
  refine ⟨?_, hdst⟩
  obtain ⟨hm, dD, tblD, hD⟩ := hdst
  have hw := copy_clears hD hm hcopy
  have hother := (Drv.setIp4Tbl_sameBut s.drv dst (clearIp4Tbl tblD)).other src hne.symm
  rcases (h.hdls src).at (s.drv.setIp4Tbl dst (clearIp4Tbl tblD)) with hn | ⟨hmS, d, tblS, hS⟩
  · unfold ipaNATIWalkIpv4Tbl at hw
    rw [hn] at hw
    split at hw
    · cases hw
    split at hw
    · cases hw
    · cases hw
  · rw [hother] at hS
    exact ⟨hmS, d, tblS, hS⟩

/-- **A copy that passes hands every held handle on.** -/
theorem copy_matched (h : NatiTbls env s) {src dst : MemIn} (hne : dst ≠ src) {held : Set ℕ}
    (hS : Matched (s.drv.natCache src).ip4Tbl (s.nati.mapPairs src) held)
    (hD : s.nati.mapPairs dst = .empty)
    (hcopy : ipaNatiCopyIpv4Tbl env (s.nati.tblHdl src) (s.nati.tblHdl dst) s = (0, s')) :
    Matched (s'.drv.natCache dst).ip4Tbl (s'.nati.mapPairs dst) held := by
  obtain ⟨⟨hsrc, d, tblS, htS⟩, hdst, dD, tblD, htD⟩ := copy_present h hne hcopy
  obtain ⟨hnmi, -⟩ := h.sound src d tblS htS
  obtain ⟨-, g, hinv⟩ := h.sound dst dD tblD htD
  rw [htS] at hS
  obtain ⟨hcinv, hclive⟩ := hinv.tables.clear g
  have hnone : liveHandles (some ⟨dD, clearIp4Tbl tblD⟩) = ∅ :=
    Set.eq_empty_of_forall_notMem fun _ ⟨i, hl, _⟩ =>
      Option.some_ne_none _ ((if_pos hl).symm.trans (congrFun hclive i))
  have hstart : HandedOn tblS (s.nati.mapPairs src) dst 0
      (s.setDrv (s.drv.setIp4Tbl dst (clearIp4Tbl tblD))) := by
    refine ⟨congrArg s.nati.mapPairs hnmi, dD, _, g, Drv.setIp4Tbl_ip4Tbl .., hcinv.loose, ?_⟩
    rw [Ip4Tbl.origsBefore_zero]
    exact hD ▸ Matched.empty hnone
  have hend := walkLoop_ok entryInterface tblS.table
    (migrateRule env tblS.table (s.nati.tblHdl dst)) (HandedOn tblS (s.nati.mapPairs src) dst)
    (fun i s₁ hv hP => by
      unfold HandedOn
      rwa [Ip4Tbl.origsBefore_skip fun hl => hv (NatRule.live_iff.1 hl).1])
    (fun i s₁ s₂ hv hP hcb => hP.step hS (hnmi ▸ hne) hdst hv hcb) d.totTblEnts 0 _ s' hstart
    (copy_walks hne htS htD hsrc hdst hcopy)
  obtain ⟨-, dD', tbl, -, ht, -, hm⟩ := hend
  rw [Nat.zero_add, hS.origsBefore_all] at hm
  rw [ht]
  exact hm

end Sm8850.Ipanat
