/-
  The driver's two tables under calls that may fail.

  * `Drv.Sound`: the tables that are there are well formed.
  * `Drv.Onward`: what every call but a creation leaves; `Drv.TblCall`, `Drv.Fewer` and
    `Drv.SameTbls` for a call on the rules of one table, one that drops tables and one
    that touches none.
  * One lemma for each call, under a handle that names the table of its memory or none.
-/
import Sm8850.Ipanat.Slots

namespace Sm8850.Ipanat

open Lib

/-! ## What calls leave -/

/-- A table of its memory that keeps the invariant of failing calls. -/
def Ip4Tbl.Sound {d : Dims} (tbl : Ip4Tbl d) (nmi : MemIn) : Prop :=
  tbl.table.nmi = nmi ∧ ∃ g, LooseInv tbl g

/-- The tables that are there are sound. -/
def Drv.Sound (w : Drv) : Prop :=
  ∀ (m : MemIn) (d : Dims) (tbl : Ip4Tbl d), (w.natCache m).ip4Tbl = some ⟨d, tbl⟩ → tbl.Sound m

/-- No table but those that were there, of the same dimensions and as sound. -/
def Drv.Onward (w w' : Drv) : Prop :=
  ∀ (m : MemIn) (d : Dims) (tbl' : Ip4Tbl d), (w'.natCache m).ip4Tbl = some ⟨d, tbl'⟩ →
    ∃ tbl : Ip4Tbl d, (w.natCache m).ip4Tbl = some ⟨d, tbl⟩ ∧ (tbl.Sound m → tbl'.Sound m)

/-- No table but those that were there. -/
def Drv.Fewer (w w' : Drv) : Prop :=
  ∀ m, (w'.natCache m).ip4Tbl = (w.natCache m).ip4Tbl ∨ (w'.natCache m).ip4Tbl = none

/-- The same tables. -/
def Drv.SameTbls (w w' : Drv) : Prop := ∀ m, (w'.natCache m).ip4Tbl = (w.natCache m).ip4Tbl

theorem Drv.Onward.sound {w w' : Drv} (h : w.Onward w') (hw : w.Sound) : w'.Sound := by
  intro m d tbl' ht'
  obtain ⟨tbl, ht, hkeep⟩ := h m d tbl' ht'
  exact hkeep (hw m d tbl ht)

theorem Drv.Onward.gone {w w' : Drv} (h : w.Onward w') {m : MemIn}
    (hn : (w.natCache m).ip4Tbl = none) : (w'.natCache m).ip4Tbl = none := by
  rw [Option.eq_none_iff_forall_ne_some]
  rintro ⟨d, tbl'⟩ ht'
  obtain ⟨tbl, ht, -⟩ := h m d tbl' ht'
  rw [hn] at ht
  cases ht

theorem Drv.Onward.refl (w : Drv) : w.Onward w := fun _ _ tbl ht => ⟨tbl, ht, id⟩

theorem Drv.Onward.trans {w w' w'' : Drv} (h : w.Onward w') (k : w'.Onward w'') :
    w.Onward w'' := by
  intro m d tbl'' ht''
  obtain ⟨tbl', ht', hkeep'⟩ := k m d tbl'' ht''
  obtain ⟨tbl, ht, hkeep⟩ := h m d tbl' ht'
  exact ⟨tbl, ht, fun hs => hkeep' (hkeep hs)⟩

theorem Drv.Fewer.onward {w w' : Drv} (h : w.Fewer w') : w.Onward w' := by
  intro m d tbl ht
  rcases h m with he | he
  · exact ⟨tbl, he.symm.trans ht, id⟩
  · rw [he] at ht
    cases ht

theorem Drv.Fewer.trans {w w' w'' : Drv} (h : w.Fewer w') (k : w'.Fewer w'') : w.Fewer w'' := by
  intro m
  rcases k m with he | he
  · rcases h m with he' | he'
    · exact Or.inl (he.trans he')
    · exact Or.inr (he.trans he')
  · exact Or.inr he

theorem Drv.SameTbls.fewer {w w' : Drv} (h : w.SameTbls w') : w.Fewer w' := fun m => Or.inl (h m)

theorem Drv.SameTbls.onward {w w' : Drv} (h : w.SameTbls w') : w.Onward w' := h.fewer.onward

theorem Drv.SameTbls.trans {w w' w'' : Drv} (h : w.SameTbls w') (k : w'.SameTbls w'') :
    w.SameTbls w'' := fun m => (k m).trans (h m)

/-- A call on the rules of one table. -/
structure Drv.TblCall (nmi : MemIn) (w w' : Drv) : Prop where
  other : ∀ m, m ≠ nmi → (w'.natCache m).ip4Tbl = (w.natCache m).ip4Tbl
  onward : w.Onward w'

theorem Drv.TblCall.refl (nmi : MemIn) (w : Drv) : w.TblCall nmi w :=
  ⟨fun _ _ => rfl, .refl w⟩

theorem Drv.TblCall.of_present {nmi : MemIn} {w w' : Drv} (same : w.SameBut nmi w') {d : Dims}
    {tbl tbl' : Ip4Tbl d} {g : PairGhost} (ht : (w.natCache nmi).ip4Tbl = some ⟨d, tbl⟩)
    (ht' : (w'.natCache nmi).ip4Tbl = some ⟨d, tbl'⟩) (hnmi : tbl'.table.nmi = tbl.table.nmi)
    (hinv : LooseInv tbl' g) : w.TblCall nmi w' := by
  have hother := fun m hm => congrArg NatCache.ip4Tbl (same.other m hm)
  refine ⟨hother, fun m d₁ tbl₁ ht₁ => ?_⟩
  by_cases hm : m = nmi
  · subst hm
    rw [ht'] at ht₁
    cases ht₁
    exact ⟨tbl, ht, fun hs => ⟨hnmi.trans hs.1, g, hinv⟩⟩
  · exact ⟨tbl₁, (hother m hm).symm.trans ht₁, id⟩

/-! ## Calls on rules -/

/-- A handle that names the table of a memory, or no table at all. -/
def HdlFor (hdl : ℕ) (nmi : MemIn) : Prop := hdl = 0 ∨ hdl = makeTblHdl 1 nmi

/-- Under a handle there is no table, or the one of a memory. -/
def Drv.HdlAt (w : Drv) (hdl : ℕ) (nmi : MemIn) : Prop :=
  ip4TblAt w hdl = none ∨ IsTblHdl hdl nmi ∧ ∃ (d : Dims) (tbl : Ip4Tbl d),
    (w.natCache nmi).ip4Tbl = some ⟨d, tbl⟩

theorem HdlFor.at {hdl : ℕ} {nmi : MemIn} (hh : HdlFor hdl nmi) (w : Drv) : w.HdlAt hdl nmi := by
  rcases hh with rfl | rfl
  · exact Or.inl rfl
  · have hm := isTblHdl_make nmi
    unfold Drv.HdlAt
    rw [hm.ip4TblAt]
    cases (w.natCache nmi).ip4Tbl with
    | none => exact Or.inl rfl
    | some sdt => exact Or.inr ⟨hm, sdt.1, sdt.2, rfl⟩

section NoTable
variable {w : Drv} {hdl : ℕ} (hn : ip4TblAt w hdl = none)

include hn

theorem addIpv4Rule_none (env : Env) (clnt : Ipv4Rule) :
    (ipaNATIAddIpv4Rule env w hdl clnt).1 ≠ 0 ∧ (ipaNATIAddIpv4Rule env w hdl clnt).2.2 = w := by
  unfold ipaNATIAddIpv4Rule
  rw [hn]
  dsimp only
  split_ifs <;> exact ⟨(by decide : -einval ≠ 0), rfl⟩

theorem delIpv4Rule_none (env : Env) (ruleHdl : ℕ) :
    ipaNATIDelIpv4Rule env w hdl ruleHdl = (-einval, w) := by
  unfold ipaNATIDelIpv4Rule
  rw [hn]

theorem clearIpv4Tbl_none : ipaNATIClearIpv4Tbl w hdl = (-einval, w) := by
  unfold ipaNATIClearIpv4Tbl
  rw [hn]
  dsimp only
  split <;> rfl

end NoTable

section Calls
variable {w : Drv} (hw : w.Sound) {hdl : ℕ} {nmi : MemIn} (hh : w.HdlAt hdl nmi)

include hw hh

theorem addIpv4Rule_tblCall (env : Env) (clnt : Ipv4Rule) :
    w.TblCall nmi (ipaNATIAddIpv4Rule env w hdl clnt).2.2 := by
  rcases hh with hn | ⟨hm, d, tbl, ht⟩
  · rw [(addIpv4Rule_none hn env clnt).2]
    exact .refl nmi w
  · obtain ⟨-, g, hinv⟩ := hw nmi d tbl ht
    obtain ⟨hsame, tbl', g', ht', hinv', -, ⟨-, hs⟩ | ⟨-, i, -, hs⟩⟩ := hinv.addSlots hm ht rfl
    · exact .of_present hsame ht ht' hs.nmi hinv'
    · exact .of_present hsame ht ht' hs.nmi hinv'

theorem delIpv4Rule_tblCall (env : Env) (ruleHdl : ℕ) :
    w.TblCall nmi (ipaNATIDelIpv4Rule env w hdl ruleHdl).2 := by
  rcases hh with hn | ⟨hm, d, tbl, ht⟩
  · rw [delIpv4Rule_none hn]
    exact .refl nmi w
  · obtain ⟨-, g, hinv⟩ := hw nmi d tbl ht
    have hsame := ipaNATIDelIpv4Rule_sameBut env (w := w) hm ruleHdl
    obtain ⟨tbl', g', ht', hinv', ⟨-, hs⟩ | ⟨-, i, -, hs⟩⟩ := hinv.delSlots hm ht rfl
    · exact .of_present hsame ht ht' hs.nmi hinv'
    · exact .of_present hsame ht ht' hs.nmi hinv'

theorem clearIpv4Tbl_tblCall : w.TblCall nmi (ipaNATIClearIpv4Tbl w hdl).2 := by
  rcases hh with hn | ⟨hm, d, tbl, ht⟩
  · rw [clearIpv4Tbl_none hn]
    exact .refl nmi w
  · obtain ⟨-, g, hinv⟩ := hw nmi d tbl ht
    rcases hcall : ipaNATIClearIpv4Tbl w hdl with ⟨ret, w'⟩
    rcases ipaNATIClearIpv4Tbl_spec hm ht hcall with ⟨-, -, rfl⟩ | ⟨-, -, rfl⟩
    · exact .refl nmi _
    · exact .of_present (Drv.setIp4Tbl_sameBut ..) ht (Drv.setIp4Tbl_ip4Tbl ..) rfl
        (hinv.tables.clear g).1.loose

end Calls

/-! ## Calls on whole tables -/

theorem sysCall_sameTbls (env : Env) (w : Drv) : w.SameTbls (sysCall env w).2 := fun m => by
  cases m <;> rfl

theorem Drv.setNatCache_sameTbls (w : Drv) (nmi : MemIn) (c : NatCache)
    (hc : c.ip4Tbl = (w.natCache nmi).ip4Tbl) : w.SameTbls (w.setNatCache nmi c) := by
  intro m
  by_cases hm : m = nmi
  · subst hm
    rw [Drv.natCache_setNatCache_self, hc]
  · rw [Drv.natCache_setNatCache_of_ne hm]

theorem Drv.setNatCache_fewer (w : Drv) (nmi : MemIn) (c : NatCache) (hc : c.ip4Tbl = none) :
    w.Fewer (w.setNatCache nmi c) := by
  intro m
  by_cases hm : m = nmi
  · subst hm
    rw [Drv.natCache_setNatCache_self]
    exact Or.inr hc
  · rw [Drv.natCache_setNatCache_of_ne hm]
    exact Or.inl rfl

theorem openDesc_sameTbls (env : Env) (w : Drv) (nmi : MemIn) :
    w.SameTbls (openDesc env w nmi).2 := by
  have hsys := sysCall_sameTbls env w
  unfold openDesc
  split
  · exact fun m => rfl
  · rcases hcall : sysCall env w with ⟨_ | _, w'⟩
    · rw [hcall] at hsys
      exact hsys
    · rw [hcall] at hsys
      exact hsys.trans (Drv.setNatCache_sameTbls w' nmi _ rfl)

theorem voteClock_sameTbls (env : Env) (w : Drv) : w.SameTbls (ipaNatiVoteClock env w).2 := by
  have hopen := openDesc_sameTbls env w .sram
  unfold ipaNatiVoteClock
  rcases hcall : openDesc env w .sram with ⟨_ | _, w'⟩
  · rw [hcall] at hopen
    exact hopen
  · rw [hcall] at hopen
    have hsys := hopen.trans (sysCall_sameTbls env w')
    rcases hcall' : sysCall env w' with ⟨_ | _, w''⟩
    · rw [hcall'] at hsys
      simpa only [hcall'] using hsys
    · rw [hcall'] at hsys
      simpa only [hcall'] using hsys

theorem getSramSize_spec {env : Env} {w : Drv} {ret : ℤ} {sramSize : ℕ} {w' : Drv}
    (h : ipaNatiGetSramSize env w = (ret, sramSize, w')) :
    w.SameTbls w' ∧ (ret = 0 → sramSize = env.sramSize) := by
  have hopen := openDesc_sameTbls env w .sram
  unfold ipaNatiGetSramSize at h
  rcases hcall : openDesc env w .sram with ⟨_ | _, w₁⟩
  · rw [hcall] at h hopen
    cases h
    exact ⟨hopen, fun h => absurd h (by decide)⟩
  · rw [hcall] at hopen
    simp only [hcall] at h
    have hsys := hopen.trans (sysCall_sameTbls env w₁)
    rcases hcall' : sysCall env w₁ with ⟨_ | _, w₂⟩
    · rw [hcall'] at h hsys
      cases h
      exact ⟨hsys, fun h => absurd h (by decide)⟩
    · rw [hcall'] at h hsys
      cases h
      exact ⟨hsys, fun _ => rfl⟩

theorem postInitCmd_sameTbls (env : Env) (w : Drv) (hdl : ℕ) :
    w.SameTbls (ipaNATIPostIpv4InitCmd env w hdl).2 := by
  have hsys := sysCall_sameTbls env w
  unfold ipaNATIPostIpv4InitCmd ipaNatiPostIpv4InitCmd
  dsimp only
  split
  · exact fun m => rfl
  · rcases hcall : sysCall env w with ⟨_ | _, w'⟩
    · rw [hcall] at hsys
      exact hsys
    · rw [hcall] at hsys
      exact fun m => by
        rw [← hsys m]
        cases m <;> rfl

/-- A deleted table is gone, and one whose memory the kernel keeps as well. -/
theorem delIpv4Table_spec {env : Env} {w : Drv} {hdl : ℕ} {nmi : MemIn} (hh : w.HdlAt hdl nmi)
    {ret : ℤ} {w' : Drv} (h : ipaNATIDelIpv4Table env w hdl = (ret, w')) :
    w.Fewer w' ∧ (ret = 0 → (w'.natCache nmi).ip4Tbl = none) := by
  unfold ipaNATIDelIpv4Table at h
  rcases hh with hn | ⟨hm, d, tbl, ht⟩
  · rw [hn] at h
    cases h
    exact ⟨fun m => Or.inl rfl, fun h => absurd h (by decide)⟩
  · rw [hm.ip4TblAt, ht] at h
    simp only [hm.breaks, ipaNatiDestroyTable] at h
    have hfew := (sysCall_sameTbls env w).fewer.trans
      (Drv.setNatCache_fewer (sysCall env w).2 nmi
        { (sysCall env w).2.natCache nmi with ip4Tbl := none } rfl)
    cases hio : (sysCall env w).1
    · simp only [hio, Bool.false_eq_true, if_false] at h
      cases h
      exact ⟨hfew, fun h => absurd h (by decide)⟩
    · simp only [hio, if_true] at h
      cases h
      refine ⟨hfew.trans (Drv.setNatCache_fewer _ nmi _ ?_), fun _ => ?_⟩
      · rw [Drv.natCache_setNatCache_self]
      · rw [Drv.natCache_setNatCache_self, Drv.natCache_setNatCache_self]

/-- A creation that fails hands out the handle 0. -/
theorem addIpv4Tbl_failed {env : Env} {w : Drv} {nmi : MemIn} {publicIpAddr : UInt32} {n : ℕ}
    {ret : ℤ} {hdl : ℕ} {w' : Drv}
    (h : ipaNATIAddIpv4Tbl env w nmi publicIpAddr n = (ret, hdl, w')) (hret : ret ≠ 0) :
    hdl = 0 ∧ w.Fewer w' := by
  unfold ipaNATIAddIpv4Tbl at h
  generalize makeTblHdl 1 nmi = H at h
  have hopen := openDesc_sameTbls env w nmi
  have hclosed : ∀ w₁ : Drv, w.Fewer w₁ →
      w.Fewer (w₁.setNatCache nmi { ipaDesc := false, tableCnt := 0, ip4Tbl := none }) :=
    fun w₁ hw => hw.trans (Drv.setNatCache_fewer w₁ nmi _ rfl)
  split at h
  · cases h
    exact ⟨rfl, fun m => Or.inl rfl⟩
  rcases hcall : openDesc env w nmi with ⟨_ | _, w₁⟩
  · rw [hcall] at hopen
    simp only [hcall] at h
    cases h
    exact ⟨rfl, hopen.fewer⟩
  rw [hcall] at hopen
  simp only [hcall, ipaNatiCreateTable, ipaNatiPostIpv4InitCmd, ipaNatiDestroyTable] at h
  cases hd : ipaTableCalculateEntriesNum n nmi with
  | error e =>
    simp only [hd] at h
    cases h
    exact ⟨rfl, hclosed w₁ hopen.fewer⟩
  | ok d =>
    have hsys := hopen.trans (sysCall_sameTbls env w₁)
    rcases hcall₁ : sysCall env w₁ with ⟨_ | _, w₂⟩
    · rw [hcall₁] at hsys
      simp only [hd, hcall₁] at h
      cases h
      exact ⟨rfl, hclosed w₂ hsys.fewer⟩
    · rw [hcall₁] at hsys
      have hsys' := hsys.trans (sysCall_sameTbls env w₂)
      rcases hcall₂ : sysCall env w₂ with ⟨_ | _, w₃⟩
      · rw [hcall₂] at hsys'
        simp only [hd, hcall₁, hcall₂] at h
        cases h
        refine ⟨rfl, hclosed _ ?_⟩
        exact ((hsys'.trans (sysCall_sameTbls env w₃)).fewer).trans
          (Drv.setNatCache_fewer _ nmi _ rfl)
      · simp only [hd, hcall₁, hcall₂] at h
        cases h
        exact absurd rfl hret

end Sm8850.Ipanat
