/-
  The maps and the counter of a memory, against the slots of its table.

  * `Tracked`: what the new-to-original map knows are live slots, and the counter lies
    between their number and the number of all live slots.
  * `Tracked.add`, `Tracked.unmap`, `Tracked.freed`: a rule added and entered in the
    maps, a rule dropped from the maps, its slot freed.
-/
import Sm8850.Ipanat.SoundCalls
import Sm8850.Ipanat.Statemach

namespace Sm8850.Ipanat

variable {d : Dims}

/-- Both maps with one rule more. -/
def NatiMapPair.enter (p : NatiMapPair) (orig new : ℕ) : NatiMapPair :=
  ⟨Function.update p.orig2new orig (some new), Function.update p.new2orig new (some orig)⟩

/-- Both maps without one rule. -/
def NatiMapPair.drop (p : NatiMapPair) (orig new : ℕ) : NatiMapPair :=
  ⟨Function.update p.orig2new orig none, Function.update p.new2orig new none⟩

section
variable (p : NatiMapPair) (orig new k : ℕ)

@[simp] theorem NatiMapPair.enter_orig2new :
    (p.enter orig new).orig2new k = if k = orig then some new else p.orig2new k :=
  Function.update_apply ..
@[simp] theorem NatiMapPair.enter_new2orig :
    (p.enter orig new).new2orig k = if k = new then some orig else p.new2orig k :=
  Function.update_apply ..
@[simp] theorem NatiMapPair.drop_orig2new :
    (p.drop orig new).orig2new k = if k = orig then none else p.orig2new k :=
  Function.update_apply ..
@[simp] theorem NatiMapPair.drop_new2orig :
    (p.drop orig new).new2orig k = if k = new then none else p.new2orig k :=
  Function.update_apply ..

end

/-- The slots that hold live rules. -/
def Ip4Tbl.liveSlots (tbl : Ip4Tbl d) : Finset ℕ :=
  (Finset.range d.totTblEnts).filter fun i => (tbl.natRec i).live

/-- The slots whose handles lead back to an original handle. -/
def Ip4Tbl.trackedSlots (tbl : Ip4Tbl d) (p : NatiMapPair) : Finset ℕ :=
  (Finset.range d.totTblEnts).filter fun i => (p.new2orig (makeEntryHdl tbl.table i)).isSome

/-- **The maps and the counter count what the table holds.** -/
structure Tracked (tbl : Ip4Tbl d) (p : NatiMapPair) (c : ℕ) : Prop where
  live : ∀ new orig, p.new2orig new = some orig → ∃ i, i < d.totTblEnts ∧
    new = makeEntryHdl tbl.table i ∧ (tbl.natRec i).live
  back : ∀ orig new, p.orig2new orig = some new → p.new2orig new = some orig
  keys_le : (tbl.trackedSlots p).card ≤ c
  cntr_le : c ≤ tbl.liveSlots.card

theorem Ip4Tbl.mem_liveSlots {tbl : Ip4Tbl d} {i : ℕ} :
    i ∈ tbl.liveSlots ↔ i < d.totTblEnts ∧ (tbl.natRec i).live = true := by
  simp [liveSlots]

theorem Ip4Tbl.mem_trackedSlots {tbl : Ip4Tbl d} {p : NatiMapPair} {i : ℕ} :
    i ∈ tbl.trackedSlots p ↔
      i < d.totTblEnts ∧ (p.new2orig (makeEntryHdl tbl.table i)).isSome = true := by
  simp [trackedSlots]

/-- A table has far fewer slots than 32 bits count. -/
theorem Ip4Tbl.liveSlots_lt (tbl : Ip4Tbl d) : tbl.liveSlots.card < 2 ^ 32 - 1 := by
  have h₁ := d.base_le
  have h₂ := d.expn_le
  have hle : tbl.liveSlots.card ≤ d.totTblEnts :=
    (Finset.card_filter_le _ _).trans_eq (Finset.card_range _)
  simp only [Dims.totTblEnts] at hle
  omega

theorem Tracked.empty (tbl : Ip4Tbl d) : Tracked tbl .empty 0 := by
  refine ⟨fun new orig h => ?_, fun orig new h => ?_, ?_, Nat.zero_le _⟩
  · cases h
  · cases h
  · simp [Ip4Tbl.trackedSlots, NatiMapPair.empty]

section
variable {tbl tbl' : Ip4Tbl d} {p : NatiMapPair} {c : ℕ}

theorem Ip4Tbl.trackedSlots_congr (h : tbl'.table.nmi = tbl.table.nmi) :
    tbl'.trackedSlots p = tbl.trackedSlots p :=
  Finset.filter_congr fun i _ => by rw [makeEntryHdl_congr h]

theorem Tracked.kept (h : Tracked tbl p c) (hs : tbl.SameSlots tbl') : Tracked tbl' p c := by
  refine ⟨fun new orig hn => ?_, h.back, ?_, ?_⟩
  · obtain ⟨i, hi, rfl, hl⟩ := h.live new orig hn
    exact ⟨i, hi, (makeEntryHdl_congr hs.nmi i).symm, (hs.live i).trans hl⟩
  · rw [Ip4Tbl.trackedSlots_congr hs.nmi]
    exact h.keys_le
  · have heq : tbl'.liveSlots = tbl.liveSlots :=
      Finset.filter_congr fun i _ => by rw [hs.live i]
    rw [heq]
    exact h.cntr_le

/-- The handle of a slot without a rule leads nowhere. -/
theorem Tracked.new2orig_free (h : Tracked tbl p c) {i : ℕ} (hi : i < d.totTblEnts)
    (hf : ¬ (tbl.natRec i).live) : p.new2orig (makeEntryHdl tbl.table i) = none := by
  rw [Option.eq_none_iff_forall_ne_some]
  intro orig horig
  obtain ⟨j, hj, heq, hl⟩ := h.live _ orig horig
  rw [makeEntryHdl_inj tbl.table hi hj heq] at hf
  exact hf hl

/-- Entering a rule whose new handle is free changes nothing, or both maps. -/
theorem NatiMapPair.add_cases {new : ℕ} (hn : p.new2orig new = none) (orig : ℕ) :
    (p.add orig new).2 = p ∨ (p.add orig new).2 = p.enter orig new := by
  unfold add ipaNatMapAdd enter
  cases ho : p.orig2new orig with
  | some v => exact Or.inl rfl
  | none => exact Or.inr (by simp [hn])

/-- **A slot taken, counted and entered in the maps.** -/
theorem Tracked.add (h : Tracked tbl p c) {i : ℕ} (hs : tbl.SlotTaken tbl' i) (orig : ℕ) :
    Tracked tbl' (p.add orig (makeEntryHdl tbl.table i)).2 (inc32 c) := by
  have hn := h.new2orig_free hs.lt hs.free
  have hhdl := makeEntryHdl_congr hs.nmi
  have hlive : tbl'.liveSlots = insert i tbl.liveSlots := by
    ext k
    rw [Finset.mem_insert, Ip4Tbl.mem_liveSlots, Ip4Tbl.mem_liveSlots]
    by_cases hk : k = i
    · subst hk
      exact iff_of_true ⟨hs.lt, hs.taken⟩ (Or.inl rfl)
    · rw [hs.keep k hk]
      exact (or_iff_right hk).symm
  have hcard : tbl'.liveSlots.card = tbl.liveSlots.card + 1 := by
    rw [hlive]
    refine Finset.card_insert_of_notMem fun hi => hs.free ?_
    exact (Ip4Tbl.mem_liveSlots.1 hi).2
  have hc : inc32 c = c + 1 := by
    have hlt := tbl.liveSlots_lt
    have hle := h.cntr_le
    exact if_neg (by omega)
  have hcntr : inc32 c ≤ tbl'.liveSlots.card := by
    rw [hc, hcard]
    exact Nat.succ_le_succ h.cntr_le
  have hold : ∀ new o, p.new2orig new = some o → ∃ k, k < d.totTblEnts ∧
      new = makeEntryHdl tbl'.table k ∧ (tbl'.natRec k).live := fun new o ho => by
    obtain ⟨k, hk, rfl, hl⟩ := h.live new o ho
    have hki : k ≠ i := fun e => hs.free (e ▸ hl)
    exact ⟨k, hk, (hhdl k).symm, (hs.keep k hki).trans hl⟩
  rcases NatiMapPair.add_cases hn orig with heq | heq
  · rw [heq]
    refine ⟨hold, h.back, ?_, hcntr⟩
    rw [Ip4Tbl.trackedSlots_congr hs.nmi, hc]
    exact h.keys_le.trans (Nat.le_succ c)
  · rw [heq]
    refine ⟨fun new o hno => ?_, fun o new hon => ?_, ?_, hcntr⟩
    · rw [NatiMapPair.enter_new2orig] at hno
      split at hno
      · next e => exact ⟨i, hs.lt, by rw [e, hhdl], hs.taken⟩
      · exact hold new o hno
    · rw [NatiMapPair.enter_orig2new] at hon
      rw [NatiMapPair.enter_new2orig]
      split at hon
      · next e => rw [if_pos (Option.some.inj hon).symm, e]
      · have hback := h.back o new hon
        rw [if_neg]
        · exact hback
        · rintro rfl
          rw [hn] at hback
          cases hback
    · have hsub : tbl'.trackedSlots (p.enter orig (makeEntryHdl tbl.table i)) ⊆
          insert i (tbl.trackedSlots p) := by
        intro k hk
        obtain ⟨hk, hsome⟩ := Ip4Tbl.mem_trackedSlots.1 hk
        rw [Finset.mem_insert, Ip4Tbl.mem_trackedSlots]
        by_cases hki : k = i
        · exact Or.inl hki
        · rw [hhdl, NatiMapPair.enter_new2orig, if_neg] at hsome
          · exact Or.inr ⟨hk, hsome⟩
          · exact fun e => hki (makeEntryHdl_inj _ hk hs.lt e)
      rw [hc]
      exact (Finset.card_le_card hsub).trans
        ((Finset.card_insert_le _ _).trans (Nat.succ_le_succ h.keys_le))

/-- **A rule dropped from both maps**: its new handle names a live slot, and the counter
    exceeds the number of the others. -/
theorem Tracked.unmap (h : Tracked tbl p c) {orig new : ℕ} (ho : p.orig2new orig = some new) :
    ∃ i, i < d.totTblEnts ∧ new = makeEntryHdl tbl.table i ∧ (tbl.natRec i).live ∧
      Tracked tbl (p.drop orig new) c ∧ (tbl.trackedSlots (p.drop orig new)).card < c := by
  have hn := h.back orig new ho
  obtain ⟨i, hi, rfl, hl⟩ := h.live new orig hn
  have hlt : (tbl.trackedSlots (p.drop orig (makeEntryHdl tbl.table i))).card < c := by
    refine (Finset.card_lt_card ⟨fun k hk => ?_, fun hsub => ?_⟩).trans_le h.keys_le
    · obtain ⟨hk, hsome⟩ := Ip4Tbl.mem_trackedSlots.1 hk
      rw [NatiMapPair.drop_new2orig] at hsome
      split at hsome
      · cases hsome
      · exact Ip4Tbl.mem_trackedSlots.2 ⟨hk, hsome⟩
    · have hmem : i ∈ tbl.trackedSlots p := Ip4Tbl.mem_trackedSlots.2 ⟨hi, by rw [hn]; rfl⟩
      have hsome := (Ip4Tbl.mem_trackedSlots.1 (hsub hmem)).2
      rw [NatiMapPair.drop_new2orig, if_pos rfl] at hsome
      cases hsome
  refine ⟨i, hi, rfl, hl, ⟨fun new o hno => ?_, fun o new hon => ?_, hlt.le, h.cntr_le⟩, hlt⟩
  · rw [NatiMapPair.drop_new2orig] at hno
    split at hno
    · cases hno
    · exact h.live new o hno
  · rw [NatiMapPair.drop_orig2new] at hon
    rw [NatiMapPair.drop_new2orig]
    split at hon
    · cases hon
    · next hne =>
      have hback := h.back o new hon
      rw [if_neg]
      · exact hback
      · rintro rfl
        rw [hn] at hback
        exact hne (Option.some.inj hback).symm

/-- **A slot freed and counted off**, once the maps have dropped it. -/
theorem Tracked.freed (h : Tracked tbl p c) {i : ℕ} (hi : i < d.totTblEnts)
    (hl : (tbl.natRec i).live) (hn : p.new2orig (makeEntryHdl tbl.table i) = none)
    (hlt : (tbl.trackedSlots p).card < c) (hs : tbl.SlotFreed tbl' i) :
    Tracked tbl' p (dec32 c) := by
  have hc : dec32 c = c - 1 := if_neg (by omega)
  have hlive : tbl'.liveSlots = tbl.liveSlots.erase i := by
    ext k
    rw [Finset.mem_erase, Ip4Tbl.mem_liveSlots, Ip4Tbl.mem_liveSlots]
    by_cases hk : k = i
    · subst hk
      exact iff_of_false (fun hk => hs.gone hk.2) fun hk => hk.1 rfl
    · rw [hs.keep k hk]
      exact (and_iff_right hk).symm
  refine ⟨fun new o hno => ?_, h.back, ?_, ?_⟩
  · obtain ⟨k, hk, rfl, hkl⟩ := h.live new o hno
    have hki : k ≠ i := by
      rintro rfl
      rw [hn] at hno
      cases hno
    exact ⟨k, hk, (makeEntryHdl_congr hs.nmi k).symm, (hs.keep k hki).trans hkl⟩
  · rw [Ip4Tbl.trackedSlots_congr hs.nmi, hc]
    omega
  · rw [hlive, hc, Finset.card_erase_of_mem (Ip4Tbl.mem_liveSlots.2 ⟨hi, hl⟩)]
    exact Nat.sub_le_sub_right h.cntr_le 1

end

/-! ## The table of a memory, present or not -/

/-- `Tracked` for a table that may not be there. -/
def TrackedIn (t : Option (Σ d : Dims, Ip4Tbl d)) (p : NatiMapPair) (c : ℕ) : Prop :=
  match t with
  | none => p = .empty ∧ c = 0
  | some ⟨_, tbl⟩ => Tracked tbl p c

theorem TrackedIn.empty (t : Option (Σ d : Dims, Ip4Tbl d)) : TrackedIn t .empty 0 := by
  cases t with
  | none => exact ⟨rfl, rfl⟩
  | some sdt => exact Tracked.empty sdt.2

theorem TrackedIn.back {t : Option (Σ d : Dims, Ip4Tbl d)} {p : NatiMapPair} {c : ℕ}
    (h : TrackedIn t p c) {orig new : ℕ} (ho : p.orig2new orig = some new) :
    p.new2orig new = some orig := by
  cases t with
  | none =>
    obtain ⟨rfl, -⟩ := h
    cases ho
  | some sdt => exact Tracked.back h orig new ho

section Calls
variable {env : Env} {w : Drv} (hw : w.Sound) {hdl : ℕ} {nmi : MemIn} (hh : w.HdlAt hdl nmi)
  {p : NatiMapPair} {c : ℕ} (h : TrackedIn (w.natCache nmi).ip4Tbl p c)

include hw hh h

/-- An add that succeeds may be counted and entered. -/
theorem TrackedIn.addCall {clnt : Ipv4Rule} {ret : ℤ} {out : Option ℕ} {w' : Drv}
    (hcall : ipaNATIAddIpv4Rule env w hdl clnt = (ret, out, w')) :
    ret ≠ 0 ∧ TrackedIn (w'.natCache nmi).ip4Tbl p c ∨ ret = 0 ∧ ∃ new, out = some new ∧
      ∀ orig, TrackedIn (w'.natCache nmi).ip4Tbl (p.add orig new).2 (inc32 c) := by
  rcases hh with hn | ⟨hm, d, tbl, ht⟩
  · obtain ⟨hret, hkept⟩ := addIpv4Rule_none hn env clnt
    rw [hcall] at hret hkept
    obtain rfl : w' = w := hkept
    exact Or.inl ⟨hret, h⟩
  · obtain ⟨-, g, hinv⟩ := hw nmi d tbl ht
    rw [ht] at h
    obtain ⟨-, tbl', -, ht', -, -, ⟨hret, hs⟩ | ⟨hret, i, hout, hs⟩⟩ := hinv.addSlots hm ht hcall
    · rw [ht']
      exact Or.inl ⟨hret, Tracked.kept h hs⟩
    · rw [ht']
      exact Or.inr ⟨hret, _, hout, fun orig => Tracked.add h hs orig⟩

/-- A delete under the new handle of an entered rule, which the maps have dropped. -/
theorem TrackedIn.delCall {orig new : ℕ} (ho : p.orig2new orig = some new) {ret : ℤ} {w' : Drv}
    (hcall : ipaNATIDelIpv4Rule env w hdl new = (ret, w')) :
    ret ≠ 0 ∧ TrackedIn (w'.natCache nmi).ip4Tbl (p.drop orig new) c ∨
      ret = 0 ∧ TrackedIn (w'.natCache nmi).ip4Tbl (p.drop orig new) (dec32 c) := by
  cases ht : (w.natCache nmi).ip4Tbl with
  | none =>
    rw [ht] at h
    obtain ⟨rfl, -⟩ := h
    cases ho
  | some sdt =>
    obtain ⟨d, tbl⟩ := sdt
    rw [ht] at h
    obtain ⟨i, hi, rfl, hl, hdrop, hlt⟩ := Tracked.unmap h ho
    rcases hh with hn | ⟨hm, -⟩
    · rw [delIpv4Rule_none hn] at hcall
      cases hcall
      rw [ht]
      exact Or.inl ⟨by decide, hdrop⟩
    · obtain ⟨-, g, hinv⟩ := hw nmi d tbl ht
      obtain ⟨tbl', -, ht', -, ⟨hret, hs⟩ | ⟨hret, j, hget, hs⟩⟩ := hinv.delSlots hm ht hcall
      · rw [ht']
        exact Or.inl ⟨hret, hdrop.kept hs⟩
      · rw [ipaTableGetEntry_makeEntryHdl _ hi] at hget
        cases hget
        rw [ht']
        exact Or.inr ⟨hret, hdrop.freed hi hl (by simp) hlt hs⟩

end Calls

end Sm8850.Ipanat
