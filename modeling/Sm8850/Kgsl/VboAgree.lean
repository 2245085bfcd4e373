/-
  The page table of a VBO agrees with its ranges.

  * `Agrees`: a page in a range is the page of the child that the bind of the range
    gave it, every other page is the zero page, or not mapped at all.
  * `bind_spec`: a bind succeeds, keeps `Agrees`, and maps exactly its own pages anew.
  * **`ranges_agree`** collects the facts over runs of binds and unbinds.
-/
import Sm8850.Kgsl.VboRanges

namespace Sm8850.Kgsl

/-- Every MMU call succeeds. -/
def Mmu.allOk : Mmu.Outcome := ⟨fun _ _ => true, true⟩

variable {t t' t₀ : Target} {v : Vbo} {m : Mem} {r cur : BindRange} {l next : List BindRange}
  {start last offset length entry p e c : ℕ}

/-- What a page is that lies in no range. -/
def Vbo.unbound (v : Vbo) : Pte := if v.noMapZero then .unmapped else .zero

/-- The page table agrees with the ranges. -/
structure Agrees (v : Vbo) : Prop where
  bound : ∀ r ∈ v.ranges, ∀ p, r.has p → v.ptes p = .child r.entry (r.childPage p)
  rest : ∀ p, p * pageSize < v.size → (∀ r ∈ v.ranges, ¬ r.has p) → v.ptes p = v.unbound

/-- The counters of the children count the ranges at least. -/
def Backed (t : Target) : Prop := ∃ ref vbo, Counted t.mem t.vbo.ranges ref vbo

/-- The invariant of a VBO. -/
structure VboInv (t : Target) : Prop where
  gpuaddr : t.vbo.gpuaddr ≠ 0
  tidy : Tidy t.vbo.size t.vbo.ranges
  agrees : Agrees t.vbo
  backed : Backed t

theorem unmap_allOk (hfits : offset + length ≤ v.size) (hlen : 0 < length) (hgpu : v.gpuaddr ≠ 0) :
    kgslMmuUnmapRange Mmu.allOk v offset length =
      some (v.setPtes offset length fun _ => .unmapped) := by
  unfold kgslMmuUnmapRange
  rw [if_neg hgpu, if_neg (by omega)]
  rfl

/-! ## Binding -/

/-- With every call successful the loop comes to its end. -/
theorem walk_allOk (hb : Begins start last t₀) (hc : Backed t₀) :
    ∃ t, addRangeWalk Mmu.allOk start last (intervalTreeIter t₀.vbo.ranges start last) t₀ =
      some (t, true) ∧ Walking start last t₀ [] t := by
  obtain ⟨ref, vbo, hc⟩ := hc
  have htotal : ∃ r, addRangeWalk Mmu.allOk start last
      (intervalTreeIter t₀.vbo.ranges start last) t₀ = some r :=
    walk_total (P := Walking start last t₀) (fun _ _ _ hw => hw.visit_isSome hc)
      (fun _ _ _ _ hw h => hw.go hb h) hb.walking
  obtain ⟨⟨t, done⟩, ht⟩ := htotal
  have hrule := walk_rule (P := Walking start last t₀) (Q := fun _ => False)
    (fun _ _ _ _ hw h => hw.go hb h) (fun cur next t t' hw h => ?_) hb.walking ht
  · cases done with
    | true => exact ⟨t, ht, hrule.1 rfl⟩
    | false => exact (hrule.2 rfl).elim
  · obtain ⟨hcur, hover⟩ := hw.member cur List.mem_cons_self
    have hs := addRangeVisit_stopped (hw.same.size ▸ hw.tidy) hcur
      (hw.same.gpuaddr ▸ hb.gpuaddr) hover h
    cases hs with
    | whole _ _ hfail =>
      obtain ⟨o, n, hfail⟩ := hfail
      cases hfail
    | split _ _ _ _ hfail => cases hfail

/-- The page table after a bind. -/
def bindPtes (start last entry offset : ℕ) (ptes : ℕ → Pte) (p : ℕ) : Pte :=
  if Under start last p then .child entry ((p * pageSize - start + offset) / pageSize) else ptes p

theorem unmapFirst_allOk (hgpu : t.vbo.gpuaddr ≠ 0) (hle : start ≤ last)
    (hlast : last < t.vbo.size) :
    ∃ t', t.unmapFirst Mmu.allOk start (last - start + 1) = some t' := by
  unfold Target.unmapFirst
  split
  · exact ⟨_, rfl⟩
  · rw [unmap_allOk (by omega) (by omega) hgpu]
    exact ⟨_, rfl⟩

/-- A bind succeeds, and maps its own pages and no others. -/
theorem bind_spec (offset : ℕ) (hi : VboInv t) (hle : start ≤ last) (hlast : last < t.vbo.size)
    (hentry : t.mem.refcount entry ≠ 0) :
    ∃ t', kgslMemdescAddRange Mmu.allOk true t start last entry offset = some (t', true) ∧
      VboInv t' ∧ t'.vbo.size = t.vbo.size ∧
      ∀ p, t'.vbo.ptes p = bindPtes start last entry offset t.vbo.ptes p := by
  let range : BindRange := ⟨start, last, entry, start, offset⟩
  obtain ⟨m, hm⟩ := bindRangeCreate_some (r := range) hentry
  obtain ⟨t₀, hun⟩ := unmapFirst_allOk (t := { t with mem := m }) hi.gpuaddr hle hlast
  have hfirst := unmapFirst_spec (t := { t with mem := m }) hi.gpuaddr hle hun
  have hb := hfirst.begins hi.gpuaddr hi.tidy hle
  obtain ⟨hsame, hranges, hmem, hptes⟩ := hfirst
  obtain ⟨ref, vbo, hc⟩ := hi.backed
  have hc₀ : Counted t₀.mem t₀.vbo.ranges (oneMore ref entry) (oneMore vbo entry) := by
    rw [hmem, hranges]
    exact hc.push (bindRangeCreate_oneMore hm)
  obtain ⟨t₁, hwalk, hw⟩ := walk_allOk hb ⟨_, _, hc₀⟩
  have hgpu₁ : t₁.vbo.gpuaddr ≠ 0 := hw.same.gpuaddr ▸ hb.gpuaddr
  have hchild : kgslMmuMapChild Mmu.allOk t₁.vbo start entry offset (last - start + 1) =
      some (t₁.vbo.setPtes start (last - start + 1) fun p =>
        .child entry ((p * pageSize - start + offset) / pageSize)) := by
    unfold kgslMmuMapChild
    rw [if_neg hgpu₁]
    rfl
  have hsize : t₁.vbo.size = t.vbo.size := hw.same.size.trans hsame.size
  -- outside of the bind the page table and what the tree maps are as before
  have hout : ∀ p, ¬ Under start last p → t₁.vbo.ptes p = t.vbo.ptes p := fun p hp => by
    rw [hw.outside p hp, hptes, if_neg fun hh => hp hh.2]
  have hmaps : ∀ p e c, ¬ Under start last p →
      (Maps t₁.vbo.ranges p e c ↔ Maps t.vbo.ranges p e c) := fun p e c hp => by
    rw [hw.maps p e c hp, hranges]
  have hfree : ∀ r ∈ t₁.vbo.ranges, ¬ Overlaps start last r := fun r hr ho =>
    absurd (hw.waiting r hr ho) List.not_mem_nil
  let v : Vbo := t₁.vbo.setPtes start (last - start + 1) fun p =>
    .child entry ((p * pageSize - start + offset) / pageSize)
  let t' : Target := { t₁ with vbo := v }.insert range
  have hptes' : ∀ p, t'.vbo.ptes p = bindPtes start last entry offset t.vbo.ptes p := fun p => by
    show (if inBytes start (last - start + 1) p then _ else t₁.vbo.ptes p) = _
    unfold bindPtes
    by_cases hp : Under start last p
    · rw [if_pos ((inBytes_iff hle).2 hp), if_pos hp]
    · rw [if_neg (mt (inBytes_iff hle).1 hp), if_neg hp, hout p hp]
  have hmem' : ∀ r, r ∈ t'.vbo.ranges ↔ r = range ∨ r ∈ t₁.vbo.ranges := fun r =>
    List.mem_orderedInsert _
  refine ⟨t', ?_, ⟨hgpu₁, ?_, ⟨fun r hr p hh => ?_, fun p hp hnone => ?_⟩, ref, vbo, ?_⟩, hsize,
    hptes'⟩
  · simp only [kgslMemdescAddRange]
    rw [hm]
    simp only [addRangeLocked]
    simp only [hun, hwalk, hchild, Option.bind_eq_bind, Option.bind_some, if_true]
    rfl
  · have htidy₁ : Tidy t₁.vbo.size t₁.vbo.ranges := hw.same.size ▸ hw.tidy
    refine htidy₁.insert hle (hsize ▸ hlast) fun x hx => ?_
    have := hfree x hx
    show x.last < start ∨ last < x.start
    unfold Overlaps at this
    omega
  · rw [hptes']
    unfold bindPtes
    rcases (hmem' r).1 hr with rfl | hr
    · exact if_pos hh
    · have hp : ¬ Under start last p := fun hp => hfree r hr (overlaps_of_has hh hp)
      rw [if_neg hp]
      obtain ⟨r₀, hr₀, hh₀, he, hcp⟩ := (hmaps p _ _ hp).1 ⟨r, hr, hh, rfl, rfl⟩
      rw [hi.agrees.bound r₀ hr₀ p hh₀, he, hcp]
  · have hp' : ¬ Under start last p := hnone range ((hmem' range).2 (.inl rfl))
    rw [hptes', bindPtes, if_neg hp']
    have hno : ∀ r ∈ t.vbo.ranges, ¬ r.has p := fun r hr hh => by
      obtain ⟨r₁, hr₁, hh₁, -⟩ := (hmaps p _ _ hp').2 ⟨r, hr, hh, rfl, rfl⟩
      exact hnone r₁ ((hmem' r₁).2 (.inr hr₁)) hh₁
    rw [hi.agrees.rest p (hsize ▸ hp) hno]
    unfold Vbo.unbound
    rw [show t'.vbo.noMapZero = t.vbo.noMapZero from hw.same.noMapZero.trans hsame.noMapZero]
  · have hc₁ := hw.counted _ _ hc₀
    exact (Counted.absorb (r := range) hc₁).perm (intervalTreeInsert_perm range _)

/-! ## Unbinding -/

/-- Taking a range out keeps the invariant. -/
theorem VboInv.removed (hi : VboInv t) (hr : r ∈ t.vbo.ranges) (h : Removed r t t') :
    VboInv t' := by
  obtain ⟨ref, vbo, hc⟩ := hi.backed
  have hmem : ∀ x, x ∈ t'.vbo.ranges → x ∈ t.vbo.ranges ∧ (x.last < r.start ∨ r.last < x.start) :=
    fun x hx => by
      rw [h.ranges] at hx
      exact ⟨List.mem_of_mem_erase hx, hi.tidy.apart_of_erase hr hx⟩
  refine ⟨h.same.gpuaddr ▸ hi.gpuaddr, ?_, ⟨fun x hx p hh => ?_, fun p hp hnone => ?_⟩,
    ref, vbo, ?_⟩
  · rw [h.ranges, h.same.size]
    exact hi.tidy.erase r
  · obtain ⟨hx, hout⟩ := hmem x hx
    have hnot : ¬ r.has p := by
      unfold BindRange.has at hh ⊢
      omega
    rw [h.ptes, if_neg hnot]
    exact hi.agrees.bound x hx p hh
  · rw [h.ptes]
    unfold Vbo.unbound
    rw [h.same.noMapZero]
    split
    · rfl
    · rename_i hnot
      refine hi.agrees.rest p (h.same.size ▸ hp) fun x hx hh => ?_
      have hne : x ≠ r := fun heq => hnot (heq ▸ hh)
      exact hnone x (h.ranges ▸ (List.mem_erase_of_ne hne).2 hx) hh
  · rw [h.mem, h.ranges]
    exact (hc.perm (List.perm_cons_erase hr).symm).destroy

/-- An unbind keeps the invariant. -/
theorem VboInv.removeRange (hi : VboInv t) (mmu : Mmu.Outcome) (start last : ℕ)
    (entry : Option ℕ) : VboInv (kgslMemdescRemoveRange mmu t start last entry) := by
  have visit : ∀ t r, VboInv t → r ∈ t.vbo.ranges →
      removeRangeVisit mmu entry t r = t ∨ Removed r t (removeRangeVisit mmu entry t r) :=
    fun t r hi hr => removeRangeVisit_cases hi.gpuaddr (hi.tidy.pos r hr) (hi.tidy.fits r hr)
  refine remove_rule (P := VboInv) (fun t r hi hr => ?_) (fun t r x hi hr hx hne => ?_) hi
    (hi.tidy.nodup.filter _) fun r hr => (mem_intervalTreeIter.1 hr).1
  · rcases visit t r hi hr with heq | hrem
    · rw [heq]
      exact hi
    · exact hi.removed hr hrem
  · rcases visit t r hi hr with heq | hrem
    · rw [heq]
      exact hx
    · rw [hrem.ranges]
      exact (List.mem_erase_of_ne hne).2 hx

/-! ## Runs -/

/-- The states binds and unbinds lead to from a VBO without ranges, when every call
    succeeds.  In between the children may gain and lose other references. -/
inductive BindRun : Target → Prop
  | init (noMapZero : Bool) (size gpuaddr : ℕ) (mem : Mem) (hgpu : gpuaddr ≠ 0) :
      BindRun ⟨Vbo.init noMapZero size gpuaddr, mem⟩
  | bind {t t' : Target} {done : Bool} (start last entry offset : ℕ) (ht : BindRun t)
      (hle : start ≤ last) (hlast : last < t.vbo.size) (hentry : t.mem.refcount entry ≠ 0)
      (h : kgslMemdescAddRange Mmu.allOk true t start last entry offset = some (t', done)) :
      BindRun t'
  | unbind {t : Target} (start last : ℕ) (entry : Option ℕ) (ht : BindRun t)
      (hle : start ≤ last) (hlast : last < t.vbo.size) :
      BindRun (kgslMemdescRemoveRange Mmu.allOk t start last entry)
  | others {t : Target} (mem : Mem) (ht : BindRun t) (hmem : Backed { t with mem := mem }) :
      BindRun { t with mem := mem }

theorem BindRun.inv (ht : BindRun t) : VboInv t := by
  induction ht with
  | init noMapZero size gpuaddr mem hgpu =>
    refine ⟨hgpu, ⟨?_, ?_, .nil⟩, ⟨?_, fun p hp _ => ?_⟩, mem.refcount, mem.vboCount,
      fun e => (Nat.zero_add _).symm, fun e => (Nat.zero_add _).symm⟩
    · exact fun r hr => absurd hr List.not_mem_nil
    · exact fun r hr => absurd hr List.not_mem_nil
    · exact fun r hr => absurd hr List.not_mem_nil
    · have hp : p * pageSize < size := hp
      show (if noMapZero then Pte.unmapped else if p * pageSize < size then .zero else .unmapped) =
        if noMapZero then .unmapped else .zero
      rw [if_pos hp]
  | bind start last entry offset _ hle hlast hentry h ih =>
    obtain ⟨t₁, h₁, hi, -⟩ := bind_spec offset ih hle hlast hentry
    obtain rfl := (Prod.mk.inj (Option.some.inj (h.symm.trans h₁))).1
    exact hi
  | unbind start last entry _ _ _ ih => exact ih.removeRange _ _ _ _
  | others mem _ hmem ih => exact ⟨ih.gpuaddr, ih.tidy, ih.agrees, hmem⟩

/-- The ranges of the tree are disjoint. -/
def RangesApart (v : Vbo) : Prop := v.ranges.Pairwise fun a b => a.last < b.start ∨ b.last < a.start

/-- **The page table agrees with the ranges** after any binds and unbinds: the ranges
    are disjoint, a page in one of them is the page of the child that the bind gave it,
    every other page is the zero page or, with `KGSL_MEMFLAGS_VBO_NO_MAP_ZERO`, not mapped.
    A bind inside the VBO succeeds and maps exactly its own pages. -/
theorem ranges_agree {t : Target} (ht : BindRun t) :
    RangesApart t.vbo ∧ Agrees t.vbo ∧
    ∀ start last entry offset, start ≤ last → last < t.vbo.size → t.mem.refcount entry ≠ 0 →
      ∃ t', kgslMemdescAddRange Mmu.allOk true t start last entry offset = some (t', true) ∧
        ∀ p, t'.vbo.ptes p = if Under start last p then
          .child entry ((p * pageSize - start + offset) / pageSize) else t.vbo.ptes p := by
  have hi := ht.inv
  refine ⟨hi.tidy.apart.imp .inl, hi.agrees, fun start last entry offset hle hlast hentry => ?_⟩
  obtain ⟨t', h, -, -, hptes⟩ := bind_spec offset hi hle hlast hentry
  exact ⟨t', h, hptes⟩

/-- Two children with one reference each. -/
def twoChildren : Mem := ⟨fun _ => 1, fun _ => 0⟩

/-- A bind of four pages, then one in the middle that splits it. -/
theorem ranges_agree_split : ∃ t : Target, t.vbo.ptes 3 = .child 1 3 ∧ t.vbo.ptes 1 = .child 2 7 ∧
    RangesApart t.vbo := by
  have h₀ : BindRun ⟨Vbo.init true 0x8000 0x10000, twoChildren⟩ := .init _ _ _ _ (by decide)
  have h₁ := h₀.bind 0 0x3fff 1 0 (by decide) (by decide) (by decide) rfl
  have h₂ := h₁.bind 0x1000 0x1fff 2 0x7000 (by decide) (by decide) (by decide) rfl
  exact ⟨_, by decide, by decide, (ranges_agree h₂).1⟩

end Sm8850.Kgsl
