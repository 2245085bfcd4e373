/-
  Memory of a child that a VBO maps is held, whatever MMU calls fail.

  * `Guarded`: the ranges are apart, and a page that maps a child lies in a range
    that names it, or the reference of such a range was kept for good.
  * `SplitsUnmapped` is what a bind needs: where it falls inside a range of a VBO
    that does not map the zero page, that unmap succeeds.  Otherwise the far side
    stays in the tree beside the whole range.
  * One theorem each for a bind, an unbind and a release: they keep `Guarded`, and
    the counters of the children follow the ranges.
-/
import Sm8850.Kgsl.VboRanges

namespace Sm8850.Kgsl

variable {mmu : Mmu.Outcome} {t t' t₀ : Target} {v : Vbo} {m m' : Mem} {r cur range : BindRange}
  {l next : List BindRange} {start last offset length entry e : ℕ} {ref vbo : ℕ → ℕ}

/-- What a page maps is named by a range it lies in, or leaked. -/
structure Guarded (v : Vbo) : Prop where
  tidy : Tidy v.size v.ranges
  held : ∀ p e c, v.ptes p = .child e c →
    (∃ r ∈ v.ranges, r.entry = e ∧ r.has p) ∨ ∃ r ∈ v.leaked, r.entry = e

/-- The unmap of a bind that splits a range succeeds. -/
def SplitsUnmapped (mmu : Mmu.Outcome) (v : Vbo) (start last : ℕ) : Prop :=
  v.noMapZero = true → ∀ cur ∈ v.ranges, cur.start < start → last < cur.last →
    mmu.unmap start (last - start + 1) = true

/-! ## Binding -/

/-- The loop of a bind leaves mapped what is still in a range. -/
theorem Walking.guarded (hw : Walking start last t₀ next t) (hg : Guarded t₀.vbo) :
    Guarded t.vbo where
  tidy := hw.same.size ▸ hw.tidy
  held p e c hp := by
    rw [hw.same.leaked]
    by_cases hu : Under start last p
    · rcases hw.inside p hu with hun | ⟨heq, hin⟩
      · cases hun.symm.trans hp
      · rcases hg.held p e c (heq ▸ hp) with ⟨r, hr, he, hh⟩ | hleak
        · exact .inl ⟨r, (hw.member r (hin r hr hh)).1, he, hh⟩
        · exact .inr hleak
    · rcases hg.held p e c (hw.outside p hu ▸ hp) with ⟨r, hr, he, hh⟩ | hleak
      · obtain ⟨r', hr', hh', he', -⟩ := (hw.maps p _ _ hu).2 ⟨r, hr, hh, rfl, rfl⟩
        exact .inl ⟨r', hr', he'.trans he, hh'⟩
      · exact .inr hleak

/-- What an operation keeps: the VBO is guarded, and the counters follow the ranges. -/
structure Kept (t t' : Target) : Prop where
  guarded : Guarded t'.vbo
  same : SameVbo t.vbo t'.vbo
  counted : ∀ ref vbo, Counted t.mem t.vbo.ranges ref vbo → Counted t'.mem t'.vbo.ranges ref vbo

theorem Kept.refl (hg : Guarded t.vbo) : Kept t t := ⟨hg, .refl _, fun _ _ h => h⟩

/-- The loop of a bind keeps the VBO guarded, also when it fails. -/
theorem addRangeWalk_kept (hb : Begins start last t₀) (hg : Guarded t₀.vbo)
    (hsplit : SplitsUnmapped mmu t₀.vbo start last) {done : Bool}
    (h : addRangeWalk mmu start last (intervalTreeIter t₀.vbo.ranges start last) t₀ =
      some (t, done)) :
    Kept t₀ t ∧ (done = true → Walking start last t₀ [] t) := by
  have hrule := walk_rule (P := Walking start last t₀) (Q := Kept t₀)
    (fun _ _ _ _ hw h => hw.go hb h) (fun cur next t t' hw h => ?_) hb.walking h
  · cases done with
    | true =>
      have hw := hrule.1 rfl
      exact ⟨⟨hw.guarded hg, hw.same, hw.counted⟩, fun _ => hw⟩
    | false => exact ⟨hrule.2 rfl, fun hd => Bool.noConfusion hd⟩
  · obtain ⟨hcur, hover⟩ := hw.member cur List.mem_cons_self
    have hgt := hw.guarded hg
    have hs := addRangeVisit_stopped hgt.tidy hcur (hw.same.gpuaddr ▸ hb.gpuaddr) hover h
    cases hs with
    | whole same hno hfail ranges tidy mem ptes =>
      refine ⟨⟨same.size ▸ tidy, fun p e c hp => ?_⟩, hw.same.trans same, fun ref vbo hc => ?_⟩
      · rw [ptes] at hp
        rw [same.leaked]
        refine (hgt.held p e c hp).imp_left fun ⟨r, hr, hrest⟩ => ⟨r, ?_, hrest⟩
        exact ranges.mem_iff.2 hr
      · rw [mem]
        exact (hw.counted ref vbo hc).perm ranges
    | split same hno hleft hright hfail =>
      have hok := hsplit (hw.same.noMapZero ▸ hno) cur (hw.old cur List.mem_cons_self) hleft hright
      exact absurd (hok.symm.trans hfail) Bool.noConfusion

/-- A range that was created and is not in the tree is given back. -/
theorem Counted.giveBack (h : Counted m l (oneMore ref range.entry) (oneMore vbo range.entry)) :
    Counted (bindRangeDestroy m range) l ref vbo :=
  h.absorb.destroy

/-- The rest of a bind, once its range was created. -/
theorem addRangeLocked_kept (hgpu : t.vbo.gpuaddr ≠ 0) (hg : Guarded t.vbo)
    (hle : range.start ≤ range.last) (hlast : range.last < t.vbo.size)
    (hsplit : SplitsUnmapped mmu t.vbo range.start range.last) {done : Bool}
    (h : addRangeLocked mmu t range = some (t', done)) :
    Guarded t'.vbo ∧ SameVbo t.vbo t'.vbo ∧
    ∀ ref vbo, Counted t.mem t.vbo.ranges (oneMore ref range.entry) (oneMore vbo range.entry) →
      Counted t'.mem t'.vbo.ranges ref vbo := by
  simp only [addRangeLocked] at h
  split at h
  · obtain rfl := (Prod.mk.inj (Option.some.inj h)).1
    exact ⟨hg, ⟨rfl, rfl, rfl, rfl⟩, fun ref vbo hc => hc.giveBack⟩
  · rename_i t₀ hun
    have hfirst := unmapFirst_spec hgpu hle hun
    have hb := hfirst.begins hgpu hg.tidy hle
    have hg₀ : Guarded t₀.vbo := by
      refine ⟨hb.tidy, fun p e c hp => ?_⟩
      rw [hfirst.ptes] at hp
      rw [hfirst.ranges, hfirst.same.leaked]
      split at hp
      · cases hp
      · exact hg.held p e c hp
    obtain ⟨⟨t₁, ok⟩, hwalk, h⟩ := Option.bind_eq_some_iff.1 h
    have hsplit₀ : SplitsUnmapped mmu t₀.vbo range.start range.last := by
      unfold SplitsUnmapped
      rw [hfirst.same.noMapZero, hfirst.ranges]
      exact hsplit
    obtain ⟨hk, hw⟩ := addRangeWalk_kept hb hg₀ hsplit₀ hwalk
    have hsame := hfirst.same.trans hk.same
    have hcount : ∀ ref vbo, Counted t.mem t.vbo.ranges (oneMore ref range.entry)
        (oneMore vbo range.entry) → Counted t₁.mem t₁.vbo.ranges (oneMore ref range.entry)
        (oneMore vbo range.entry) := fun ref vbo hc => by
      refine hk.counted _ _ ?_
      rw [hfirst.mem, hfirst.ranges]
      exact hc
    have hback : Guarded (t₁.destroy range).vbo ∧ SameVbo t.vbo (t₁.destroy range).vbo ∧
        ∀ ref vbo, Counted t.mem t.vbo.ranges (oneMore ref range.entry)
          (oneMore vbo range.entry) →
          Counted (t₁.destroy range).mem (t₁.destroy range).vbo.ranges ref vbo :=
      ⟨hk.guarded, hsame, fun ref vbo hc => (hcount ref vbo hc).giveBack⟩
    cases ok with
    | false =>
      obtain rfl := (Prod.mk.inj (Option.some.inj h)).1
      exact hback
    | true =>
      simp only [if_true] at h
      split at h
      · obtain rfl := (Prod.mk.inj (Option.some.inj h)).1
        exact hback
      · rename_i v hchild
        obtain rfl := (Prod.mk.inj (Option.some.inj h)).1
        have hchild' := fun {p e c} => @kgslMmuMapChild_child _ _ _ p e c _ hle hchild
        have hv := kgslMmuMapChild_eq hchild
        subst hv
        have hmem : ∀ r, r ∈ intervalTreeInsert range t₁.vbo.ranges ↔
            r = range ∨ r ∈ t₁.vbo.ranges := fun r => List.mem_orderedInsert _
        refine ⟨⟨?_, fun p e c hp => ?_⟩, hsame.trans ⟨rfl, rfl, rfl, rfl⟩, fun ref vbo hc => ?_⟩
        · refine hk.guarded.tidy.insert hle (hsame.size ▸ hlast) fun x hx => ?_
          have hno : ¬ Overlaps range.start range.last x := fun ho =>
            absurd ((hw rfl).waiting x hx ho) List.not_mem_nil
          unfold Overlaps at hno
          omega
        · rcases hchild' hp with ⟨he, hh⟩ | hp
          · exact .inl ⟨range, (hmem range).2 (.inl rfl), he, hh⟩
          · exact (hk.guarded.held p e c hp).imp_left fun ⟨r, hr, hrest⟩ =>
              ⟨r, (hmem r).2 (.inr hr), hrest⟩
        · exact (hcount ref vbo hc).absorb.perm (intervalTreeInsert_perm range _)

/-- **A bind keeps the VBO guarded** if its unmap succeeds where it splits a range. -/
theorem addRange_kept (hgpu : t.vbo.gpuaddr ≠ 0) (hg : Guarded t.vbo) (hle : start ≤ last)
    (hlast : last < t.vbo.size) {alloc : Bool}
    (hsplit : alloc = true → SplitsUnmapped mmu t.vbo start last) {done : Bool}
    (h : kgslMemdescAddRange mmu alloc t start last entry offset = some (t', done)) :
    Kept t t' := by
  simp only [kgslMemdescAddRange] at h
  split at h
  · obtain rfl := (Prod.mk.inj (Option.some.inj h)).1
    exact .refl hg
  · rename_i m hm
    have halloc : alloc = true := by
      unfold bindRangeCreate at hm
      split at hm
      · assumption
      · cases hm
    have hk := addRangeLocked_kept (t := { t with mem := m }) hgpu hg hle hlast (hsplit halloc) h
    exact ⟨hk.1, hk.2.1, fun ref vbo hc => hk.2.2 ref vbo (hc.push (bindRangeCreate_oneMore hm))⟩

/-! ## Unbinding -/

/-- Taking a range out keeps the VBO guarded. -/
theorem Kept.removed (hg : Guarded t.vbo) (hr : r ∈ t.vbo.ranges) (h : Removed r t t') :
    Kept t t' := by
  refine ⟨⟨?_, fun p e c hp => ?_⟩, h.same, fun ref vbo hc => ?_⟩
  · rw [h.ranges, h.same.size]
    exact hg.tidy.erase r
  · obtain ⟨hnot, hp⟩ := h.child hp
    rw [h.same.leaked]
    exact (hg.held p e c hp).imp_left fun ⟨x, hx, he, hh⟩ => ⟨x, h.stays hnot hx hh, he, hh⟩
  · rw [h.mem, h.ranges]
    exact (hc.perm (List.perm_cons_erase hr).symm).destroy

theorem Kept.trans {t₁ t₂ t₃ : Target} (h : Kept t₁ t₂) (h' : Kept t₂ t₃) : Kept t₁ t₃ :=
  ⟨h'.guarded, h.same.trans h'.same, fun ref vbo hc => h'.counted ref vbo (h.counted ref vbo hc)⟩

/-- **An unbind keeps the VBO guarded.** -/
theorem removeRange_kept (hgpu : t.vbo.gpuaddr ≠ 0) (hg : Guarded t.vbo) (mmu : Mmu.Outcome)
    (start last : ℕ) (entry : Option ℕ) :
    Kept t (kgslMemdescRemoveRange mmu t start last entry) := by
  have visit : ∀ t' r, Kept t t' → r ∈ t'.vbo.ranges →
      removeRangeVisit mmu entry t' r = t' ∨ Removed r t' (removeRangeVisit mmu entry t' r) :=
    fun t' r hk hr => removeRangeVisit_cases (hk.same.gpuaddr ▸ hgpu)
      (hk.guarded.tidy.pos r hr) (hk.guarded.tidy.fits r hr)
  refine remove_rule (P := Kept t) (fun t' r hk hr => ?_) (fun t' r x hk hr hx hne => ?_)
    (.refl hg) (hg.tidy.nodup.filter _) fun r hr => (mem_intervalTreeIter.1 hr).1
  · rcases visit t' r hk hr with heq | hrem
    · rw [heq]
      exact hk
    · exact hk.trans (.removed hk.guarded hr hrem)
  · rcases visit t' r hk hr with heq | hrem
    · rw [heq]
      exact hx
    · rw [hrem.ranges]
      exact (List.mem_erase_of_ne hne).2 hx

/-! ## Releasing -/

/-- The ranges that hold a reference: those of the tree, and those that leaked. -/
def Vbo.claims (v : Vbo) : List BindRange := v.ranges ++ v.leaked

/-- The state of the loop of a release, compared with the one it began with. -/
structure Releasing (whole : Bool) (t₀ t : Target) : Prop where
  noMapZero : t.vbo.noMapZero = t₀.vbo.noMapZero
  size : t.vbo.size = t₀.vbo.size
  gpuaddr : t.vbo.gpuaddr = t₀.vbo.gpuaddr
  guarded : Guarded t.vbo
  bare : t.vbo.noMapZero = false → whole = true → ∀ p e c, t.vbo.ptes p = .child e c →
    ∃ r ∈ t.vbo.leaked, r.entry = e
  counted : ∀ ref vbo, Counted t₀.mem t₀.vbo.claims ref vbo → Counted t.mem t.vbo.claims ref vbo

theorem claims_erase (hr : r ∈ l) (l' : List BindRange) :
    (l ++ l').Perm (r :: (l.erase r ++ l')) :=
  (List.perm_cons_erase hr).append_right l'

/-- The reference of a range is given back once its pages are unmapped. -/
theorem Releasing.destroy {whole : Bool} (h : Releasing whole t₀ t) (hr : r ∈ t.vbo.ranges)
    (hptes : ∀ p, v.ptes p = t.vbo.ptes p ∨ v.ptes p = .unmapped)
    (hgone : ∀ p e c, v.ptes p = .child e c → r.has p → ∃ x ∈ t.vbo.leaked, x.entry = e)
    (hv : SameVbo t.vbo v) (hranges : v.ranges = t.vbo.ranges.erase r) :
    Releasing whole t₀ (Target.destroy ⟨v, t.mem⟩ r) where
  noMapZero := hv.noMapZero.trans h.noMapZero
  size := hv.size.trans h.size
  gpuaddr := hv.gpuaddr.trans h.gpuaddr
  guarded := by
    refine ⟨?_, fun p e c hp => ?_⟩
    · show Tidy v.size v.ranges
      rw [hv.size, hranges]
      exact h.guarded.tidy.erase r
    · show (∃ x ∈ v.ranges, _) ∨ ∃ x ∈ v.leaked, _
      have hp : v.ptes p = .child e c := hp
      rw [hranges, hv.leaked]
      rcases hptes p with heq | hun
      · rcases h.guarded.held p e c (heq ▸ hp) with ⟨x, hx, he, hh⟩ | hleak
        · by_cases hxr : x = r
          · exact .inr (hgone p e c hp (hxr ▸ hh))
          · exact .inl ⟨x, (List.mem_erase_of_ne hxr).2 hx, he, hh⟩
        · exact .inr hleak
      · cases hun.symm.trans hp
  bare hno hwhole p e c hp := by
    show ∃ x ∈ v.leaked, _
    rw [hv.leaked]
    rcases hptes p with heq | hun
    · exact h.bare (hv.noMapZero ▸ hno) hwhole p e c (heq ▸ hp)
    · cases hun.symm.trans hp
  counted ref vbo hc := by
    have hc' := (h.counted ref vbo hc).perm (claims_erase hr t.vbo.leaked).symm
    show Counted (bindRangeDestroy t.mem r) (v.ranges ++ v.leaked) ref vbo
    rw [hranges, hv.leaked]
    exact hc'.destroy

/-- The reference of a range is kept if its pages could not be unmapped. -/
theorem Releasing.leak {whole : Bool} (h : Releasing whole t₀ t) (hr : r ∈ t.vbo.ranges) :
    Releasing whole t₀ ((t.remove r).leak r) where
  noMapZero := h.noMapZero
  size := h.size
  gpuaddr := h.gpuaddr
  guarded := by
    refine ⟨h.guarded.tidy.erase r, fun p e c hp => ?_⟩
    rcases h.guarded.held p e c hp with ⟨x, hx, he, hh⟩ | ⟨x, hx, he⟩
    · by_cases hxr : x = r
      · exact .inr ⟨r, List.mem_cons_self, hxr ▸ he⟩
      · exact .inl ⟨x, (List.mem_erase_of_ne hxr).2 hx, he, hh⟩
    · exact .inr ⟨x, List.mem_cons_of_mem _ hx, he⟩
  bare hno hwhole p e c hp := by
    obtain ⟨x, hx, he⟩ := h.bare hno hwhole p e c hp
    exact ⟨x, List.mem_cons_of_mem _ hx, he⟩
  counted ref vbo hc :=
    ((h.counted ref vbo hc).perm (claims_erase hr t.vbo.leaked).symm).perm List.perm_middle

/-- A visit of the loop of a release. -/
theorem Releasing.visit (mmu : Mmu.Outcome) {whole : Bool} {s : Target × Bool}
    (hgpu : t₀.vbo.gpuaddr ≠ 0) (h : Releasing whole t₀ s.1) (hr : r ∈ s.1.vbo.ranges) :
    Releasing whole t₀ (putGpuaddrVisit mmu whole s r).1 ∧
    (putGpuaddrVisit mmu whole s r).1.vbo.ranges = s.1.vbo.ranges.erase r := by
  have hle := h.guarded.tidy.pos r hr
  have hgpu' : (s.1.remove r).vbo.gpuaddr ≠ 0 := h.gpuaddr ▸ hgpu
  simp only [putGpuaddrVisit]
  split
  · split
    · exact ⟨h.leak hr, rfl⟩
    · rename_i v hv
      obtain rfl := kgslMmuUnmapRange_eq hgpu' hv
      refine ⟨h.destroy hr (fun p => ?_) (fun p e c hp hh => ?_) ⟨rfl, rfl, rfl, rfl⟩ rfl, rfl⟩
      · show (if _ then Pte.unmapped else s.1.vbo.ptes p) = _ ∨ (if _ then _ else _) = _
        split
        · exact .inr rfl
        · exact .inl rfl
      · have hin : inBytes r.start (r.last - r.start + 1) p := (inBytes_iff hle).2 hh
        cases (if_pos hin).symm.trans hp
  · rename_i hno
    have hno : s.1.vbo.noMapZero = false := Bool.eq_false_iff.2 hno
    split
    · rename_i hwhole
      refine ⟨h.destroy (v := (s.1.remove r).vbo) hr (fun p => .inl rfl)
        (fun p e c hp _ => h.bare hno hwhole p e c hp) ⟨rfl, rfl, rfl, rfl⟩ rfl, rfl⟩
    · exact ⟨h.leak hr, rfl⟩

theorem Releasing.walk (mmu : Mmu.Outcome) {whole : Bool} {s : Target × Bool}
    (hgpu : t₀.vbo.gpuaddr ≠ 0) (h : Releasing whole t₀ s.1)
    (hnext : ∀ r ∈ next, r ∈ s.1.vbo.ranges) (hnodup : next.Nodup) :
    Releasing whole t₀ (next.foldl (putGpuaddrVisit mmu whole) s).1 := by
  induction next generalizing s with
  | nil => exact h
  | cons r next ih =>
    obtain ⟨hnot, hnodup⟩ := List.nodup_cons.1 hnodup
    obtain ⟨hv, hranges⟩ := h.visit mmu hgpu (hnext r List.mem_cons_self)
    refine ih hv (fun x hx => ?_) hnodup
    rw [hranges]
    exact (List.mem_erase_of_ne fun (heq : x = r) => hnot (heq ▸ hx)).2
      (hnext x (List.mem_cons_of_mem _ hx))

/-- The loop of a release takes every range out. -/
theorem Releasing.walk_ranges (mmu : Mmu.Outcome) {whole : Bool} {s : Target × Bool}
    (hgpu : t₀.vbo.gpuaddr ≠ 0) (h : Releasing whole t₀ s.1)
    (hnext : next = s.1.vbo.ranges) (hnodup : next.Nodup) :
    (next.foldl (putGpuaddrVisit mmu whole) s).1.vbo.ranges = [] := by
  induction next generalizing s with
  | nil => exact hnext.symm
  | cons r next ih =>
    obtain ⟨-, hnodup⟩ := List.nodup_cons.1 hnodup
    obtain ⟨hv, hranges⟩ := h.visit mmu hgpu (hnext ▸ List.mem_cons_self)
    refine ih hv ?_ hnodup
    rw [hranges, ← hnext, List.erase_cons_head]

/-- The state in which the loop of a release begins. -/
theorem Releasing.begin (mmu : Mmu.Outcome) (hgpu : t.vbo.gpuaddr ≠ 0) (hg : Guarded t.vbo) :
    Releasing (t.unmapFirst mmu 0 t.vbo.size).isSome t
      ((t.unmapFirst mmu 0 t.vbo.size).getD t) := by
  have hself : ∀ whole : Bool, (t.vbo.noMapZero = false → whole = false) → Releasing whole t t :=
    fun whole hno => ⟨rfl, rfl, rfl, hg,
      fun h hw => absurd (hw.symm.trans (hno h)) Bool.noConfusion, fun _ _ hc => hc⟩
  cases h : t.unmapFirst mmu 0 t.vbo.size with
  | none => exact hself false fun _ => rfl
  | some t' =>
    simp only [Target.unmapFirst] at h
    split at h
    · rename_i hno
      obtain rfl := Option.some.inj h
      exact hself true fun h => absurd (hno.symm.trans h) Bool.noConfusion
    · obtain ⟨v, hv, rfl⟩ := Option.map_eq_some_iff.1 h
      obtain rfl := kgslMmuUnmapRange_eq hgpu hv
      -- what is still mapped was not in a range, so it leaked
      have hptes : ∀ p e c, (t.vbo.setPtes 0 t.vbo.size fun _ => .unmapped).ptes p = .child e c →
          ∃ r ∈ t.vbo.leaked, r.entry = e := by
        intro p e c hp
        have hp : (if inBytes 0 t.vbo.size p then Pte.unmapped else t.vbo.ptes p) = .child e c := hp
        split at hp
        · cases hp
        · rename_i hnot
          rcases hg.held p e c hp with ⟨r, hr, -, hh⟩ | hleak
          · have := hg.tidy.fits r hr
            refine absurd ⟨Nat.zero_le _, ?_⟩ hnot
            have := hh.2
            omega
          · exact hleak
      exact ⟨rfl, rfl, rfl, ⟨hg.tidy, fun p e c hp => .inr (hptes p e c hp)⟩,
        fun _ _ => hptes, fun _ _ hc => hc⟩

/-- Every unmap of a release succeeds. -/
def Mmu.Outcome.unmaps (mmu : Mmu.Outcome) : Prop := ∀ offset length, mmu.unmap offset length = true

/-- Nothing leaks where every unmap succeeds. -/
theorem Releasing.visit_leaked {whole : Bool} {s : Target × Bool} (hgpu : t₀.vbo.gpuaddr ≠ 0)
    (h : Releasing whole t₀ s.1) (hr : r ∈ s.1.vbo.ranges) (hmmu : mmu.unmaps)
    (hwhole : s.1.vbo.noMapZero = false → whole = true) :
    (putGpuaddrVisit mmu whole s r).1.vbo.leaked = s.1.vbo.leaked ∧
    (putGpuaddrVisit mmu whole s r).1.vbo.noMapZero = s.1.vbo.noMapZero := by
  have hfits := h.guarded.tidy.fits r hr
  have hle := h.guarded.tidy.pos r hr
  have hgpu' : (s.1.remove r).vbo.gpuaddr ≠ 0 := h.gpuaddr ▸ hgpu
  simp only [putGpuaddrVisit]
  split
  · split
    · rename_i hnone
      have hfits' : r.start + (r.last - r.start + 1) ≤ (s.1.remove r).vbo.size := by
        show _ ≤ s.1.vbo.size
        omega
      have hfail := kgslMmuUnmapRange_none hgpu' (Nat.succ_pos _) hfits' hnone
      cases (hmmu _ _).symm.trans hfail
    · rename_i v hv
      obtain rfl := kgslMmuUnmapRange_eq hgpu' hv
      exact ⟨rfl, rfl⟩
  · rename_i hno
    rw [if_pos (hwhole (Bool.eq_false_iff.2 hno))]
    exact ⟨rfl, rfl⟩

theorem Releasing.walk_leaked {whole : Bool} {s : Target × Bool} (hgpu : t₀.vbo.gpuaddr ≠ 0)
    (h : Releasing whole t₀ s.1) (hnext : ∀ r ∈ next, r ∈ s.1.vbo.ranges) (hnodup : next.Nodup)
    (hmmu : mmu.unmaps) (hwhole : next ≠ [] → s.1.vbo.noMapZero = false → whole = true) :
    (next.foldl (putGpuaddrVisit mmu whole) s).1.vbo.leaked = s.1.vbo.leaked := by
  induction next generalizing s with
  | nil => rfl
  | cons r next ih =>
    obtain ⟨hnot, hnodup⟩ := List.nodup_cons.1 hnodup
    obtain ⟨hv, hranges⟩ := h.visit mmu hgpu (hnext r List.mem_cons_self)
    obtain ⟨hleak, hno⟩ := h.visit_leaked hgpu (hnext r List.mem_cons_self) hmmu
      (hwhole (List.cons_ne_nil _ _))
    refine (ih hv (fun x hx => ?_) hnodup fun _ => ?_).trans hleak
    · rw [hranges]
      exact (List.mem_erase_of_ne fun (heq : x = r) => hnot (heq ▸ hx)).2
        (hnext x (List.mem_cons_of_mem _ hx))
    · rw [hno]
      exact hwhole (List.cons_ne_nil _ _)

/-- What a release keeps. -/
structure Released (mmu : Mmu.Outcome) (t t' : Target) : Prop where
  guarded : Guarded t'.vbo
  ranges : t'.vbo.ranges = []
  leaked : mmu.unmaps → t'.vbo.leaked = t.vbo.leaked
  counted : ∀ ref vbo, Counted t.mem t.vbo.claims ref vbo → Counted t'.mem t'.vbo.claims ref vbo

theorem unmapFirst_leaked (hgpu : t.vbo.gpuaddr ≠ 0) :
    ((t.unmapFirst mmu offset length).getD t).vbo.leaked = t.vbo.leaked := by
  unfold Target.unmapFirst
  split
  · rfl
  · cases h : kgslMmuUnmapRange mmu t.vbo offset length with
    | none => rfl
    | some v =>
      obtain rfl := kgslMmuUnmapRange_eq hgpu h
      rfl

/-- **A release keeps the VBO guarded**: what it cannot unmap leaks. -/
theorem putGpuaddr_released (hgpu : t.vbo.gpuaddr ≠ 0) (hg : Guarded t.vbo)
    (mmu : Mmu.Outcome) : Released mmu t (kgslSharedmemVboPutGpuaddr mmu t) := by
  have hb := Releasing.begin mmu hgpu hg
  let s := ((t.unmapFirst mmu 0 t.vbo.size).getD t, (t.unmapFirst mmu 0 t.vbo.size).isNone)
  have hw := hb.walk mmu (s := s) hgpu (fun _ hr => hr) hb.guarded.tidy.nodup
  have hr := hb.walk_ranges mmu (s := s) hgpu rfl hb.guarded.tidy.nodup
  have hl : mmu.unmaps → _ := fun hmmu => (hb.walk_leaked (s := s) hgpu (fun _ hr => hr)
    hb.guarded.tidy.nodup hmmu fun hne hno => ?_).trans (unmapFirst_leaked hgpu)
  · simp only [kgslSharedmemVboPutGpuaddr]
    split
    · exact ⟨hw.guarded, hr, hl, hw.counted⟩
    · exact ⟨⟨hw.guarded.tidy, hw.guarded.held⟩, hr, hl, hw.counted⟩
  · -- a VBO with a range is not empty, so the unmap of the whole of it succeeds
    have hno : t.vbo.noMapZero = false := hb.noMapZero ▸ hno
    obtain ⟨r, hr⟩ := List.exists_mem_of_ne_nil _ hne
    have hpos : 0 < t.vbo.size := hb.size ▸ (Nat.zero_le _).trans_lt (hb.guarded.tidy.fits r hr)
    have hsome : kgslMmuUnmapRange mmu t.vbo 0 t.vbo.size ≠ none := fun hnone => by
      have hfail := kgslMmuUnmapRange_none hgpu hpos (Nat.zero_add _).le hnone
      cases (hmmu _ _).symm.trans hfail
    obtain ⟨v, hv⟩ := Option.ne_none_iff_exists'.1 hsome
    simp only [Target.unmapFirst, hno, hv]
    rfl

end Sm8850.Kgsl
