/-
  What an unbind does to the pages of a VBO.

  * `Sound` is what every run keeps, also one where unmaps fail: the ranges lie inside the
    VBO, and a page that maps a child lies in a range of that child.
  * `removeRange_effect`: with every unmap successful the loop takes out exactly the ranges
    of the child that overlap the window, and unmaps all their pages.
  * **`unbind_exact_iff`**: so an unbind does what was asked for just if the ranges it takes
    out have no pages of their own outside of the window.
-/
import Sm8850.Kgsl.HeldRuns

namespace Sm8850.Kgsl

variable {mmu : Mmu.Outcome} {t t' t₀ : Target} {v v' : Vbo} {r cur range : BindRange}
  {l next : List BindRange} {entry : Option ℕ} {start last p : ℕ}

/-! ## Statement -/

/-- The unbind is about ranges of this child; `none` stands for every child. -/
def OfChild (entry : Option ℕ) (r : BindRange) : Prop := ∀ e ∈ entry, r.entry = e

/-- The page is one of those to be unbound: a page of the window that belongs to `entry`. -/
def Requested (v : Vbo) (start last : ℕ) (entry : Option ℕ) (p : ℕ) : Prop :=
  Under start last p ∧ (entry = none ∨ ∃ r ∈ v.ranges, entry = some r.entry ∧ r.has p)

/-- **Exactly the requested pages are affected**: they map no child and lie in no range of
    the child; the others map what they did and stay in a range of their child. -/
structure UnbindsExactly (start last : ℕ) (entry : Option ℕ) (v v' : Vbo) : Prop where
  gone : ∀ p, Requested v start last entry p →
    (∀ e c, v'.ptes p ≠ .child e c) ∧ ∀ r ∈ v'.ranges, OfChild entry r → ¬ r.has p
  kept : ∀ p, ¬ Requested v start last entry p → v'.ptes p = v.ptes p ∧
    ∀ r ∈ v.ranges, r.has p → ∃ r' ∈ v'.ranges, r'.entry = r.entry ∧ r'.has p

/-- A range of the child that overlaps the window has no page outside of it, but for those
    that map nothing any more and lie also in a range of the child out of reach. -/
def StaysInside (start last : ℕ) (entry : Option ℕ) (v : Vbo) : Prop :=
  ∀ r ∈ v.ranges, Overlaps start last r → OfChild entry r → ∀ p, r.has p →
    Under start last p ∨ v.ptes p = v.unbound ∧
      ∃ r' ∈ v.ranges, ¬ Overlaps start last r' ∧ r'.entry = r.entry ∧ r'.has p

/-! ## What every bind keeps -/

/-- The ranges lie in the VBO, and a page that maps a child lies in a range of it. -/
structure Sound (v : Vbo) : Prop where
  fits : ∀ r ∈ v.ranges, r.start ≤ r.last ∧ r.last < v.size
  held : ∀ p e c, v.ptes p = .child e c → ∃ r ∈ v.ranges, r.entry = e ∧ r.has p

/-- A range may be replaced by others that hold those of its pages that map a child still. -/
theorem Sound.replace (h : Sound v) (hsize : v'.size = v.size)
    (hfits : ∀ r ∈ v'.ranges, r ∈ v.ranges ∨ r.start ≤ r.last ∧ r.last < v.size)
    (hkeep : ∀ r ∈ v.ranges, r ≠ cur → r ∈ v'.ranges)
    (hptes : ∀ p e c, v'.ptes p = .child e c → v.ptes p = .child e c ∧
      (cur.has p → ∃ r ∈ v'.ranges, r.entry = cur.entry ∧ r.has p)) : Sound v' where
  fits r hr := by
    rw [hsize]
    exact (hfits r hr).elim (h.fits r) id
  held p e c hp := by
    obtain ⟨hp, hcur⟩ := hptes p e c hp
    obtain ⟨r, hr, he, hh⟩ := h.held p e c hp
    by_cases heq : r = cur
    · subst heq
      obtain ⟨r', hr', he', hh'⟩ := hcur hh
      exact ⟨r', hr', he'.trans he, hh'⟩
    · exact ⟨r, hkeep r hr heq, he, hh⟩

/-- The state of the loop of a bind: sound, and in a VBO that maps the zero page no page of
    the window maps a child. -/
structure Trimming (start last : ℕ) (t₀ t : Target) : Prop where
  same : SameVbo t₀.vbo t.vbo
  sound : Sound t.vbo
  zero : t₀.vbo.noMapZero = false → ∀ p, Under start last p → ∀ e c, t.vbo.ptes p ≠ .child e c

theorem mem_insert {x : BindRange} : x ∈ (t.insert r).vbo.ranges ↔ x = r ∨ x ∈ t.vbo.ranges :=
  List.mem_orderedInsert _

/-- The page table after a part of a range was unmapped. -/
theorem PartGone.child {offset length e c : ℕ} (h : PartGone offset length t t')
    (hp : t'.vbo.ptes p = .child e c) : t.vbo.ptes p = .child e c ∧
      (t.vbo.noMapZero = true → ¬ inBytes offset length p) := by
  rw [h.ptes] at hp
  split at hp
  · cases hp
  · rename_i hnot
    exact ⟨hp, fun hno hin => hnot ⟨hno, hin⟩⟩

/-- The far side of a range that is split. -/
theorem splitFarSide_mem (h : splitFarSide last cur t = some t') : SameVbo t.vbo t'.vbo ∧
    t'.vbo.ptes = t.vbo.ptes ∧ ∀ x, x ∈ t'.vbo.ranges ↔
      (last < cur.last ∧ x = { cur with start := last + 1 }) ∨ x ∈ t.vbo.ranges := by
  unfold splitFarSide at h
  split at h
  · rename_i hlt
    obtain ⟨m, -, rfl⟩ := Option.map_eq_some_iff.1 h
    refine ⟨⟨rfl, rfl, rfl, rfl⟩, rfl, fun x => mem_insert.trans (or_congr_left ?_)⟩
    exact (and_iff_right hlt).symm
  · rename_i hge
    obtain rfl := Option.some.inj h
    refine ⟨.refl _, rfl, fun x => ⟨.inr, ?_⟩⟩
    rintro (⟨hlt, -⟩ | hx)
    · exact absurd hlt hge
    · exact hx

/-- A visit that keeps the other ranges, and covers what still maps a child of its own. -/
theorem Trimming.visit (cur : BindRange) (h : Trimming start last t₀ t)
    (hsame : SameVbo t.vbo t'.vbo)
    (hfits : ∀ x ∈ t'.vbo.ranges, x ∈ t.vbo.ranges ∨ x.start ≤ x.last ∧ x.last < t.vbo.size)
    (hkeep : ∀ x ∈ t.vbo.ranges, x ≠ cur → x ∈ t'.vbo.ranges)
    (hold : ∀ p e c, t'.vbo.ptes p = .child e c → t.vbo.ptes p = .child e c)
    (hcover : ∀ p e c, t'.vbo.ptes p = .child e c → cur.has p →
      (∃ x ∈ t'.vbo.ranges, x.entry = cur.entry ∧ x.has p) ∨
        Under start last p ∧ t.vbo.noMapZero = false) : Trimming start last t₀ t' where
  same := h.same.trans hsame
  sound := by
    refine h.sound.replace hsame.size hfits hkeep fun p e c hp => ⟨hold p e c hp, fun hh => ?_⟩
    rcases hcover p e c hp hh with hr | ⟨hin, hno⟩
    · exact hr
    · exact absurd (hold p e c hp) (h.zero (h.same.noMapZero ▸ hno) p hin e c)
  zero hno p hin e c hp := h.zero hno p hin e c (hold p e c hp)

theorem mem_remove_of_ne {x : BindRange} (hx : x ∈ t.vbo.ranges) (hne : x ≠ cur) :
    x ∈ (t.remove cur).vbo.ranges :=
  (List.mem_erase_of_ne hne).2 hx

/-- A visit whose unmap fails puts the range back. -/
theorem Trimming.insert_back (h : Trimming start last t₀ t) (hsame : SameVbo t.vbo t'.vbo)
    (hptes : t'.vbo.ptes = t.vbo.ptes)
    (hcur : cur.start ≤ cur.last ∧ cur.last < t.vbo.size)
    (hfits : ∀ x ∈ t'.vbo.ranges, x ∈ t.vbo.ranges ∨ x.start ≤ x.last ∧ x.last < t.vbo.size)
    (hkeep : ∀ x ∈ t.vbo.ranges, x ≠ cur → x ∈ t'.vbo.ranges) :
    Trimming start last t₀ (t'.insert cur) := by
  refine h.visit cur (hsame.trans (sameVbo_insert t' cur)) (fun x hx => ?_)
    (fun x hx hne => mem_insert.2 (.inr (hkeep x hx hne))) (fun p e c hp => ?_)
    fun p e c hp hh => .inl ⟨cur, mem_insert.2 (.inl rfl), rfl, hh⟩
  · rcases mem_insert.1 hx with rfl | hx
    · exact .inr hcur
    · exact hfits x hx
  · rw [← hptes]
    exact hp

/-- **Every visit of a bind keeps the VBO sound**, whether its unmap succeeds or not. -/
theorem Trimming.go (hgpu : t₀.vbo.gpuaddr ≠ 0) (h : Trimming start last t₀ t)
    (hcur : cur.start ≤ cur.last ∧ cur.last < t.vbo.size) (hover : Overlaps start last cur)
    {done : Bool} (hv : addRangeVisit mmu start last cur t = some (t', done)) :
    Trimming start last t₀ t' := by
  have hgpu : (t.remove cur).vbo.gpuaddr ≠ 0 := h.same.gpuaddr ▸ hgpu
  obtain ⟨hpos, hlt⟩ := hcur
  obtain ⟨ho₁, ho₂⟩ := hover
  have hold : ∀ x ∈ (t.remove cur).vbo.ranges,
      x ∈ t.vbo.ranges ∨ x.start ≤ x.last ∧ x.last < t.vbo.size :=
    fun x hx => .inl (List.mem_of_mem_erase hx)
  have hback : Trimming start last t₀ ((t.remove cur).insert cur) :=
    h.insert_back (sameVbo_remove t cur) rfl ⟨hpos, hlt⟩ hold fun x => mem_remove_of_ne
  simp only [addRangeVisit] at hv
  split at hv
  · split at hv
    · -- the entire range goes
      split at hv
      · obtain rfl := (Prod.mk.inj (Option.some.inj hv)).1
        exact hback
      · rename_i t₁ hunmap
        obtain rfl := (Prod.mk.inj (Option.some.inj hv)).1
        have hg := unmapPart_gone hgpu hunmap
        have hranges : (t₁.destroy cur).vbo.ranges = (t.remove cur).vbo.ranges := hg.ranges
        refine h.visit cur ((sameVbo_remove t cur).trans hg.same) (fun x hx => ?_)
          (fun x hx hne => ?_)
          (fun p e c hp => (hg.child hp).1) fun p e c hp hh => .inr ?_
        · exact hold x (hranges ▸ hx)
        · exact hranges ▸ mem_remove_of_ne hx hne
        · obtain ⟨-, hin⟩ := hg.child hp
          refine ⟨⟨?_, ?_⟩, Bool.eq_false_iff.2 fun hno => hin hno ?_⟩
          · exact Nat.le_trans ‹_› hh.1
          · exact Nat.le_trans hh.2 ‹_›
          · exact (inBytes_iff hpos).2 hh
    · -- its end remains
      split at hv
      · obtain rfl := (Prod.mk.inj (Option.some.inj hv)).1
        exact hback
      · rename_i hlast _ t₁ hunmap
        obtain rfl := (Prod.mk.inj (Option.some.inj hv)).1
        have hg := unmapPart_gone hgpu hunmap
        have hranges : t₁.vbo.ranges = (t.remove cur).vbo.ranges := hg.ranges
        refine h.visit cur (hg.sameVbo (sameVbo_remove t cur) (sameVbo_insert t₁ _))
          (fun x hx => ?_) (fun x hx hne => ?_) (fun p e c hp => (hg.child hp).1)
          fun p e c hp hh => ?_
        · rcases mem_insert.1 hx with rfl | hx
          · exact .inr ⟨by show last + 1 ≤ cur.last; omega, hlt⟩
          · exact hold x (hranges ▸ hx)
        · exact mem_insert.2 (.inr (hranges ▸ mem_remove_of_ne hx hne))
        · obtain ⟨-, hin⟩ := hg.child hp
          by_cases hfar : last < p * pageSize
          · exact .inl ⟨_, mem_insert.2 (.inl rfl), rfl, hfar, hh.2⟩
          · refine .inr ⟨⟨Nat.le_trans ‹_› hh.1, Nat.le_of_not_lt hfar⟩,
              Bool.eq_false_iff.2 fun hno => hin hno ?_⟩
            obtain ⟨hh₁, -⟩ := hh
            constructor
            · exact hh₁
            · omega
  · rename_i hstart
    obtain ⟨t₁, hsplit, hv⟩ := Option.bind_eq_some_iff.1 hv
    obtain ⟨hsame, hptes, hmem⟩ := splitFarSide_mem hsplit
    have hsame : SameVbo t.vbo t₁.vbo := (sameVbo_remove t cur).trans hsame
    have hfits : ∀ x ∈ t₁.vbo.ranges,
        x ∈ t.vbo.ranges ∨ x.start ≤ x.last ∧ x.last < t.vbo.size := fun x hx => by
      rcases (hmem x).1 hx with ⟨hfar, rfl⟩ | hx
      · exact .inr ⟨hfar, hlt⟩
      · exact hold x hx
    have hkeep : ∀ x ∈ t.vbo.ranges, x ≠ cur → x ∈ t₁.vbo.ranges := fun x hx hne =>
      (hmem x).2 (.inr (mem_remove_of_ne hx hne))
    split at hv
    · obtain rfl := (Prod.mk.inj (Option.some.inj hv)).1
      exact h.insert_back hsame hptes ⟨hpos, hlt⟩ hfits hkeep
    · rename_i t₂ hunmap
      obtain rfl := (Prod.mk.inj (Option.some.inj hv)).1
      have hgpu : t₁.vbo.gpuaddr ≠ 0 := hsame.gpuaddr ▸ hgpu
      have hg := unmapPart_gone hgpu hunmap
      refine h.visit cur (hg.sameVbo hsame (sameVbo_insert t₂ _)) (fun x hx => ?_)
        (fun x hx hne => ?_) (fun p e c hp => ?_) fun p e c hp hh => ?_
      · rcases mem_insert.1 hx with rfl | hx
        · refine .inr ⟨?_, ?_⟩
          · show cur.start ≤ start - 1
            omega
          · show start - 1 < t.vbo.size
            omega
        · exact hfits x (hg.ranges ▸ hx)
      · exact mem_insert.2 (.inr (hg.ranges ▸ hkeep x hx hne))
      · have hp := (hg.child hp).1
        rw [hptes] at hp
        exact hp
      · obtain ⟨-, hin⟩ := hg.child hp
        obtain ⟨hh₁, hh₂⟩ := hh
        by_cases hnear : p * pageSize < start
        · refine .inl ⟨_, mem_insert.2 (.inl rfl), rfl, hh₁, ?_⟩
          show p * pageSize ≤ start - 1
          omega
        by_cases hfar : last < p * pageSize
        · refine .inl ⟨{ cur with start := last + 1 }, mem_insert.2 (.inr ?_), rfl, hfar, hh₂⟩
          rw [hg.ranges]
          exact (hmem _).2 (.inl ⟨by omega, rfl⟩)
        · have hunder : Under start last p := ⟨by omega, by omega⟩
          refine .inr ⟨hunder, hsame.noMapZero ▸ Bool.eq_false_iff.2 fun hno => hin hno ?_⟩
          constructor
          · exact hunder.1
          · have := hunder.2
            omega

theorem UnmappedFirst.trimming (h : UnmappedFirst start last t t₀) (hs : Sound t.vbo) :
    Trimming start last t₀ t₀ where
  same := .refl _
  sound := by
    refine ⟨fun r hr => ?_, fun p e c hp => ?_⟩
    · rw [h.same.size]
      exact hs.fits r (h.ranges ▸ hr)
    · rw [h.ptes] at hp
      rw [h.ranges]
      split at hp
      · cases hp
      · exact hs.held p e c hp
  zero hno p hin e c hp := by
    rw [h.ptes, if_pos ⟨h.same.noMapZero ▸ hno, hin⟩] at hp
    cases hp

/-- The loop of a bind keeps the VBO sound, also where it is left early. -/
theorem Trimming.walk (hgpu : t₀.vbo.gpuaddr ≠ 0) (h : Trimming start last t₀ t)
    (hnext : ∀ r ∈ next, (r.start ≤ r.last ∧ r.last < t₀.vbo.size) ∧ Overlaps start last r)
    {done : Bool} (hv : addRangeWalk mmu start last next t = some (t', done)) :
    Trimming start last t₀ t' := by
  have hrule := walk_rule
    (P := fun next t => Trimming start last t₀ t ∧
      ∀ r ∈ next, (r.start ≤ r.last ∧ r.last < t₀.vbo.size) ∧ Overlaps start last r)
    (Q := Trimming start last t₀) (fun cur next t t' hp h => ?_) (fun cur next t t' hp h => ?_)
    ⟨h, hnext⟩ hv
  · cases done with
    | true => exact (hrule.1 rfl).1
    | false => exact hrule.2 rfl
  all_goals
    obtain ⟨hp, hnext⟩ := hp
    obtain ⟨hcur, hover⟩ := hnext cur List.mem_cons_self
    have hgo := hp.go hgpu (hp.same.size ▸ hcur) hover h
  · exact ⟨hgo, fun r hr => hnext r (List.mem_cons_of_mem _ hr)⟩
  · exact hgo

theorem addRangeLocked_sound (hgpu : t.vbo.gpuaddr ≠ 0) (h : Sound t.vbo)
    (hle : range.start ≤ range.last) (hlast : range.last < t.vbo.size) {done : Bool}
    (hv : addRangeLocked mmu t range = some (t', done)) :
    Sound t'.vbo ∧ SameVbo t.vbo t'.vbo := by
  simp only [addRangeLocked] at hv
  split at hv
  · obtain rfl := (Prod.mk.inj (Option.some.inj hv)).1
    exact ⟨h, rfl, rfl, rfl, rfl⟩
  rename_i t₀ hun
  have hfirst := unmapFirst_spec hgpu hle hun
  have htrim := hfirst.trimming h
  obtain ⟨⟨t₁, ok⟩, hwalk, hv⟩ := Option.bind_eq_some_iff.1 hv
  have hw := htrim.walk (hfirst.same.gpuaddr ▸ hgpu)
    (fun r hr => (mem_intervalTreeIter.1 hr).imp_left (htrim.sound.fits r)) hwalk
  have hsame := hfirst.same.trans hw.same
  cases ok with
  | false =>
    obtain rfl := (Prod.mk.inj (Option.some.inj hv)).1
    exact ⟨hw.sound, hsame⟩
  | true =>
    simp only [if_true] at hv
    split at hv
    · obtain rfl := (Prod.mk.inj (Option.some.inj hv)).1
      exact ⟨hw.sound, hsame⟩
    · rename_i v hchild
      obtain rfl := (Prod.mk.inj (Option.some.inj hv)).1
      obtain rfl := kgslMmuMapChild_eq hchild
      refine ⟨⟨fun r hr => ?_, fun p e c hp => ?_⟩, hsame.trans ⟨rfl, rfl, rfl, rfl⟩⟩
      · rcases mem_insert.1 hr with rfl | hr
        · exact ⟨hle, hsame.size ▸ hlast⟩
        · exact hw.sound.fits r hr
      · rcases kgslMmuMapChild_child hle hchild hp with ⟨he, hh⟩ | hp
        · exact ⟨range, mem_insert.2 (.inl rfl), he, hh⟩
        · obtain ⟨r, hr, hrest⟩ := hw.sound.held p e c hp
          exact ⟨r, mem_insert.2 (.inr hr), hrest⟩

/-- **A bind keeps the VBO sound**, whichever of its calls fail. -/
theorem addRange_sound (hgpu : t.vbo.gpuaddr ≠ 0) (h : Sound t.vbo) (hle : start ≤ last)
    (hlast : last < t.vbo.size) {alloc done : Bool} {e offset : ℕ}
    (hv : kgslMemdescAddRange mmu alloc t start last e offset = some (t', done)) :
    Sound t'.vbo ∧ SameVbo t.vbo t'.vbo := by
  simp only [kgslMemdescAddRange] at hv
  split at hv
  · obtain rfl := (Prod.mk.inj (Option.some.inj hv)).1
    exact ⟨h, .refl _⟩
  · rename_i m hm
    exact addRangeLocked_sound (t := { t with mem := m }) hgpu h hle hlast hv

/-! ## What an unbind does -/

theorem Sound.removed (h : Sound t.vbo) (hr : Removed r t t') : Sound t'.vbo where
  fits x hx := by
    rw [hr.same.size]
    exact h.fits x (List.mem_of_mem_erase (hr.ranges ▸ hx))
  held p e c hp := by
    obtain ⟨hnot, hp⟩ := hr.child hp
    obtain ⟨x, hx, he, hh⟩ := h.held p e c hp
    exact ⟨x, hr.stays hnot hx hh, he, hh⟩

/-- **An unbind keeps the VBO sound**, whichever of its unmaps fail. -/
theorem removeWalk_sound (hgpu : t.vbo.gpuaddr ≠ 0) (h : Sound t.vbo)
    (hnext : ∀ r ∈ next, r.start ≤ r.last ∧ r.last < t.vbo.size) :
    Sound (next.foldl (removeRangeVisit mmu entry) t).vbo ∧
      SameVbo t.vbo (next.foldl (removeRangeVisit mmu entry) t).vbo := by
  induction next generalizing t with
  | nil => exact ⟨h, .refl _⟩
  | cons r next ih =>
    obtain ⟨hpos, hfits⟩ := hnext r List.mem_cons_self
    rw [List.foldl_cons]
    have hvisit : removeRangeVisit mmu entry t r = t ∨
        Removed r t (removeRangeVisit mmu entry t r) := removeRangeVisit_cases hgpu hpos hfits
    rcases hvisit with heq | hrem
    · rw [heq]
      exact ih hgpu h fun x hx => hnext x (List.mem_cons_of_mem _ hx)
    · have hrest := ih (hrem.same.gpuaddr ▸ hgpu) (h.removed hrem) fun x hx => by
        rw [hrem.same.size]
        exact hnext x (List.mem_cons_of_mem _ hx)
      exact ⟨hrest.1, hrem.same.trans hrest.2⟩

theorem removeRange_sound (hgpu : t.vbo.gpuaddr ≠ 0) (h : Sound t.vbo) :
    Sound (kgslMemdescRemoveRange mmu t start last entry).vbo ∧
      SameVbo t.vbo (kgslMemdescRemoveRange mmu t start last entry).vbo :=
  removeWalk_sound hgpu h fun r hr => h.fits r (mem_intervalTreeIter.1 hr).1

theorem ofChild_iff : OfChild entry r ↔ (entry.all fun e => r.entry = e) = true := by
  unfold OfChild
  cases entry <;> simp

/-- What the loop of an unbind does to the ranges it is still to visit, when every unmap
    succeeds; `rest` is the rest of the tree. -/
theorem removeWalk_effect (entry : Option ℕ) (rest : List BindRange) (hmmu : mmu.unmaps)
    (hgpu : t.vbo.gpuaddr ≠ 0) (hnext : ∀ r ∈ next, r.start ≤ r.last ∧ r.last < t.vbo.size)
    (hranges : t.vbo.ranges.Perm (next ++ rest)) :
    (∀ r, r ∈ (next.foldl (removeRangeVisit mmu entry) t).vbo.ranges ↔
      (r ∈ next ∧ ¬ OfChild entry r) ∨ r ∈ rest) ∧
    ∀ p, ((∃ r ∈ next, OfChild entry r ∧ r.has p) ∧
        (next.foldl (removeRangeVisit mmu entry) t).vbo.ptes p = t.vbo.unbound) ∨
      ((∀ r ∈ next, OfChild entry r → ¬ r.has p) ∧
        (next.foldl (removeRangeVisit mmu entry) t).vbo.ptes p = t.vbo.ptes p) := by
  induction next generalizing t rest with
  | nil =>
    refine ⟨fun r => ?_, fun p => .inr ⟨fun r hr => absurd hr List.not_mem_nil, rfl⟩⟩
    rw [List.foldl_nil, hranges.mem_iff, List.nil_append]
    exact (or_iff_right fun hh => absurd hh.1 List.not_mem_nil).symm
  | cons r next ih =>
    obtain ⟨hpos, hfits⟩ := hnext r List.mem_cons_self
    have hnext := fun x hx => hnext x (List.mem_cons_of_mem r hx)
    rw [List.foldl_cons]
    by_cases hof : OfChild entry r
    · -- the range is taken out, and what is left is what the induction is about
      have hunmap : kgslMmuUnmapRange mmu t.vbo r.start (bindRangeLen r) =
          some (t.vbo.setPtes r.start (bindRangeLen r) fun _ => .unmapped) := by
        unfold kgslMmuUnmapRange bindRangeLen
        rw [if_neg hgpu, if_neg (by omega), if_pos (hmmu _ _)]
      have hrem := removeRangeVisit_removed hgpu hpos hfits (ofChild_iff.1 hof) hunmap
      have hperm : (removeRangeVisit mmu entry t r).vbo.ranges.Perm (next ++ rest) := by
        rw [hrem.ranges]
        have := hranges.erase r
        rwa [List.cons_append, List.erase_cons_head] at this
      obtain ⟨hmem, hptes⟩ := ih rest (hrem.same.gpuaddr ▸ hgpu)
        (fun x hx => hrem.same.size ▸ hnext x hx) hperm
      have hunbound : (removeRangeVisit mmu entry t r).vbo.unbound = t.vbo.unbound := by
        unfold Vbo.unbound
        rw [hrem.same.noMapZero]
      refine ⟨fun x => (hmem x).trans (or_congr_left ⟨?_, ?_⟩), fun p => ?_⟩
      · rintro ⟨hx, hno⟩
        exact ⟨List.mem_cons_of_mem r hx, hno⟩
      · rintro ⟨hx, hno⟩
        rcases List.mem_cons.1 hx with rfl | hx
        · exact absurd hof hno
        · exact ⟨hx, hno⟩
      · rcases hptes p with ⟨⟨x, hx, hrest⟩, hp⟩ | ⟨hnone, hp⟩
        · exact .inl ⟨⟨x, List.mem_cons_of_mem r hx, hrest⟩, hp.trans hunbound⟩
        · rw [hrem.ptes] at hp
          by_cases hh : r.has p
          · rw [if_pos hh] at hp
            exact .inl ⟨⟨r, List.mem_cons_self, hof, hh⟩, hp⟩
          · rw [if_neg hh] at hp
            refine .inr ⟨fun x hx hxof => ?_, hp⟩
            rcases List.mem_cons.1 hx with rfl | hx
            · exact hh
            · exact hnone x hx hxof
    · -- the range is passed over, and counts as part of the rest
      have hskip : removeRangeVisit mmu entry t r = t := if_neg (mt ofChild_iff.2 hof)
      rw [hskip]
      obtain ⟨hmem, hptes⟩ := ih (r :: rest) hgpu hnext
        (hranges.trans List.perm_middle.symm)
      refine ⟨fun x => (hmem x).trans ?_, fun p => ?_⟩
      · rw [List.mem_cons, List.mem_cons]
        constructor
        · rintro (⟨hx, hno⟩ | rfl | hx)
          · exact .inl ⟨.inr hx, hno⟩
          · exact .inl ⟨.inl rfl, hof⟩
          · exact .inr hx
        · rintro (⟨rfl | hx, hno⟩ | hx)
          · exact .inr (.inl rfl)
          · exact .inl ⟨hx, hno⟩
          · exact .inr (.inr hx)
      · rcases hptes p with ⟨⟨x, hx, hrest⟩, hp⟩ | ⟨hnone, hp⟩
        · exact .inl ⟨⟨x, List.mem_cons_of_mem r hx, hrest⟩, hp⟩
        · refine .inr ⟨fun x hx hxof => ?_, hp⟩
          rcases List.mem_cons.1 hx with rfl | hx
          · exact absurd hxof hof
          · exact hnone x hx hxof

/-- A range that an unbind takes out, if all unmaps succeed. -/
def Taken (start last : ℕ) (entry : Option ℕ) (r : BindRange) : Prop :=
  Overlaps start last r ∧ OfChild entry r

/-- **The effect of an unbind** with every unmap successful. -/
theorem removeRange_effect (start last : ℕ) (entry : Option ℕ) (hmmu : mmu.unmaps)
    (hgpu : t.vbo.gpuaddr ≠ 0) (h : Sound t.vbo) :
    let v' := (kgslMemdescRemoveRange mmu t start last entry).vbo
    (∀ r, r ∈ v'.ranges ↔ r ∈ t.vbo.ranges ∧ ¬ Taken start last entry r) ∧
    ∀ p, ((∃ r ∈ t.vbo.ranges, Taken start last entry r ∧ r.has p) ∧
        v'.ptes p = t.vbo.unbound) ∨
      ((∀ r ∈ t.vbo.ranges, Taken start last entry r → ¬ r.has p) ∧
        v'.ptes p = t.vbo.ptes p) := by
  have hiter : ∀ r, r ∈ intervalTreeIter t.vbo.ranges start last ↔
      r ∈ t.vbo.ranges ∧ Overlaps start last r := fun r => mem_intervalTreeIter
  have hsplit : t.vbo.ranges.Perm (intervalTreeIter t.vbo.ranges start last ++
      t.vbo.ranges.filter fun r => ! decide (r.start ≤ last ∧ start ≤ r.last)) :=
    (List.filter_append_perm _ _).symm
  obtain ⟨hmem, hptes⟩ := removeWalk_effect entry _ hmmu hgpu
    (fun r hr => h.fits r ((hiter r).1 hr).1) hsplit
  refine ⟨fun r => (hmem r).trans ?_, fun p => ?_⟩
  · rw [hiter, List.mem_filter, Bool.not_eq_true', decide_eq_false_iff_not]
    unfold Taken
    show _ ∨ _ ∧ ¬ Overlaps start last r ↔ _
    tauto
  · rcases hptes p with ⟨⟨r, hr, hof, hh⟩, hp⟩ | ⟨hnone, hp⟩
    · obtain ⟨hr, ho⟩ := (hiter r).1 hr
      exact .inl ⟨⟨r, hr, ⟨ho, hof⟩, hh⟩, hp⟩
    · exact .inr ⟨fun r hr ht => hnone r ((hiter r).2 ⟨hr, ht.1⟩) ht.2, hp⟩

/-- A page of a range that is taken out was asked for just if it lies in the window. -/
theorem requested_iff (hr : r ∈ v.ranges) (ht : Taken start last entry r) (hh : r.has p) :
    Requested v start last entry p ↔ Under start last p := by
  refine and_iff_left ?_
  cases entry with
  | none => exact .inl rfl
  | some e => exact .inr ⟨r, hr, congrArg some (ht.2 e rfl).symm, hh⟩

theorem unbindsExactly_iff (hmmu : mmu.unmaps) (hgpu : t.vbo.gpuaddr ≠ 0) (h : Sound t.vbo) :
    UnbindsExactly start last entry t.vbo (kgslMemdescRemoveRange mmu t start last entry).vbo ↔
      StaysInside start last entry t.vbo := by
  obtain ⟨hmem, hptes⟩ := removeRange_effect start last entry hmmu hgpu h
  have hgone : ∀ r ∈ t.vbo.ranges, Taken start last entry r → ∀ p, r.has p →
      (kgslMemdescRemoveRange mmu t start last entry).vbo.ptes p = t.vbo.unbound :=
    fun r hr ht p hh => by
      rcases hptes p with ⟨-, hp⟩ | ⟨hnone, -⟩
      · exact hp
      · exact absurd hh (hnone r hr ht)
  constructor
  · intro hu r hr ho hof p hh
    have ht : Taken start last entry r := ⟨ho, hof⟩
    by_cases hin : Under start last p
    · exact .inl hin
    · obtain ⟨hpte, hcov⟩ := hu.kept p (mt (requested_iff hr ht hh).1 hin)
      obtain ⟨r', hr', he, hh'⟩ := hcov r hr hh
      obtain ⟨hr', hnot⟩ := (hmem r').1 hr'
      refine .inr ⟨hpte.symm.trans (hgone r hr ht p hh), r', hr',
        fun ho' => hnot ⟨ho', ?_⟩, he, hh'⟩
      exact fun e hentry => he.trans (hof e hentry)
  · intro hs
    refine ⟨fun p hreq => ?_, fun p hreq => ?_⟩
    · -- the range of the child that holds the page is taken out with it
      have hown : ∀ r ∈ t.vbo.ranges, OfChild entry r → r.has p → Taken start last entry r :=
        fun r _ hof hh => ⟨overlaps_of_has hh hreq.1, hof⟩
      refine ⟨fun e c hp => ?_, fun r hr hof hh => ?_⟩
      · rcases hptes p with ⟨-, hp'⟩ | ⟨hnone, hp'⟩
        · have := hp.symm.trans hp'
          unfold Vbo.unbound at this
          split at this <;> cases this
        · obtain ⟨hin, hentry | ⟨r, hr, hentry, hh⟩⟩ := hreq
          · obtain ⟨r, hr, -, hh⟩ := h.held p e c (hp'.symm.trans hp)
            refine hnone r hr (hown r hr ?_ hh) hh
            rintro x rfl
            cases hentry
          · refine hnone r hr (hown r hr ?_ hh) hh
            rintro x rfl
            exact (Option.some.inj hentry).symm
      · obtain ⟨hr, hnot⟩ := (hmem r).1 hr
        exact hnot (hown r hr hof hh)
    · constructor
      · rcases hptes p with ⟨⟨r, hr, ht, hh⟩, hp⟩ | ⟨-, hp⟩
        · rcases hs r hr ht.1 ht.2 p hh with hin | ⟨hun, -⟩
          · exact absurd ((requested_iff hr ht hh).2 hin) hreq
          · exact hp.trans hun.symm
        · exact hp
      · intro r hr hh
        by_cases ht : Taken start last entry r
        · rcases hs r hr ht.1 ht.2 p hh with hin | ⟨-, r', hr', hno, he, hh'⟩
          · exact absurd ((requested_iff hr ht hh).2 hin) hreq
          · exact ⟨r', (hmem r').2 ⟨hr', fun ht' => hno ht'.1⟩, he, hh'⟩
        · exact ⟨r, (hmem r).2 ⟨hr, ht⟩, rfl, hh⟩

/-- Where the ranges are disjoint, a range that is taken out has no page outside at all. -/
theorem staysInside_iff {size : ℕ} (htidy : Tidy size v.ranges) : StaysInside start last entry v ↔
    ∀ r ∈ v.ranges, Overlaps start last r → OfChild entry r → ∀ p, r.has p →
      Under start last p := by
  constructor
  · intro hs r hr ho hof p hh
    rcases hs r hr ho hof p hh with hin | ⟨-, r', hr', hno, -, hh'⟩
    · exact hin
    · have hne : r' ≠ r := by
        rintro rfl
        exact hno ho
      have := htidy.apart_of_erase hr ((List.mem_erase_of_ne hne).2 hr')
      unfold BindRange.has at hh hh'
      omega
  · intro hs r hr ho hof p hh
    exact .inl (hs r hr ho hof p hh)

/-! ## Runs -/

section World

variable {ι : Type} [DecidableEq ι] {children : ℕ → Memdesc} {w w' : World ι}

/-- The invariant of every run. -/
structure World.Sound (w : World ι) : Prop where
  sound : ∀ i, w.released i = false → (w.vbo i).gpuaddr ≠ 0 ∧ Kgsl.Sound (w.vbo i)
  live : ∀ b ∈ w.pending, w.released b.target = false
  inside : ∀ b ∈ w.pending, ∀ op ∈ b.ops, op.Inside (w.vbo b.target).size

theorem bindWorkerStep_sound {op : BindOpRange} {alloc : Bool} (hgpu : t.vbo.gpuaddr ≠ 0)
    (h : Sound t.vbo) (hin : op.Inside t.vbo.size) (hv : bindWorkerStep mmu alloc t op = some t') :
    Sound t'.vbo ∧ SameVbo t.vbo t'.vbo := by
  unfold bindWorkerStep at hv
  split at hv
  · obtain ⟨⟨t₁, done⟩, hadd, rfl⟩ := Option.map_eq_some_iff.1 hv
    exact addRange_sound hgpu h hin.1 hin.2 hadd
  · cases hv
  · obtain rfl := Option.some.inj hv
    exact removeRange_sound hgpu h

/-- **A step keeps the invariant**, whichever MMU calls fail. -/
theorem World.Sound.step (h : w.Sound) {a : WorldAct ι} (hs : worldStep children w a = some w') :
    w'.Sound := by
  cases a with
  | create i secure ok ranges =>
    simp only [worldStep] at hs
    split at hs
    · cases hs
    · rename_i hrel
      have hn : Named w.mem [] w.mem.refcount w.mem.vboCount :=
        ⟨fun e => (Nat.zero_add _).symm, fun e => (Nat.zero_add _).symm⟩
      have hc :=
        kgslSharedmemCreateBindOp_created children ⟨(w.vbo i).size, true, secure⟩ ok ranges hn
      split at hs
      · obtain rfl := Option.some.inj hs
        exact ⟨h.sound, h.live, h.inside⟩
      · rename_i m ops hm
        rw [hm] at hc
        obtain rfl := Option.some.inj hs
        refine ⟨h.sound, fun b hb => ?_, fun b hb => ?_⟩
        · rcases List.mem_cons.1 hb with rfl | hb
          · exact Bool.eq_false_iff.2 hrel
          · exact h.live b hb
        · rcases List.mem_cons.1 hb with rfl | hb
          · exact hc.2
          · exact h.inside b hb
  | work b op mmu alloc =>
    simp only [worldStep] at hs
    split at hs
    · rename_i hmem
      obtain ⟨t, ht, rfl⟩ := Option.map_eq_some_iff.1 hs
      have hlive := h.live b hmem.1
      obtain ⟨hgpu, hsound⟩ := h.sound b.target hlive
      obtain ⟨hsound', hsame⟩ := bindWorkerStep_sound (t := ⟨w.vbo b.target, w.mem⟩) hgpu hsound
        (h.inside b hmem.1 op hmem.2) ht
      have hvbo : ∀ j, (w.set b.target t).vbo j = if j = b.target then t.vbo else w.vbo j :=
        fun j => Function.update_apply _ _ _ _
      refine ⟨fun j hj => ?_, h.live, fun x hx y hy => ?_⟩
      · rw [hvbo]
        split
        · exact ⟨hsame.gpuaddr ▸ hgpu, hsound'⟩
        · exact h.sound j hj
      · rw [hvbo]
        split
        · rename_i heq
          rw [hsame.size, ← heq]
          exact h.inside x hx y hy
        · exact h.inside x hx y hy
    · cases hs
  | free b =>
    simp only [worldStep] at hs
    split at hs
    · obtain rfl := Option.some.inj hs
      exact ⟨h.sound, fun x hx => h.live x (List.mem_of_mem_erase hx),
        fun x hx => h.inside x (List.mem_of_mem_erase hx)⟩
    · cases hs
  | release i mmu =>
    simp only [worldStep] at hs
    split at hs
    · cases hs
    · rename_i hnot
      obtain rfl := Option.some.inj hs
      obtain ⟨-, hpend⟩ := not_or.1 hnot
      have hother : ∀ b ∈ w.pending, b.target ≠ i := fun b hb heq => hpend ⟨b, hb, heq⟩
      refine ⟨fun j hj => ?_, fun b hb => ?_, fun b hb op hop => ?_⟩
      · have hne : j ≠ i := by
          rintro rfl
          exact absurd hj (by simp)
        simp only [Function.update_of_ne hne, World.set] at hj ⊢
        exact h.sound j hj
      · simp only [Function.update_of_ne (hother b hb), World.set]
        exact h.live b hb
      · simp only [Function.update_of_ne (hother b hb), World.set]
        exact h.inside b hb op hop
  | get e =>
    simp only [worldStep] at hs
    obtain ⟨m, -, rfl⟩ := Option.map_eq_some_iff.1 hs
    exact ⟨h.sound, h.live, h.inside⟩
  | put e =>
    simp only [worldStep] at hs
    split at hs
    · cases hs
    · obtain rfl := Option.some.inj hs
      exact ⟨h.sound, h.live, h.inside⟩

theorem WorldRun.sound {allowed : World ι → WorldAct ι → Prop} (hw : WorldRun children allowed w) :
    w.Sound := by
  induction hw with
  | init vbo user hgpu =>
    refine ⟨fun i _ => ⟨hgpu i, fun r hr => absurd hr List.not_mem_nil, fun p e c hp => ?_⟩,
      fun b hb => absurd hb List.not_mem_nil, fun b hb => absurd hb List.not_mem_nil⟩
    have hp : (if (vbo i).1 then Pte.unmapped
      else if p * pageSize < (vbo i).2.1 then .zero else .unmapped) = .child e c := hp
    split at hp
    · cases hp
    · split at hp <;> cases hp
  | step _ _ hs ih => exact ih.step hs

/-- **What an unbind does to a VBO**, after any run: with every unmap successful it affects
    exactly the requested pages just if `StaysInside` holds before.  If no unmap failed where
    a bind splits a range, that is: the ranges of the child that overlap the window have
    all their pages inside. -/
theorem unbind_exact_iff [Fintype ι] {i : ι} (start last : ℕ) (entry : Option ℕ)
    (hw : WorldRun children (fun _ _ => True) w) (hlive : w.released i = false)
    (hmmu : mmu.unmaps) :
    (UnbindsExactly start last entry (w.vbo i)
        (kgslMemdescRemoveRange mmu ⟨w.vbo i, w.mem⟩ start last entry).vbo ↔
      StaysInside start last entry (w.vbo i)) ∧
    (WorldRun children splitsOnly w → (StaysInside start last entry (w.vbo i) ↔
      ∀ r ∈ (w.vbo i).ranges, Overlaps start last r → OfChild entry r → ∀ p, r.has p →
        Under start last p)) := by
  obtain ⟨hgpu, hsound⟩ := hw.sound.sound i hlive
  constructor
  · exact unbindsExactly_iff (t := ⟨w.vbo i, w.mem⟩) hmmu hgpu hsound
  · intro hsplits
    exact staysInside_iff (hsplits.held.guarded i).tidy

end World

theorem allOk_unmaps : Mmu.allOk.unmaps := fun _ _ => rfl

/-- The second page was bound to child 2 by itself, and can be unbound by itself. -/
theorem unbind_exact_onePage : ∃ w : World Unit, (w.vbo ()).ptes 1 = .child 2 0 ∧
    UnbindsExactly 0x1000 0x1fff (some 2) (w.vbo ())
      (kgslMemdescRemoveRange Mmu.allOk ⟨w.vbo (), w.mem⟩ 0x1000 0x1fff (some 2)).vbo := by
  have h₀ : WorldRun oneVboChildren splitsOnly oneVbo := .init _ _ fun _ => by decide
  have h₁ := h₀.step (a := .create () false true bindRanges) trivial rfl
  have h₂ := h₁.step (a := .work ⟨(), [bindFirst, bindSecond]⟩ bindFirst Mmu.allOk true)
    (fun _ _ _ cur hcur => absurd hcur List.not_mem_nil) rfl
  have h₃ := h₂.step (a := .work ⟨(), [bindFirst, bindSecond]⟩ bindSecond Mmu.allOk true)
    (fun _ _ _ _ _ _ _ => rfl) rfl
  obtain ⟨hiff, hinside⟩ := unbind_exact_iff (i := ()) 0x1000 0x1fff (some 2)
    (h₃.mono fun _ _ _ => trivial) rfl allOk_unmaps
  refine ⟨_, by decide, hiff.2 ((hinside h₃).2 ?_)⟩
  -- of the three ranges only the one in the middle names child 2
  intro r hr _ hof p hh
  have hr : r ∈ [⟨0, 0xfff, 1, 0, 0⟩, ⟨0x1000, 0x1fff, 2, 0x1000, 0⟩,
    (⟨0x2000, 0x3fff, 1, 0, 0⟩ : BindRange)] := hr
  have hentry := hof 2 rfl
  simp only [List.mem_cons, List.not_mem_nil, or_false] at hr
  rcases hr with rfl | rfl | rfl
  · cases hentry
  · exact hh
  · cases hentry

/-- Four pages were bound in one go.  To unbind the second takes the fourth along. -/
theorem unbind_exact_overshoots : ¬ ∀ w : World Unit,
    WorldRun oneVboChildren (fun _ _ => True) w → w.released () = false →
    UnbindsExactly 0x1000 0x1fff (some 1) (w.vbo ())
      (kgslMemdescRemoveRange Mmu.allOk ⟨w.vbo (), w.mem⟩ 0x1000 0x1fff (some 1)).vbo := by
  intro hall
  have h₀ : WorldRun oneVboChildren (fun _ _ => True) oneVbo := .init _ _ fun _ => by decide
  have h₁ := h₀.step (a := .create () false true bindRanges) trivial rfl
  have h₂ := h₁.step (a := .work ⟨(), [bindFirst, bindSecond]⟩ bindFirst Mmu.allOk true) trivial rfl
  have hkept := ((hall _ h₂ rfl).kept 3 fun hreq => ?_).1
  · revert hkept
    decide
  · obtain ⟨⟨-, hlast⟩, -⟩ := hreq
    revert hlast
    decide

end Sm8850.Kgsl
