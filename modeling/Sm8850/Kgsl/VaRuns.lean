/-
  What the addresses of a page table satisfy over runs.

  * `VaInv`: the registered ranges are apart, each on one side of the start of the
    64-bit window, and `va_hint` is the end of the highest one in that window.
  * `searchGap_ok`: what the search for a gap returns overlaps nothing, and lies
    below some range of the window unless it lies above them all.  After the hint
    was of no use it cannot lie above them all, so it leaves the highest range
    as it was.
  * `EntryAllocated` is what a run needs: when `va_hint` served the address, it was
    moved before `_insert_gpuaddr` asks for memory, and is not moved back.
  * **`addresses`** collects the facts over runs; `addresses_staleHint` is a run in
    which two ranges overlap.
-/
import Sm8850.Kgsl.Iommu

namespace Sm8850.Kgsl

open Lib.SearchTree

variable {rb : Balancer AddrEntry} {pt pt' : Pagetable} {x y a : ℕ}
  {bottom top size align start addr gpuaddr : ℕ} {l : List AddrEntry} {e new : AddrEntry}

/-! ## Sums -/

theorem add64_eq_some : add64 x y = some a ↔ (x + y < u64Size ∧ x + y = a) := by
  unfold add64
  split
  · rename_i h
    exact ⟨fun hs => ⟨h, Option.some.inj hs⟩, fun hs => congrArg some hs.2⟩
  · rename_i h
    exact ⟨(fun hs => nomatch hs), fun hs => absurd hs.1 h⟩

/-- The aligned address is the least multiple that is not below the address. -/
theorem align64_eq_some (ha : 0 < align) (h : align64 x align = some y) :
    x ≤ y ∧ align ∣ y ∧ ∀ z, align ∣ z → x ≤ z → y ≤ z := by
  obtain ⟨s, hs, rfl⟩ := Option.map_eq_some_iff.1 h
  obtain ⟨-, rfl⟩ := add64_eq_some.1 hs
  have hlow : x + (align - 1) < (x + (align - 1)) / align * align + align :=
    Nat.lt_div_mul_add ha
  refine ⟨by omega, Nat.dvd_mul_left _ _, ?_⟩
  rintro z ⟨k, rfl⟩ hz
  have hk : (x + (align - 1)) / align ≤ k := by
    rw [← Nat.lt_succ_iff, Nat.div_lt_iff_lt_mul ha, Nat.succ_mul, Nat.mul_comm k]
    omega
  rw [Nat.mul_comm]
  exact Nat.mul_le_mul_left _ hk

/-! ## Entries -/

theorem AddrEntry.base_lt_stop (e : AddrEntry) : e.base < e.stop :=
  Nat.lt_add_of_pos_right e.pos

/-- The ranges in order. -/
abbrev InOrder (l : List AddrEntry) : Prop := Apart AddrEntry.base AddrEntry.stop l

/-- No range of the list overlaps the one at `addr`. -/
def Clear (l : List AddrEntry) (addr size : ℕ) : Prop :=
  ∀ e ∈ l, e.stop ≤ addr ∨ addr + size ≤ e.base

theorem InOrder.base_lt (hl : InOrder l) : l.Pairwise fun a b => a.base < b.base :=
  hl.imp fun {a _} h => Nat.lt_of_lt_of_le a.base_lt_stop h

theorem addrGuide_guided (hl : InOrder l) (gpuaddr : ℕ) : Guided (addrGuide gpuaddr) l := by
  refine hl.base_lt.imp fun {a b} hab => ⟨fun hlt => ?_, fun hgt => ?_⟩
  all_goals
    simp only [addrGuide] at *
    grind

theorem svmGuide_guided (hl : InOrder l) (gpuaddr size : ℕ) :
    Guided (svmGuide gpuaddr size) l := by
  refine hl.imp fun {a b} hab => ⟨fun hlt => ?_, fun hgt => ?_⟩
  all_goals
    have ha := a.base_lt_stop
    have hb := b.base_lt_stop
    simp only [svmGuide] at *
    grind

/-! ## The search for a gap -/

/-- What the search may return: an aligned address in the window whose range overlaps
    nothing, below some range of the window or above all of them. -/
structure Gap (l : List AddrEntry) (bottom top size align addr : ℕ) : Prop where
  dvd : align ∣ addr
  stop_le : addr + size ≤ top
  clear : Clear l addr size
  place : (∃ e ∈ l, bottom ≤ e.base ∧ e.base < top ∧ addr + size ≤ e.base) ∨
    ∀ e ∈ l, e.base < top → e.stop ≤ addr

theorem Gap.cons (h : Gap l bottom top size align addr) (he : e.stop ≤ addr) :
    Gap (e :: l) bottom top size align addr where
  dvd := h.dvd
  stop_le := h.stop_le
  clear := List.forall_mem_cons.2 ⟨.inl he, h.clear⟩
  place := h.place.imp (fun ⟨x, hx, hp⟩ => ⟨x, List.mem_cons_of_mem _ hx, hp⟩)
    fun hall => List.forall_mem_cons.2 ⟨fun _ => he, hall⟩

theorem lastGap_ok (h : lastGap top size start = some (.ok addr)) :
    addr = start ∧ start + size ≤ top := by
  obtain ⟨stop, hstop, h⟩ := Option.bind_eq_some_iff.1 h
  obtain ⟨-, rfl⟩ := add64_eq_some.1 hstop
  simp only [pure, Option.some.injEq] at h
  split at h
  · rename_i hle
    exact ⟨(Except.ok.inj h).symm, hle⟩
  · cases h

/-- The search, from an entry on.  Everything before the entry ends by `p`. -/
theorem searchGap_ok (ha : 0 < align) {p : ℕ} (hl : InOrder l) (hbp : bottom ≤ p)
    (hps : p ≤ start) (hdvd : align ∣ start) (hp : ∀ e ∈ l, bottom ≤ e.stop → p ≤ e.stop)
    (h : searchGap bottom top size align start l = some (.ok addr)) :
    p ≤ addr ∧ Gap l bottom top size align addr := by
  induction l generalizing start p with
  | nil =>
    obtain ⟨rfl, hle⟩ := lastGap_ok h
    exact ⟨hps, hdvd, hle, fun e he => absurd he List.not_mem_nil,
      .inr fun e he => absurd he List.not_mem_nil⟩
  | cons e l ih =>
    obtain ⟨hel, hl'⟩ := List.pairwise_cons.1 hl
    have hpos := e.base_lt_stop
    -- going on behind the entry
    have next : ∀ {start'}, bottom < e.stop → align64 e.stop align = some start' →
        searchGap bottom top size align start' l = some (.ok addr) →
        e.stop ≤ addr ∧ Gap (e :: l) bottom top size align addr := by
      intro start' hbot hal hs
      obtain ⟨hle, hd, -⟩ := align64_eq_some ha hal
      obtain ⟨hstop, hgap⟩ := ih hl' (Nat.le_of_lt hbot) hle hd
        (fun x hx _ => Nat.le_trans (hel x hx) (Nat.le_of_lt x.base_lt_stop)) hs
      exact ⟨hstop, hgap.cons hstop⟩
    rw [searchGap_cons] at h
    split at h
    · rename_i hbelow
      split at h
      · rename_i hstraddle
        obtain ⟨start', hal, hs⟩ := Option.bind_eq_some_iff.1 h
        obtain ⟨hstop, hgap⟩ := next hstraddle hal hs
        exact ⟨Nat.le_trans (hp e List.mem_cons_self (Nat.le_of_lt hstraddle)) hstop, hgap⟩
      · rename_i hout
        obtain ⟨hle, hgap⟩ := ih hl' hbp hps hdvd
          (fun x hx => hp x (List.mem_cons_of_mem _ hx)) h
        exact ⟨hle, hgap.cons (by omega)⟩
    · rename_i habove
      have hpe := hp e List.mem_cons_self (by omega)
      split at h
      · rename_i htop
        obtain ⟨rfl, hle⟩ := lastGap_ok h
        have hall : ∀ x ∈ e :: l, top ≤ x.base := by
          intro x hx
          rcases List.mem_cons.1 hx with rfl | hx
          · exact htop
          · exact Nat.le_trans htop (Nat.le_trans (Nat.le_of_lt hpos) (hel x hx))
        exact ⟨hps, hdvd, hle, fun x hx => .inr (Nat.le_trans hle (hall x hx)),
          .inr fun x hx hlt => absurd (hall x hx) (Nat.not_le_of_lt hlt)⟩
      · rename_i htop
        split at h
        · rename_i hgap
          obtain rfl : start = addr := Except.ok.inj (Option.some.inj h)
          have hfit : start + size ≤ e.base := by omega
          refine ⟨hps, hdvd, by omega, fun x hx => .inr ?_,
            .inl ⟨e, List.mem_cons_self, by omega, by omega, hfit⟩⟩
          rcases List.mem_cons.1 hx with rfl | hx
          · exact hfit
          · exact Nat.le_trans hfit (Nat.le_trans (Nat.le_of_lt hpos) (hel x hx))
        · split at h
          · cases h
          · obtain ⟨start', hal, hs⟩ := Option.bind_eq_some_iff.1 h
            obtain ⟨hstop, hgap⟩ := next (by omega) hal hs
            exact ⟨by omega, hgap⟩

theorem lastGap_error {err : Errno} (h : lastGap top size start = some (.error err)) :
    err = .ENOMEM := by
  obtain ⟨stop, -, h⟩ := Option.bind_eq_some_iff.1 h
  simp only [pure, Option.some.injEq] at h
  split at h
  · cases h
  · exact (Except.error.inj h).symm

/-- The search fails for want of room only. -/
theorem searchGap_error {err : Errno}
    (h : searchGap bottom top size align start l = some (.error err)) : err = .ENOMEM := by
  induction l generalizing start with
  | nil => exact lastGap_error h
  | cons e l ih =>
    rw [searchGap_cons] at h
    split at h
    · split at h
      · obtain ⟨start', -, hs⟩ := Option.bind_eq_some_iff.1 h
        exact ih hs
      · exact ih h
    · split at h
      · exact lastGap_error h
      · split at h
        · cases h
        · split at h
          · exact (Except.error.inj (Option.some.inj h)).symm
          · obtain ⟨start', -, hs⟩ := Option.bind_eq_some_iff.1 h
            exact ih hs

/-! ## The tree -/

/-- Where nothing overlaps it, a range is put between those below it and those above. -/
theorem insertGpuaddr_clear (rb : Balancer AddrEntry) (hl : InOrder pt.entries)
    (hc : Clear pt.entries new.base new.size) :
    ∃ t l₁ l₂, insertGpuaddr rb pt new true = ({ pt with rbtree := t }, .ok ()) ∧
      pt.entries = l₁ ++ l₂ ∧ elems t = l₁ ++ new :: l₂ ∧
      (∀ e ∈ l₁, e.stop ≤ new.base) ∧ ∀ e ∈ l₂, new.stop ≤ e.base := by
  have hpos := new.pos
  have guide : ∀ e ∈ pt.entries, (addrGuide new.base e = .gt → e.stop ≤ new.base) ∧
      (addrGuide new.base e = .lt → new.stop ≤ e.base) ∧ addrGuide new.base e ≠ .eq := by
    intro e he
    have hd := hc e he
    have he' := e.base_lt_stop
    simp only [addrGuide, AddrEntry.stop] at *
    grind
  cases hlink : link (addrGuide new.base) new pt.rbtree with
  | none =>
    obtain ⟨e, he, heq⟩ := link_eq_none hlink
    exact absurd heq (guide e he).2.2
  | some t =>
    obtain ⟨l₁, l₂, hold, hnew, h₁, h₂⟩ := elems_link (addrGuide_guided hl new.base) hlink
    have hold : pt.entries = l₁ ++ l₂ := hold
    refine ⟨rb.fixup new t, l₁, l₂, ?_, hold, ?_, fun e he => ?_, fun e he => ?_⟩
    · unfold insertGpuaddr
      rw [if_pos rfl, hlink]
    · rw [rb.elems_fixup, hnew]
    · exact (guide e (hold ▸ List.mem_append_left _ he)).1 (h₁ e he)
    · exact (guide e (hold ▸ List.mem_append_right _ he)).2.1 (h₂ e he)

/-! ## The hint -/

/-- The page table has a window above 4 GB, for which there is a hint. -/
def Pagetable.Wide (pt : Pagetable) : Prop := 2 ^ 32 ≤ pt.vaEnd

/-- The range lies in the window of the hint. -/
def Pagetable.inWindow (pt : Pagetable) (e : AddrEntry) : Bool :=
  decide (pt.vaStart ≤ e.base) && decide (e.stop ≤ pt.vaEnd)

/-- The end of the highest range registered in the window, `vaStart` if there is none. -/
def Pagetable.highest (pt : Pagetable) : ℕ :=
  match (pt.entries.filter pt.inWindow).getLast? with
  | none => pt.vaStart
  | some e => e.stop

/-- The invariant of a page table. -/
structure VaInv (pt : Pagetable) : Prop where
  inOrder : InOrder pt.entries
  sides : pt.Wide → ∀ e ∈ pt.entries, e.stop ≤ pt.vaStart ∨ pt.inWindow e = true
  hint : pt.Wide → pt.vaHint = pt.highest

/-- The window of the hint lies above the others, which are below 4 GB or for SVM. -/
structure Layout (pt : Pagetable) : Prop where
  vaStart_pos : pt.Wide → 0 < pt.vaStart
  compat : pt.compatVaEnd < 2 ^ 32
  compat_le : pt.Wide → pt.compatVaEnd ≤ pt.vaStart
  svm_le : pt.Wide → pt.svmEnd ≤ pt.vaStart

theorem four_gb_le_vaBase : 2 ^ 32 ≤ KGSL_IOMMU_VA_BASE64 := by decide

theorem layout_init (mmu : Mmu) : Layout (kgslIopgtblPagetable mmu) := by
  have hend : mmu.svmEnd32 < 2 ^ 32 := by
    unfold Mmu.svmEnd32
    split
    · split <;> decide
    · decide
  have hle : mmu.svmEnd32 ≤ KGSL_IOMMU_VA_BASE64 :=
    Nat.le_trans (Nat.le_of_lt hend) four_gb_le_vaBase
  unfold kgslIopgtblPagetable
  split
  · refine ⟨fun _ => Nat.lt_of_lt_of_le (by decide) four_gb_le_vaBase, hend, fun _ => hle,
      fun _ => ?_⟩
    show (if mmu.compatTask = true then mmu.svmEnd32 else KGSL_IOMMU_SVM_END64) ≤
      KGSL_IOMMU_VA_BASE64
    split
    · exact hle
    · decide
  · rename_i h64
    have hnarrow : mmu.globalMemBase < 2 ^ 32 := by
      rw [Mmu.globalMemBase, if_neg h64]
      decide
    have hnot := Nat.not_le_of_lt hnarrow
    exact ⟨fun hw => absurd hw hnot, hnarrow, fun hw => absurd hw hnot, fun hw => absurd hw hnot⟩

theorem vaInv_init (mmu : Mmu) : VaInv (kgslIopgtblPagetable mmu) := by
  unfold kgslIopgtblPagetable
  split
  · exact ⟨.nil, fun _ e he => absurd he List.not_mem_nil, fun _ => rfl⟩
  · exact ⟨.nil, fun _ e he => absurd he List.not_mem_nil, fun _ => rfl⟩

/-- `h` is where the ranges of the list that lie in the window end. -/
structure IsHighest (pt : Pagetable) (l : List AddrEntry) (h : ℕ) : Prop where
  vaStart_le : pt.vaStart ≤ h
  stop_le : ∀ e ∈ l, pt.inWindow e = true → e.stop ≤ h
  attained : h = pt.vaStart ∨ ∃ e ∈ l, pt.inWindow e = true ∧ e.stop = h

section
variable {h h' : ℕ} {l₁ l₂ : List AddrEntry}

theorem vaStart_lt_stop (he : pt.inWindow e = true) : pt.vaStart < e.stop := by
  simp only [Pagetable.inWindow, Bool.and_eq_true, decide_eq_true_eq] at he
  exact Nat.lt_of_le_of_lt he.1 e.base_lt_stop

theorem IsHighest.unique (hh : IsHighest pt l h) (hh' : IsHighest pt l h') : h ≤ h' := by
  rcases hh.attained with rfl | ⟨e, he, hw, rfl⟩
  · exact hh'.vaStart_le
  · exact hh'.stop_le e he hw

/-- The last range of a list in order ends last. -/
theorem InOrder.stop_le_getLast (hl : InOrder l) (hlast : l.getLast? = some e) :
    e ∈ l ∧ ∀ x ∈ l, x.stop ≤ e.stop := by
  obtain ⟨l₁, rfl⟩ := List.getLast?_eq_some_iff.1 hlast
  obtain ⟨-, -, hcross⟩ := List.pairwise_append.1 hl
  refine ⟨List.mem_append_right _ List.mem_cons_self, fun x hx => ?_⟩
  rcases List.mem_append.1 hx with hx | hx
  · exact Nat.le_trans (hcross x hx e List.mem_cons_self) (Nat.le_of_lt e.base_lt_stop)
  · exact Nat.le_of_eq (congrArg AddrEntry.stop (List.mem_singleton.1 hx))

theorem isHighest_highest (hl : InOrder pt.entries) : IsHighest pt pt.entries pt.highest := by
  unfold Pagetable.highest
  split
  · rename_i hnone
    refine ⟨Nat.le_refl _, fun e he hw => ?_, .inl rfl⟩
    have := List.getLast?_eq_none_iff.1 hnone ▸ List.mem_filter.2 ⟨he, hw⟩
    exact absurd this List.not_mem_nil
  · rename_i e hlast
    obtain ⟨he, hle⟩ := InOrder.stop_le_getLast (hl.sublist List.filter_sublist) hlast
    obtain ⟨he, hw⟩ := List.mem_filter.1 he
    exact ⟨Nat.le_of_lt (vaStart_lt_stop hw), fun x hx hxw => hle x (List.mem_filter.2 ⟨hx, hxw⟩),
      .inr ⟨e, he, hw, rfl⟩⟩

theorem highest_eq_iff (hl : InOrder pt.entries) :
    h = pt.highest ↔ IsHighest pt pt.entries h := by
  constructor
  · rintro rfl
    exact isHighest_highest hl
  · intro hh
    exact Nat.le_antisymm (hh.unique (isHighest_highest hl)) ((isHighest_highest hl).unique hh)

theorem mem_insert_iff : e ∈ l₁ ++ new :: l₂ ↔ e = new ∨ e ∈ l₁ ++ l₂ := by
  simp only [List.mem_append, List.mem_cons]
  tauto

/-- A new range above all others is the highest one. -/
theorem IsHighest.insert_above (hh : IsHighest pt (l₁ ++ l₂) h) (hnew : h ≤ new.stop)
    (hw : pt.inWindow new = true) : IsHighest pt (l₁ ++ new :: l₂) new.stop where
  vaStart_le := Nat.le_trans hh.vaStart_le hnew
  stop_le e he hwe := by
    rcases mem_insert_iff.1 he with rfl | he
    · exact Nat.le_refl _
    · exact Nat.le_trans (hh.stop_le e he hwe) hnew
  attained := .inr ⟨new, mem_insert_iff.2 (.inl rfl), hw, rfl⟩

/-- A new range elsewhere changes nothing. -/
theorem IsHighest.insert_below (hh : IsHighest pt (l₁ ++ l₂) h)
    (hnew : pt.inWindow new = true → new.stop ≤ h) : IsHighest pt (l₁ ++ new :: l₂) h where
  vaStart_le := hh.vaStart_le
  stop_le e he hwe := by
    rcases mem_insert_iff.1 he with rfl | he
    · exact hnew hwe
    · exact hh.stop_le e he hwe
  attained := hh.attained.imp id fun ⟨e, he, hp⟩ => ⟨e, mem_insert_iff.2 (.inr he), hp⟩

/-- Without a range that does not end there, `h` stays. -/
theorem IsHighest.remove_below (hh : IsHighest pt (l₁ ++ e :: l₂) h) (hne : h ≠ e.stop) :
    IsHighest pt (l₁ ++ l₂) h where
  vaStart_le := hh.vaStart_le
  stop_le x hx hw := hh.stop_le x (mem_insert_iff.2 (.inr hx)) hw
  attained := by
    rcases hh.attained with heq | ⟨x, hx, hw, heq⟩
    · exact .inl heq
    · rcases mem_insert_iff.1 hx with rfl | hx
      · exact absurd heq.symm hne
      · exact .inr ⟨x, hx, hw, heq⟩

/-- Without the highest range, it is the previous one, as far as that lies in the window. -/
theorem IsHighest.remove_highest (hl : InOrder (l₁ ++ e :: l₂))
    (hsides : ∀ x ∈ l₁ ++ e :: l₂, x.stop ≤ pt.vaStart ∨ pt.inWindow x = true)
    (hh : IsHighest pt (l₁ ++ e :: l₂) e.stop) :
    IsHighest pt (l₁ ++ l₂) (match l₁.getLast? with
      | none => pt.vaStart
      | some prev => max prev.stop pt.vaStart) := by
  obtain ⟨hl₁, hel, -⟩ := List.pairwise_append.1 hl
  -- nothing comes after the highest range
  obtain rfl : l₂ = [] := by
    refine List.eq_nil_iff_forall_not_mem.2 fun x hx => ?_
    have hx' : x ∈ l₁ ++ e :: l₂ := mem_insert_iff.2 (.inr (List.mem_append_right _ hx))
    have hbase := (List.pairwise_cons.1 hel).1 x hx
    have hpos := x.base_lt_stop
    have hstart := hh.vaStart_le
    rcases hsides x hx' with hlow | hw
    · omega
    · have := hh.stop_le x hx' hw
      omega
  rw [List.append_nil]
  split
  · rename_i hnone
    rw [List.getLast?_eq_none_iff.1 hnone]
    exact ⟨Nat.le_refl _, fun x hx => absurd hx List.not_mem_nil, .inl rfl⟩
  · rename_i prev hprev
    obtain ⟨hmem, hle⟩ := InOrder.stop_le_getLast hl₁ hprev
    refine ⟨Nat.le_max_right _ _, fun x hx _ => Nat.le_trans (hle x hx) (Nat.le_max_left _ _), ?_⟩
    rcases hsides prev (List.mem_append_left _ hmem) with hlow | hw
    · exact .inl (Nat.max_eq_right hlow)
    · exact .inr ⟨prev, hmem, hw, (Nat.max_eq_left (Nat.le_of_lt (vaStart_lt_stop hw))).symm⟩

/-- Every range ends by the hint. -/
theorem VaInv.stop_le_hint (hi : VaInv pt) (hw : pt.Wide) :
    ∀ e ∈ pt.entries, e.stop ≤ pt.vaHint := by
  intro e he
  have hh := (highest_eq_iff hi.inOrder).1 (hi.hint hw)
  rcases hi.sides hw e he with hlow | hin
  · exact Nat.le_trans hlow hh.vaStart_le
  · exact hh.stop_le e he hin

/-! ## What a call does -/

/-- A new range keeps the invariant if the hint is right afterwards. -/
theorem VaInv.insert (hi : VaInv pt) {t : BinaryTree AddrEntry} (hint : ℕ)
    (hold : pt.entries = l₁ ++ l₂) (ht : elems t = l₁ ++ new :: l₂)
    (h₁ : ∀ e ∈ l₁, e.stop ≤ new.base) (h₂ : ∀ e ∈ l₂, new.stop ≤ e.base)
    (hside : pt.Wide → new.stop ≤ pt.vaStart ∨ pt.inWindow new = true)
    (hhint : pt.Wide → IsHighest pt (l₁ ++ new :: l₂) hint) :
    VaInv { pt with rbtree := t, vaHint := hint } := by
  have hord : InOrder (l₁ ++ new :: l₂) := Apart.insert (hold ▸ hi.inOrder) h₁ h₂
  have hord' : InOrder (elems t) := ht ▸ hord
  refine ⟨hord', fun hw e he => ?_, fun hw => ?_⟩
  · rcases mem_insert_iff.1 (show e ∈ l₁ ++ new :: l₂ from ht ▸ he) with rfl | he
    · exact hside hw
    · exact hi.sides hw e (hold ▸ he)
  · refine (@highest_eq_iff { pt with rbtree := t, vaHint := hint } _ hord').2 ?_
    obtain ⟨ha, hb, hc⟩ := hhint hw
    rw [← ht] at hb hc
    exact ⟨ha, hb, hc⟩

/-- A new range below the window keeps the invariant. -/
theorem VaInv.insert_low (hi : VaInv pt) {t : BinaryTree AddrEntry} (hold : pt.entries = l₁ ++ l₂)
    (ht : elems t = l₁ ++ new :: l₂) (h₁ : ∀ e ∈ l₁, e.stop ≤ new.base)
    (h₂ : ∀ e ∈ l₂, new.stop ≤ e.base) (hlow : pt.Wide → new.stop ≤ pt.vaStart) :
    VaInv { pt with rbtree := t } := by
  refine hi.insert pt.vaHint hold ht h₁ h₂ (fun hw => .inl (hlow hw)) fun hw => ?_
  have hh : IsHighest pt (l₁ ++ l₂) pt.vaHint :=
    hold ▸ (highest_eq_iff hi.inOrder).1 (hi.hint hw)
  exact hh.insert_below fun hin => absurd (vaStart_lt_stop hin) (Nat.not_lt_of_le (hlow hw))

/-- `_remove_gpuaddr` brings the hint back to the highest range. -/
theorem VaInv.removeGpuaddr (hi : VaInv pt) (rb : Balancer AddrEntry) (gpuaddr : ℕ) :
    VaInv (removeGpuaddr rb pt gpuaddr).1 := by
  unfold Kgsl.removeGpuaddr
  split
  · exact hi
  · rename_i entry hfind
    obtain ⟨l₁, l₂, hnot, hold, herase⟩ := List.exists_erase_eq (descend_eq_some hfind).1
    have hold : pt.entries = l₁ ++ entry :: l₂ := hold
    have hprev : rbPrev pt entry = l₁.getLast? := by
      have htake : (l₁ ++ entry :: l₂).takeWhile (fun x => x ≠ entry) = l₁ := by
        rw [List.takeWhile_append_of_pos fun x hx => decide_eq_true (ne_of_mem_of_not_mem hx hnot),
          List.takeWhile_cons_of_neg (by simp), List.append_nil]
      rw [rbPrev, hold, htake]
    have hnew : elems (rb.erase entry pt.rbtree) = l₁ ++ l₂ := by
      rw [rb.elems_erase]
      exact herase
    have hord' : InOrder (elems (rb.erase entry pt.rbtree)) := by
      rw [rb.elems_erase]
      exact hi.inOrder.erase entry
    refine ⟨hord', fun hw e he => hi.sides hw e ?_, fun hw => ?_⟩
    · rw [hold]
      exact mem_insert_iff.2 (.inr (hnew ▸ he))
    · have hh : IsHighest pt (l₁ ++ entry :: l₂) pt.vaHint :=
        hold ▸ (highest_eq_iff hi.inOrder).1 (hi.hint hw)
      refine (@highest_eq_iff { pt with rbtree := _, vaHint := _ } _ hord').2 ?_
      suffices IsHighest pt (l₁ ++ l₂) _ by
        obtain ⟨ha, hb, hc⟩ := this
        rw [← hnew] at hb hc
        exact ⟨ha, hb, hc⟩
      split
      · rename_i heq
        rw [hprev]
        exact .remove_highest (hold ▸ hi.inOrder) (fun x hx => hi.sides hw x (hold ▸ hx))
          (heq ▸ hh)
      · rename_i hne
        exact hh.remove_below hne

/-- The hint serves the request, or it is of no use and nothing changes. -/
theorem getUnmappedAreaHint_cases {r : Pagetable × Except Errno ℕ} (ha : 0 < align)
    (h : getUnmappedAreaHint pt top size align = some r) :
    (∃ addr, r = ({ pt with vaHint := addr + size }, .ok addr) ∧ 2 ^ 32 ≤ top ∧
      pt.vaHint ≤ addr ∧ align ∣ addr ∧ addr + size ≤ top) ∨
    (∃ e, r = (pt, .error e) ∧ (2 ^ 32 ≤ top → pt.vaHint ≠ 0 →
      ∀ z, align ∣ z → pt.vaHint ≤ z → top < z + size)) := by
  unfold getUnmappedAreaHint at h
  split at h
  · rename_i hno
    refine .inr ⟨_, (Option.some.inj h).symm, fun hwide hpos => ?_⟩
    rcases hno with hzero | hlow
    · exact absurd hzero hpos
    · exact absurd hwide (Nat.not_le_of_lt hlow)
  · rename_i hyes
    obtain ⟨hint, hal, h⟩ := Option.bind_eq_some_iff.1 h
    obtain ⟨hintEnd, hsum, h⟩ := Option.bind_eq_some_iff.1 h
    obtain ⟨hle, hdvd, hleast⟩ := align64_eq_some ha hal
    obtain ⟨-, rfl⟩ := add64_eq_some.1 hsum
    split at h
    · rename_i hover
      refine .inr ⟨_, (Option.some.inj h).symm, fun _ _ z hz hvz => ?_⟩
      have := hleast z hz hvz
      omega
    · rename_i hfits
      exact .inl ⟨hint, (Option.some.inj h).symm, by omega, hle, hdvd, by omega⟩

/-- The hint serves the request: `_get_unmapped_area_hint` returns an address. -/
def HintServes (pt : Pagetable) (top size align : ℕ) : Prop :=
  ∃ pt' addr, getUnmappedAreaHint pt top size align = some (pt', .ok addr)

/-- What `_get_unmapped_area` returns: the hint, a gap, or an error. -/
inductive Found (pt : Pagetable) (bottom top size align : ℕ) :
    Pagetable × Except Errno ℕ → Prop
  | hint (addr : ℕ) (hs : HintServes pt top size align) (hwide : 2 ^ 32 ≤ top)
      (hle : pt.vaHint ≤ addr) (hdvd : align ∣ addr) (hstop : addr + size ≤ top) :
      Found pt bottom top size align ({ pt with vaHint := addr + size }, .ok addr)
  | gap (addr low : ℕ) (hs : ¬ HintServes pt top size align) (hbot : bottom ≤ low)
      (hlow : low ≤ addr) (hg : Gap pt.entries low top size align addr)
      (hno : 2 ^ 32 ≤ top → pt.vaHint ≠ 0 → ∀ z, align ∣ z → pt.vaHint ≤ z → top < z + size) :
      Found pt bottom top size align (pt, .ok addr)
  | none (hs : ¬ HintServes pt top size align) :
      Found pt bottom top size align (pt, .error .ENOMEM)

theorem getUnmappedArea_found {r : Pagetable × Except Errno ℕ} (ha : 0 < align)
    (hl : InOrder pt.entries) (h : getUnmappedArea pt bottom top size align = some r) :
    Found pt bottom top size align r := by
  obtain ⟨⟨pt', res⟩, hhint, h⟩ := Option.bind_eq_some_iff.1 h
  rcases getUnmappedAreaHint_cases ha hhint with
    ⟨addr, heq, hwide, hle, hdvd, hstop⟩ | ⟨err, heq, hno⟩
  · obtain ⟨rfl, rfl⟩ := Prod.mk.inj heq
    obtain rfl := Option.some.inj h
    exact .hint addr ⟨_, _, hhint⟩ hwide hle hdvd hstop
  · obtain ⟨rfl, rfl⟩ := Prod.mk.inj heq
    have hs : ¬ HintServes pt' top size align := by
      rintro ⟨pt₁, addr, h₁⟩
      cases (Prod.mk.inj (Option.some.inj (hhint.symm.trans h₁))).2
    obtain ⟨low, hlow, h⟩ := Option.bind_eq_some_iff.1 h
    obtain ⟨found, hfound, h⟩ := Option.bind_eq_some_iff.1 h
    obtain rfl := Option.some.inj h
    obtain ⟨hle, hdvd, -⟩ := align64_eq_some ha hlow
    cases found with
    | error e =>
      obtain rfl := searchGap_error hfound
      exact .none hs
    | ok addr =>
      obtain ⟨hlow, hgap⟩ := searchGap_ok ha hl (Nat.le_refl _) (Nat.le_refl _) hdvd
        (fun _ _ h => h) hfound
      exact .gap addr low hs hle hlow hgap hno

theorem mkEntry_eq_some {base : ℕ} (h : mkEntry base size = some new) :
    new.base = base ∧ new.size = size := by
  unfold mkEntry at h
  split at h
  · obtain rfl := Option.some.inj h
    exact ⟨rfl, rfl⟩
  · cases h

/-- The call registered the range. -/
def Registered (pt : Pagetable) (addr size : ℕ) : Prop :=
  ∃ e ∈ pt.entries, e.base = addr ∧ e.size = size

/-- Only the tree and the hint changed. -/
def SameWindows (pt pt' : Pagetable) : Prop :=
  ∃ t hint, pt' = { pt with rbtree := t, vaHint := hint }

/-- What comes of `get_gpuaddr`. -/
structure GetSpec (pt : Pagetable) (start stop size align : ℕ) (alloc : Bool)
    (r : Pagetable × Except Errno ℕ) : Prop where
  frame : SameWindows pt r.1
  inv : (HintServes pt stop size align → alloc = true) → VaInv r.1
  hint : pt.Wide → r.1.vaHint = r.1.highest → HintServes pt stop size align → alloc = true
  served : ∀ addr, r.2 = .ok addr → align ∣ addr ∧ start ≤ addr ∧ addr + size ≤ stop ∧
    Registered r.1 addr size
  error : ∀ e, r.2 = .error e → e ≠ .EEXIST

/-- The window of a request: the one of the hint, or one below 4 GB. -/
structure IsWindow (pt : Pagetable) (start stop : ℕ) : Prop where
  high : 2 ^ 32 ≤ stop → pt.Wide ∧ start = pt.vaStart ∧ stop = pt.vaEnd
  low : ¬ 2 ^ 32 ≤ stop → pt.Wide → stop ≤ pt.vaStart

theorem isWindow_window (hy : Layout pt) (force32bit : Bool) :
    IsWindow pt (pt.window force32bit).1 (pt.window force32bit).2 := by
  cases force32bit with
  | false => exact ⟨fun hw => ⟨hw, rfl, rfl⟩, fun hno hw => absurd hw hno⟩
  | true =>
    exact ⟨fun hw => absurd hy.compat (Nat.not_lt_of_le hw), fun _ hw => hy.compat_le hw⟩

variable {stop : ℕ}

/-- A gap found after the hint was of no use lies below the highest range. -/
theorem Gap.stop_le_hint (hi : VaInv pt) (hy : Layout pt) (hwide : 2 ^ 32 ≤ pt.vaEnd) {low : ℕ}
    (hlow : pt.vaStart ≤ low) (hla : low ≤ addr) (hg : Gap pt.entries low pt.vaEnd size align addr)
    (hno : pt.vaHint ≠ 0 → ∀ z, align ∣ z → pt.vaHint ≤ z → pt.vaEnd < z + size) :
    addr + size ≤ pt.vaHint := by
  have hh := (highest_eq_iff hi.inOrder).1 (hi.hint hwide)
  have hle := hh.vaStart_le
  rcases hg.place with ⟨e, he, hbase, -, hfit⟩ | hall
  · have hpos := e.base_lt_stop
    have := hi.stop_le_hint hwide e he
    omega
  · have hpos := hy.vaStart_pos hwide
    have hadd : pt.vaHint ≤ addr := by
      rcases hh.attained with heq | ⟨e, he, hin, heq⟩
      · omega
      · simp only [Pagetable.inWindow, Bool.and_eq_true, decide_eq_true_eq] at hin
        rw [← heq]
        exact hall e he (Nat.lt_of_lt_of_le e.base_lt_stop hin.2)
    have := hno (by omega) addr hg.dvd hadd
    have := hg.stop_le
    omega

/-- `get_gpuaddr` keeps the invariant and hands out what was asked for. -/
theorem VaInv.getGpuaddr (hi : VaInv pt) (hy : Layout pt) (hwin : IsWindow pt start stop)
    (ha : 0 < align) {alloc : Bool} {r : Pagetable × Except Errno ℕ}
    (h : getGpuaddr rb pt start stop size align alloc = some r) :
    GetSpec pt start stop size align alloc r := by
  obtain ⟨found, hfound, h⟩ := Option.bind_eq_some_iff.1 h
  cases getUnmappedArea_found ha hi.inOrder hfound with
  | hint addr hs hwide hle hdvd hstop =>
    obtain ⟨new, hnew, hr⟩ := Option.bind_eq_some_iff.1 h
    obtain ⟨rfl, rfl⟩ := mkEntry_eq_some hnew
    have hr : r = ((insertGpuaddr rb _ new alloc).1,
        (insertGpuaddr rb _ new alloc).2.map fun _ => new.base) := (Option.some.inj hr).symm
    subst hr
    obtain ⟨hw, rfl, rfl⟩ := hwin.high hwide
    have hpos := new.pos
    have hh := (highest_eq_iff hi.inOrder).1 (hi.hint hw)
    have hclear : Clear pt.entries new.base new.size := fun e he =>
      .inl (Nat.le_trans (hi.stop_le_hint hw e he) hle)
    cases alloc with
    | false =>
      refine ⟨⟨_, _, rfl⟩, fun hal => absurd (hal hs) Bool.false_ne_true, fun _ heq _ => ?_,
        fun _ hok => (nomatch hok), fun e he => ?_⟩
      · -- the hint went up, the highest range is the same
        have heq : new.base + new.size = pt.highest := heq
        rw [← hi.hint hw] at heq
        omega
      · obtain rfl := Except.error.inj he
        exact fun h => nomatch h
    | true =>
      obtain ⟨t, l₁, l₂, hins, hold, ht, h₁, h₂⟩ := @insertGpuaddr_clear
        { pt with vaHint := new.base + new.size } new rb hi.inOrder hclear
      have hold : pt.entries = l₁ ++ l₂ := hold
      have hin : pt.inWindow new = true := by
        have := hh.vaStart_le
        simp only [Pagetable.inWindow, Bool.and_eq_true, decide_eq_true_eq]
        exact ⟨by omega, hstop⟩
      have hmem : new ∈ elems t := ht ▸ mem_insert_iff.2 (.inl rfl)
      rw [hins]
      refine ⟨⟨_, _, rfl⟩, fun _ => hi.insert _ hold ht h₁ h₂ (fun _ => .inr hin) fun _ => ?_,
        fun _ _ _ => rfl,
        fun addr hok => ?_, fun _ he => (nomatch he)⟩
      · exact IsHighest.insert_above (hold ▸ hh) (by unfold AddrEntry.stop; omega) hin
      · obtain rfl := Except.ok.inj hok
        exact ⟨hdvd, Nat.le_trans hh.vaStart_le hle, hstop,
          new, hmem, rfl, rfl⟩
  | gap addr low hs hbot hlow hg hno =>
    obtain ⟨new, hnew, hr⟩ := Option.bind_eq_some_iff.1 h
    obtain ⟨rfl, rfl⟩ := mkEntry_eq_some hnew
    have hr : r = ((insertGpuaddr rb _ new alloc).1,
        (insertGpuaddr rb _ new alloc).2.map fun _ => new.base) := (Option.some.inj hr).symm
    subst hr
    have hstop := hg.stop_le
    cases alloc with
    | false =>
      exact ⟨⟨_, _, rfl⟩, fun _ => hi, fun _ _ hs' => absurd hs' hs, fun _ hok => (nomatch hok),
        fun e he => by
          obtain rfl := Except.error.inj he
          exact fun h => nomatch h⟩
    | true =>
      obtain ⟨t, l₁, l₂, hins, hold, ht, h₁, h₂⟩ := insertGpuaddr_clear rb hi.inOrder
        hg.clear
      have hmem : new ∈ elems t := ht ▸ mem_insert_iff.2 (.inl rfl)
      rw [hins]
      refine ⟨⟨_, _, rfl⟩, fun _ => ?_, fun _ _ _ => rfl, fun addr hok => ?_,
        fun _ he => (nomatch he)⟩
      · by_cases hwide : 2 ^ 32 ≤ stop
        · obtain ⟨hw, rfl, rfl⟩ := hwin.high hwide
          refine hi.insert _ hold ht h₁ h₂ (fun _ => .inr ?_) fun _ => ?_
          · simp only [Pagetable.inWindow, Bool.and_eq_true, decide_eq_true_eq]
            exact ⟨by omega, hstop⟩
          · have hh : IsHighest pt (l₁ ++ l₂) pt.vaHint :=
              hold ▸ (highest_eq_iff hi.inOrder).1 (hi.hint hw)
            exact hh.insert_below fun _ => hg.stop_le_hint hi hy hw hbot hlow (hno hwide)
        · exact hi.insert_low hold ht h₁ h₂ fun hw => Nat.le_trans hstop (hwin.low hwide hw)
      · obtain rfl := Except.ok.inj hok
        exact ⟨hg.dvd, Nat.le_trans hbot hlow, hstop, new, hmem, rfl, rfl⟩
  | none hs =>
    obtain rfl := Option.some.inj h
    exact ⟨⟨_, _, rfl⟩, fun _ => hi, fun _ _ hs' => absurd hs' hs, fun _ hok => (nomatch hok),
      fun e he => by
        obtain rfl := Except.error.inj he
        exact fun h => nomatch h⟩

/-- The range lies in one of the windows for SVM. -/
def InSvm (pt : Pagetable) (gpuaddr size : ℕ) : Prop :=
  (pt.compatVaStart ≤ gpuaddr ∧ gpuaddr + size ≤ pt.compatVaEnd) ∨
    (pt.svmStart ≤ gpuaddr ∧ gpuaddr + size ≤ pt.svmEnd)

theorem inSvm_of_check (hfits : gpuaddr + size < u64Size)
    (h : iommuAddrInSvmRanges pt gpuaddr size = true) : InSvm pt gpuaddr size := by
  unfold iommuAddrInSvmRanges at h
  rw [Nat.mod_eq_of_lt hfits] at h
  simp only [Bool.if_false_left, Bool.and_eq_true, Bool.or_eq_true, decide_eq_true_eq] at h
  rcases h.2 with ⟨⟨⟨hlo, -⟩, -⟩, hhi⟩ | ⟨⟨⟨hlo, -⟩, -⟩, hhi⟩
  · exact .inl ⟨hlo, hhi⟩
  · exact .inr ⟨hlo, hhi⟩

/-- `kgsl_iommu_set_svm_region` keeps the invariant. -/
theorem VaInv.setSvmRegion (hi : VaInv pt) (hy : Layout pt) {alloc : Bool}
    {r : Pagetable × Except Errno Unit}
    (h : kgslIommuSetSvmRegion rb pt gpuaddr size alloc = some r) :
    SameWindows pt r.1 ∧ VaInv r.1 ∧
    (r.2 = .ok () → InSvm pt gpuaddr size ∧ Registered r.1 gpuaddr size) ∧
    ∀ e, r.2 = .error e → e ≠ .EEXIST := by
  have refused : SameWindows pt pt ∧ VaInv pt ∧
      ((.error .ENOMEM : Except Errno Unit) = .ok () →
        InSvm pt gpuaddr size ∧ Registered pt gpuaddr size) ∧
      ∀ e, (.error .ENOMEM : Except Errno Unit) = .error e → e ≠ .EEXIST :=
    ⟨⟨_, _, rfl⟩, hi, fun h => (nomatch h), fun e he => by
      obtain rfl := Except.error.inj he
      exact fun h => nomatch h⟩
  unfold kgslIommuSetSvmRegion at h
  split at h
  · rename_i hcheck
    obtain ⟨new, hnew, h⟩ := Option.bind_eq_some_iff.1 h
    obtain ⟨rfl, rfl⟩ := mkEntry_eq_some hnew
    have hsvm := inSvm_of_check new.fits hcheck
    split at h
    · obtain rfl := Option.some.inj h
      exact refused
    · rename_i hfree
      obtain rfl := Option.some.inj h
      have hclear : Clear pt.entries new.base new.size := by
        intro e he
        have hne := descend_eq_none (svmGuide_guided hi.inOrder _ _) hfree e he
        simp only [svmGuide] at hne
        grind
      cases alloc with
      | false => exact refused
      | true =>
        obtain ⟨t, l₁, l₂, hins, hold, ht, h₁, h₂⟩ :=
          insertGpuaddr_clear rb hi.inOrder hclear
        have hmem : new ∈ elems t := ht ▸ mem_insert_iff.2 (.inl rfl)
        rw [hins]
        refine ⟨⟨_, _, rfl⟩, hi.insert_low hold ht h₁ h₂ fun hw => ?_,
          fun _ => ⟨hsvm, new, hmem, rfl, rfl⟩, fun _ he => (nomatch he)⟩
        rcases hsvm with ⟨-, hhi⟩ | ⟨-, hhi⟩
        · exact Nat.le_trans hhi (hy.compat_le hw)
        · exact Nat.le_trans hhi (hy.svm_le hw)
  · obtain rfl := Option.some.inj h
    exact refused

end

/-! ## Runs -/

/-- A size that is not zero and an alignment that is a power of two. -/
def Proper : VaCall → Prop
  | .get _ size align _ => 0 < size ∧ ∃ k, align = 2 ^ k
  | .setSvm _ size _ => 0 < size
  | .put _ => True

/-- There is memory for the entry of an address that `va_hint` served. -/
def EntryAllocated (pt : Pagetable) : VaCall → Prop
  | .get force32bit size align alloc =>
    HintServes pt (pt.window force32bit).2 size align → alloc = true
  | .setSvm _ _ _ => True
  | .put _ => True

/-- What a call hands out: an aligned range inside the window it was requested from, or
    the range asked for inside a window for SVM; and it meets no duplicate. -/
def Served (pt pt' : Pagetable) : VaCall → Except Errno (Option ℕ) → Prop
  | _, .error e => e ≠ .EEXIST
  | .get force32bit size align _, .ok addr => ∃ a, addr = some a ∧ align ∣ a ∧
      (pt.window force32bit).1 ≤ a ∧ a + size ≤ (pt.window force32bit).2 ∧ Registered pt' a size
  | .setSvm gpuaddr size _, .ok addr => addr = some gpuaddr ∧ InSvm pt gpuaddr size ∧
      Registered pt' gpuaddr size
  | .put _, .ok addr => addr = none

/-- The registered ranges do not overlap. -/
def RangesDisjoint (pt : Pagetable) : Prop :=
  pt.entries.Pairwise fun a b => a.stop ≤ b.base ∨ b.stop ≤ a.base

/-- `va_hint` is the end of the highest range in the 64-bit window. -/
def HintExact (pt : Pagetable) : Prop := pt.Wide → pt.vaHint = pt.highest

/-- The page tables that calls on a new one lead to, each call as allowed. -/
inductive VaRun (rb : Balancer AddrEntry) (mmu : Mmu) (allowed : Pagetable → VaCall → Prop) :
    Pagetable → Prop
  | init : VaRun rb mmu allowed (kgslIopgtblPagetable mmu)
  | call {pt : Pagetable} {r : Pagetable × Except Errno (Option ℕ)} (c : VaCall)
      (hpt : VaRun rb mmu allowed pt) (hc : Proper c) (ha : allowed pt c)
      (hst : vaStep rb pt c = some r) : VaRun rb mmu allowed r.1

section
variable {mmu : Mmu} {c : VaCall} {r : Pagetable × Except Errno (Option ℕ)}

theorem Layout.sameWindows (hy : Layout pt) (h : SameWindows pt pt') : Layout pt' := by
  obtain ⟨t, hint, rfl⟩ := h
  exact ⟨hy.vaStart_pos, hy.compat, hy.compat_le, hy.svm_le⟩

theorem removeGpuaddr_frame (rb : Balancer AddrEntry) (pt : Pagetable) (gpuaddr : ℕ) :
    SameWindows pt (removeGpuaddr rb pt gpuaddr).1 := by
  unfold removeGpuaddr
  split
  · exact ⟨_, _, rfl⟩
  · exact ⟨_, _, rfl⟩

theorem removeGpuaddr_error {e : Errno} (h : (removeGpuaddr rb pt gpuaddr).2 = .error e) :
    e ≠ .EEXIST := by
  unfold removeGpuaddr at h
  split at h
  · obtain rfl := Except.error.inj h
    exact fun h => nomatch h
  · cases h

/-- What a call does: it keeps the invariant if it allocates the entry it has to, and
    otherwise leaves the hint above the highest range. -/
structure CallSpec (pt : Pagetable) (c : VaCall) (r : Pagetable × Except Errno (Option ℕ)) :
    Prop where
  frame : SameWindows pt r.1
  inv : EntryAllocated pt c → VaInv r.1
  hint : HintExact r.1 → EntryAllocated pt c
  served : Served pt r.1 c r.2

theorem VaInv.call (hi : VaInv pt) (hy : Layout pt) (hc : Proper c)
    (h : vaStep rb pt c = some r) : CallSpec pt c r := by
  cases c with
  | get force32bit size align alloc =>
    obtain ⟨r', hr', rfl⟩ := Option.map_eq_some_iff.1 h
    obtain ⟨hsize, k, rfl⟩ := hc
    have hwin := isWindow_window hy force32bit
    have hg := hi.getGpuaddr hy hwin (Nat.two_pow_pos k) hr'
    refine ⟨hg.frame, hg.inv, fun hex hs => ?_, ?_⟩
    · have hwide : pt.Wide := by
        obtain ⟨pt₁, addr, h₁⟩ := hs
        rcases getUnmappedAreaHint_cases (Nat.two_pow_pos k) h₁ with
          ⟨addr, -, hw, -⟩ | ⟨e, he, -⟩
        · exact (hwin.high hw).1
        · cases (Prod.mk.inj he).2
      have hwide' : r'.1.Wide := by
        obtain ⟨t, hint, heq⟩ := hg.frame
        rw [heq]
        exact hwide
      exact hg.hint hwide (hex hwide') hs
    · obtain ⟨pt₁, res⟩ := r'
      cases res with
      | error e => exact hg.error e rfl
      | ok addr => exact ⟨addr, rfl, hg.served addr rfl⟩
  | setSvm gpuaddr size alloc =>
    obtain ⟨r', hr', rfl⟩ := Option.map_eq_some_iff.1 h
    obtain ⟨hframe, hinv, hok, herr⟩ := hi.setSvmRegion hy hr'
    refine ⟨hframe, fun _ => hinv, fun _ => trivial, ?_⟩
    obtain ⟨pt₁, res⟩ := r'
    cases res with
    | error e => exact herr e rfl
    | ok u => exact ⟨rfl, hok rfl⟩
  | put gpuaddr =>
    obtain rfl := Option.some.inj h
    refine ⟨removeGpuaddr_frame rb pt gpuaddr, fun _ => hi.removeGpuaddr rb gpuaddr,
      fun _ => trivial, ?_⟩
    show Served pt _ (.put gpuaddr) ((Kgsl.removeGpuaddr rb pt gpuaddr).2.map fun _ => none)
    cases hres : (Kgsl.removeGpuaddr rb pt gpuaddr).2 with
    | error e => exact removeGpuaddr_error hres
    | ok u => exact rfl

theorem VaRun.inv (hr : VaRun rb mmu EntryAllocated pt) : Layout pt ∧ VaInv pt := by
  induction hr with
  | init => exact ⟨layout_init mmu, vaInv_init mmu⟩
  | call c _ hc ha hst ih =>
    have hcall := ih.2.call ih.1 hc hst
    exact ⟨ih.1.sameWindows hcall.frame, hcall.inv ha⟩

end

/-- **Addresses are handed out once.**  In every run in which there is memory for the
    entries of the addresses that `va_hint` serves, the registered ranges are
    disjoint, `va_hint` is the end of the highest one, and every call hands out an
    aligned range inside its window and meets no duplicate.  A call without that
    memory leaves the hint wrong. -/
theorem addresses (rb : Balancer AddrEntry) (mmu : Mmu) {pt : Pagetable}
    (hr : VaRun rb mmu EntryAllocated pt) :
    RangesDisjoint pt ∧ HintExact pt ∧
    ∀ c r, Proper c → vaStep rb pt c = some r →
      Served pt r.1 c r.2 ∧ (HintExact r.1 ↔ EntryAllocated pt c) := by
  obtain ⟨hy, hi⟩ := hr.inv
  refine ⟨hi.inOrder.imp .inl, hi.hint, fun c r hc hst => ?_⟩
  have hcall := hi.call hy hc hst
  exact ⟨hcall.served, hcall.hint, fun ha => (hcall.inv ha).hint⟩

instance (pt : Pagetable) : Decidable (RangesDisjoint pt) :=
  inferInstanceAs (Decidable (pt.entries.Pairwise fun a b => a.stop ≤ b.base ∨ b.stop ≤ a.base))

/-- One call after the other. -/
def vaCalls (rb : Balancer AddrEntry) (pt : Pagetable) (cs : List VaCall) : Option Pagetable :=
  cs.foldlM (fun pt c => (vaStep rb pt c).map Prod.fst) pt

theorem VaRun.of_calls {rb : Balancer AddrEntry} {mmu : Mmu} {allowed : Pagetable → VaCall → Prop}
    {pt pt' : Pagetable} (cs : List VaCall) (hr : VaRun rb mmu allowed pt)
    (hall : ∀ pt, ∀ c ∈ cs, Proper c ∧ allowed pt c)
    (h : vaCalls rb pt cs = some pt') : VaRun rb mmu allowed pt' := by
  induction cs generalizing pt with
  | nil => exact Option.some.inj h ▸ hr
  | cons c cs ih =>
    rw [vaCalls, List.foldlM_cons] at h
    obtain ⟨pt₁, h₁, h⟩ := Option.bind_eq_some_iff.1 h
    obtain ⟨r, hr', rfl⟩ := Option.map_eq_some_iff.1 h₁
    obtain ⟨hc, ha⟩ := hall pt c List.mem_cons_self
    exact ih (hr.call c hc ha hr') (fun pt d hd => hall pt d (List.mem_cons_of_mem _ hd)) h

/-- A device with 64-bit addresses. -/
def mmu64 : Mmu := ⟨true, true, 0x500000, false⟩

/-- Two ranges are handed out and the second is put back. -/
theorem addresses_getPut :
    ∃ pt : Pagetable, pt.vaHint = KGSL_IOMMU_VA_BASE64 + 0x2000 ∧ pt.highest = pt.vaHint := by
  have hcalls : (vaCalls .list (kgslIopgtblPagetable mmu64) [.get false 0x2000 0x1000 true,
      .get false 0x1000 0x1000 true, .put (KGSL_IOMMU_VA_BASE64 + 0x2000)]).any
      (fun pt => decide (pt.vaHint = KGSL_IOMMU_VA_BASE64 + 0x2000) && decide (2 ^ 32 ≤ pt.vaEnd)) =
      true := by
    decide +kernel
  obtain ⟨pt, hpt, hp⟩ := (Option.any_eq_true _ _).1 hcalls
  simp only [Bool.and_eq_true, decide_eq_true_eq] at hp
  have hrun : VaRun .list mmu64 EntryAllocated pt := by
    refine .of_calls _ .init (fun pt c hc => ?_) hpt
    simp only [List.mem_cons, List.not_mem_nil, or_false] at hc
    rcases hc with rfl | rfl | rfl
    · exact ⟨⟨by decide, 12, rfl⟩, fun _ => rfl⟩
    · exact ⟨⟨by decide, 12, rfl⟩, fun _ => rfl⟩
    · exact ⟨trivial, trivial⟩
  exact ⟨pt, hp.1, ((addresses .list mmu64 hrun).2.1 hp.2).symm⟩

/-- The entry of a large range cannot be allocated, in neither attempt.  The hint stays in
    the middle of the window, the next range is too large for the rest and goes below,
    across the hint, and the one after it is served by the hint. -/
theorem addresses_staleHint :
    ¬ ∀ (rb : Balancer AddrEntry) (mmu : Mmu) (pt : Pagetable),
      VaRun rb mmu (fun _ _ => True) pt → RangesDisjoint pt := by
  intro hall
  have hcalls : (vaCalls .list (kgslIopgtblPagetable mmu64) [.get false 0x1000000000 0x1000 false,
      .get false 0x1000000000 0x1000 false, .get false 0x3000000000 0x1000 true,
      .get false 0x1000 0x1000 true]).any
      (fun pt => !decide (RangesDisjoint pt)) = true := by
    decide +kernel
  obtain ⟨pt, hpt, hover⟩ := (Option.any_eq_true _ _).1 hcalls
  have hrun : VaRun .list mmu64 (fun _ _ => True) pt := by
    refine .of_calls _ .init (fun pt c hc => ⟨?_, trivial⟩) hpt
    simp only [List.mem_cons, List.not_mem_nil, or_false] at hc
    rcases hc with rfl | rfl | rfl | rfl
    all_goals exact ⟨by decide, 12, rfl⟩
  rw [decide_eq_true (hall _ _ _ hrun)] at hover
  exact Bool.false_ne_true hover

end Sm8850.Kgsl
