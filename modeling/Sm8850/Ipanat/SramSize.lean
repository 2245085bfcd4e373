/-
  How many entries fit the SRAM (`ipa_calc_num_sram_table_entries`).

  * `tightPow`, `tightEven`, `slots`: what the two bounds of the sizing rule are
    for, over all naturals; `dims_slots` ties them to the dimensions the code
    computes, `get2PowerTightUpperBound_tightPow` to its 16-bit shift loop.
  * `ipaCalcNumSramTableEntries`: the search.  Its counter and its base size are
    16 bits wide, its sizes 32, so it takes fuel.
  * `search_largest_iff`: the search ends with the largest number that fits
    exactly when the first number that does not fit is at most 32768 and its
    size is not cut below the SRAM size.
-/
import Sm8850.Ipanat.Table
import Mathlib.Data.Nat.Log
import Mathlib.Tactic.Common

namespace Sm8850.Ipanat

/-! ## The sizing rule -/

/-- The least power of two from 2 up that is at least `n`. -/
def tightPow (n : ℕ) : ℕ := 2 ^ max 1 (Nat.clog 2 n)

/-- The least positive even number that is at least `n`. -/
def tightEven (n : ℕ) : ℕ := max 2 (2 * ((n + 1) / 2))

/-- The slots of an SRAM table for `n` entries. -/
def slots (n : ℕ) : ℕ := tightPow n + tightEven (n * 43 / 100)

theorem tightPow_mono : Monotone tightPow := fun _ _ h =>
  Nat.pow_le_pow_right (by omega) (max_le_max le_rfl (Nat.clog_mono_right 2 h))

theorem le_tightPow (n : ℕ) : n ≤ tightPow n :=
  (Nat.le_pow_clog (by omega) n).trans (Nat.pow_le_pow_right (by omega) (le_max_right _ _))

theorem slots_mono : Monotone slots := by
  intro m n h
  have hp : tightPow m ≤ tightPow n := tightPow_mono h
  have he : tightEven (m * 43 / 100) ≤ tightEven (n * 43 / 100) := by
    simp only [tightEven]
    omega
  exact Nat.add_le_add hp he

theorem le_slots (n : ℕ) : n ≤ slots n := (le_tightPow n).trans (Nat.le_add_right _ _)

theorem getEvenTightUpperBound_tightEven (n : ℕ) : getEvenTightUpperBound n = tightEven n := by
  unfold getEvenTightUpperBound tightEven
  split_ifs <;> omega

/-- What the shift loop holds after `j` turns. -/
private def prevAt (j : ℕ) : ℕ := if j = 0 then 0 else 2 ^ j

/-- The loop turns once for each bit of `tmp` below its highest. -/
private theorem get2PowerLoop_log (fuel j tmp : ℕ) (h0 : tmp ≠ 0) (hf : Nat.log 2 tmp < fuel)
    (hj : j + Nat.log 2 tmp < 16) : get2PowerLoop fuel tmp (prevAt j) (2 ^ (j + 1) % 65536) =
      (prevAt (j + Nat.log 2 tmp), 2 ^ (j + Nat.log 2 tmp + 1) % 65536) := by
  induction fuel generalizing j tmp with
  | zero => exact absurd hf (Nat.not_lt_zero _)
  | succ fuel ih =>
    unfold get2PowerLoop
    split
    · next h1 => simp [h1]
    · next h1 =>
      have hlog : Nat.log 2 tmp = Nat.log 2 (tmp / 2) + 1 :=
        Nat.log_of_one_lt_of_le (by omega) (by omega)
      have hlt : 2 ^ (j + 1) < 65536 :=
        (Nat.pow_lt_pow_iff_right (by omega)).2 (by omega : j + 1 < 16)
      have hprev : 2 ^ (j + 1) % 65536 = prevAt (j + 1) := by
        rw [Nat.mod_eq_of_lt hlt, prevAt, if_neg (Nat.succ_ne_zero j)]
      have hcurr : 2 * (2 ^ (j + 1) % 65536) % 65536 = 2 ^ (j + 1 + 1) % 65536 := by
        rw [Nat.mod_eq_of_lt hlt, ← pow_succ']
      have hsum : j + 1 + Nat.log 2 (tmp / 2) = j + Nat.log 2 tmp := by omega
      rw [hcurr, hprev, ih (j + 1) (tmp / 2) (by omega) (by omega) (by omega), hsum]

private theorem get2PowerLoop_start {n : ℕ} (h0 : n ≠ 0) (hn : n < 65536) :
    get2PowerLoop 16 n 0 2 = (prevAt (Nat.log 2 n), 2 ^ (Nat.log 2 n + 1) % 65536) := by
  have hlog : Nat.log 2 n < 16 := Nat.log_lt_of_lt_pow h0 hn
  have := get2PowerLoop_log 16 0 n h0 hlog (by omega)
  simpa [prevAt] using this

/-- Up to 32768 the 16-bit loop computes the tight power of two. -/
theorem get2PowerTightUpperBound_tightPow {n : ℕ} (hn : n ≤ 32768) :
    get2PowerTightUpperBound n = tightPow n := by
  unfold get2PowerTightUpperBound
  split
  · next h => simp [h, tightPow]
  · next h0 =>
    rw [get2PowerLoop_start h0 (by omega)]
    dsimp only
    have hle : 2 ^ Nat.log 2 n ≤ n := Nat.pow_log_le_self 2 h0
    have hlt : n < 2 ^ (Nat.log 2 n + 1) := Nat.lt_pow_succ_log_self (by omega) n
    split
    · next he =>
      -- `n` is a power of two above 1, and its own bound
      unfold prevAt at he ⊢
      split at he
      · exact absurd he h0
      · next hl =>
        rw [if_neg hl, tightPow]
        conv_rhs => rw [he, Nat.clog_pow 2 _ (by omega)]
        rw [max_eq_right (by omega)]
    · next hne =>
      -- `n` is 1, or lies strictly between two powers
      have hclog : max 1 (Nat.clog 2 n) = Nat.log 2 n + 1 := by
        by_cases h1 : n = 1
        · simp [h1]
        · have hl : Nat.log 2 n ≠ 0 := (Nat.log_pos (by omega) (by omega)).ne'
          rw [prevAt, if_neg hl] at hne
          have : Nat.clog 2 n = Nat.log 2 n + 1 := by
            apply le_antisymm (Nat.clog_le_of_le_pow hlt.le)
            exact (Nat.lt_clog_iff_pow_lt (by omega)).2 (by omega)
          omega
      have hcut : 2 ^ (Nat.log 2 n + 1) < 65536 := by
        have hl : Nat.log 2 n < 15 := by
          by_contra hc
          have hp : 2 ^ 15 ≤ 2 ^ Nat.log 2 n := Nat.pow_le_pow_right (by omega) (by omega)
          have hn' : n = 32768 := by omega
          subst hn'
          exact hne (by decide)
        exact (Nat.pow_lt_pow_iff_right (by omega)).2 (by omega : Nat.log 2 n + 1 < 16)
      rw [Nat.mod_eq_of_lt hcut, tightPow, hclog]

/-- From 32769 up the last shift leaves nothing of the base size. -/
theorem get2PowerTightUpperBound_cut {n : ℕ} (hn : 32768 < n) (hn' : n < 65536) :
    get2PowerTightUpperBound n = 0 := by
  have hlog : Nat.log 2 n = 15 :=
    Nat.log_eq_of_pow_le_of_lt_pow (by omega : 2 ^ 15 ≤ n) (by omega)
  unfold get2PowerTightUpperBound
  rw [if_neg (by omega), get2PowerLoop_start (by omega) hn', hlog]
  dsimp only [prevAt]
  rw [if_neg (by simp; omega)]
  rfl

/-- The dimensions computed for an SRAM table are those of the rule. -/
theorem dims_slots {n : ℕ} {d : Dims} (h : ipaTableCalculateEntriesNum n .sram = .ok d) :
    d.tableEntries = tightPow n ∧ d.expnTableEntries = tightEven (n * 43 / 100) := by
  unfold ipaTableCalculateEntriesNum at h
  split at h
  · cases h
  · next hn =>
    split at h
    · cases h
    · cases h
      simp only [ipaTableMaxEntries] at hn
      exact ⟨get2PowerTightUpperBound_tightPow (by simp only [baseShare]; omega),
        getEvenTightUpperBound_tightEven _⟩

/-! ## The search -/

/-- `ipa_table_calculate_size`, the bits of its `int`. -/
def ipaTableCalculateSize (entrySize tableEntries expnTableEntries : ℕ) : ℕ :=
  entrySize * (tableEntries + expnTableEntries) % 2 ^ 32

/-- `size` in the turn of the loop that tries `tot` entries. -/
def trySize (table1EntSize table2EntSize tot : ℕ) : ℕ :=
  let tableEntries := get2PowerTightUpperBound (baseShare tot .sram)
  let expnTableEntries := getEvenTightUpperBound (expnShare tot .sram)
  (ipaTableCalculateSize table1EntSize tableEntries expnTableEntries +
    ipaTableCalculateSize table2EntSize tableEntries expnTableEntries) % 2 ^ 32

/-- The `while (1)` from `tot` with `*num_entries_ptr` at `num`. -/
def calcNumLoop (sramSize table1EntSize table2EntSize : ℕ) : ℕ → ℕ → ℕ → Option ℕ
  | 0, _, _ => none
  | fuel + 1, tot, num =>
    if sramSize < trySize table1EntSize table2EntSize tot then some num
    else calcNumLoop sramSize table1EntSize table2EntSize fuel (inc16 tot) tot

/-- `ipa_calc_num_sram_table_entries`: its status and `*num_entries_ptr`. -/
def ipaCalcNumSramTableEntries (fuel sramSize table1EntSize table2EntSize : ℕ) :
    Option (ℤ × ℕ) :=
  (calcNumLoop sramSize table1EntSize table2EntSize fuel 1 0).map fun num =>
    (if num ≠ 0 then 0 else -1, num)

section
variable {sramSize e₁ e₂ : ℕ}

theorem trySize_eq (e₁ e₂ tot : ℕ) : trySize e₁ e₂ tot =
    (e₁ + e₂) * (get2PowerTightUpperBound tot + tightEven (tot * 43 / 100)) % 2 ^ 32 := by
  simp only [trySize, ipaTableCalculateSize, baseShare, expnShare,
    getEvenTightUpperBound_tightEven, ← Nat.add_mod, Nat.add_mul]

theorem trySize_slots {tot : ℕ} (h : tot ≤ 32768) :
    trySize e₁ e₂ tot = (e₁ + e₂) * slots tot % 2 ^ 32 := by
  rw [trySize_eq, get2PowerTightUpperBound_tightPow h, slots]

/-- What fits in 32 bits of SRAM is not cut. -/
theorem trySize_le {tot : ℕ} (h : tot ≤ 32768) (hfit : (e₁ + e₂) * slots tot ≤ sramSize) :
    trySize e₁ e₂ tot ≤ sramSize := by
  rw [trySize_slots h]
  exact (Nat.mod_le _ _).trans hfit

/-- Where all of 32768 entries fit, every 16-bit count seems to. -/
theorem trySize_le_of_all (hfit : (e₁ + e₂) * slots 32768 ≤ sramSize) {tot : ℕ}
    (h : tot < 65536) : trySize e₁ e₂ tot ≤ sramSize := by
  rcases Nat.lt_or_ge 32768 tot with hlt | hle
  · have hexpn : tightEven (tot * 43 / 100) ≤ slots 32768 := by
      have hslots : 32768 ≤ slots 32768 := le_slots _
      simp only [tightEven]
      omega
    rw [trySize_eq, get2PowerTightUpperBound_cut hlt h, Nat.zero_add]
    exact (Nat.mod_le _ _).trans ((Nat.mul_le_mul_left _ hexpn).trans hfit)
  · exact trySize_le hle ((Nat.mul_le_mul_left _ (slots_mono hle)).trans hfit)

/-- More turns do not change a result. -/
theorem calcNumLoop_mono {fuel fuel' : ℕ} (hle : fuel ≤ fuel') {tot num r : ℕ}
    (h : calcNumLoop sramSize e₁ e₂ fuel tot num = some r) :
    calcNumLoop sramSize e₁ e₂ fuel' tot num = some r := by
  induction fuel generalizing fuel' tot num with
  | zero => cases h
  | succ fuel ih =>
    obtain ⟨fuel', rfl⟩ : ∃ k, fuel' = k + 1 := ⟨fuel' - 1, by omega⟩
    unfold calcNumLoop at h ⊢
    split at h
    · next hbig => rwa [if_pos hbig]
    · next hfit => rw [if_neg hfit]; exact ih (by omega) h

/-- A counter that never meets a size above the SRAM turns for ever. -/
theorem calcNumLoop_none (hall : ∀ m < 65536, trySize e₁ e₂ m ≤ sramSize) (fuel : ℕ) {tot : ℕ}
    (htot : tot < 65536) (num : ℕ) : calcNumLoop sramSize e₁ e₂ fuel tot num = none := by
  induction fuel generalizing tot num with
  | zero => rfl
  | succ fuel ih =>
    unfold calcNumLoop
    rw [if_neg (not_lt.2 (hall tot htot))]
    apply ih
    unfold inc16
    split <;> omega

/-- The search stops at the first size above the SRAM. -/
theorem calcNumLoop_first {tot stop : ℕ} (hle : tot ≤ stop) (hstop : stop < 65536)
    (hfit : ∀ m, tot ≤ m → m < stop → trySize e₁ e₂ m ≤ sramSize)
    (hbig : sramSize < trySize e₁ e₂ stop) (num : ℕ) :
    calcNumLoop sramSize e₁ e₂ (stop - tot + 1) tot num =
      some (if tot = stop then num else stop - 1) := by
  obtain ⟨k, rfl⟩ := Nat.exists_eq_add_of_le hle
  induction k generalizing tot num with
  | zero =>
    unfold calcNumLoop
    rw [if_pos (by simpa using hbig)]
    simp
  | succ k ih =>
    have hfuel : tot + (k + 1) - tot + 1 = (tot + 1 + k - (tot + 1) + 1) + 1 := by omega
    have hinc : inc16 tot = tot + 1 := by
      unfold inc16
      rw [if_neg (by omega)]
    have hassoc : tot + (k + 1) = tot + 1 + k := by omega
    have hrest := ih tot (Nat.le_add_right (tot + 1) k) (hassoc ▸ hstop)
      (fun m hm hm' => hfit m (by omega) (by omega)) (hassoc ▸ hbig)
    rw [hfuel, calcNumLoop, if_neg (not_lt.2 (hfit tot le_rfl (by omega))), hinc, hrest,
      if_neg (by omega : tot ≠ tot + (k + 1)), hassoc]
    split
    · next hk => congr 1; omega
    · rfl

/-- Where 32768 entries fit, the search does not end. -/
theorem search_never (hfit : (e₁ + e₂) * slots 32768 ≤ sramSize) (fuel : ℕ) :
    ipaCalcNumSramTableEntries fuel sramSize e₁ e₂ = none := by
  unfold ipaCalcNumSramTableEntries
  rw [calcNumLoop_none (fun m hm => trySize_le_of_all hfit hm) fuel (by omega)]
  rfl

end

/-! ## The largest number that fits -/

/-- Both tables for `n` entries together fit the SRAM. -/
def Fits (sramSize table1EntSize table2EntSize n : ℕ) : Prop :=
  table1EntSize * slots n + table2EntSize * slots n ≤ sramSize

/-- The search ends, and a success is the largest number that fits. -/
def FindsLargest (sramSize table1EntSize table2EntSize : ℕ) : Prop :=
  ∃ fuel ret num,
    ipaCalcNumSramTableEntries fuel sramSize table1EntSize table2EntSize = some (ret, num) ∧
      (ret = 0 → IsGreatest {n | Fits sramSize table1EntSize table2EntSize n} num)

section
variable {sramSize e₁ e₂ : ℕ}

theorem fits_iff {n : ℕ} : Fits sramSize e₁ e₂ n ↔ (e₁ + e₂) * slots n ≤ sramSize := by
  rw [Fits, Nat.add_mul]

theorem Fits.mono {m n : ℕ} (h : Fits sramSize e₁ e₂ n) (hle : m ≤ n) :
    Fits sramSize e₁ e₂ m := by
  rw [fits_iff] at h ⊢
  exact (Nat.mul_le_mul_left _ (slots_mono hle)).trans h

theorem exists_not_fits (sramSize e₂ : ℕ) (h : 0 < e₁) : ∃ n, 0 < n ∧ ¬ Fits sramSize e₁ e₂ n := by
  refine ⟨sramSize + 1, Nat.succ_pos _, fun hfit => ?_⟩
  have hslots := le_slots (sramSize + 1)
  have hmul : 1 * slots (sramSize + 1) ≤ (e₁ + e₂) * slots (sramSize + 1) :=
    Nat.mul_le_mul_right _ (by omega)
  have := fits_iff.1 hfit
  omega

/-- The search that stops at `stop` ends with the number before it. -/
theorem search_first {stop : ℕ} (hpos : 0 < stop) (hstop : stop < 65536)
    (hfit : ∀ m, 1 ≤ m → m < stop → trySize e₁ e₂ m ≤ sramSize)
    (hbig : sramSize < trySize e₁ e₂ stop) :
    calcNumLoop sramSize e₁ e₂ (stop - 1 + 1) 1 0 = some (stop - 1) := by
  rw [calcNumLoop_first hpos hstop hfit hbig]
  split
  · next h => simp [← h]
  · rfl

/-- Uncut sizes up to the first that does not fit make the search right. -/
theorem findsLargest_of_least {n : ℕ} (hn : n ≤ 32768)
    (hleast : IsLeast {n | 0 < n ∧ ¬ Fits sramSize e₁ e₂ n} n)
    (hbig : sramSize < (e₁ * slots n + e₂ * slots n) % 2 ^ 32) :
    FindsLargest sramSize e₁ e₂ := by
  obtain ⟨⟨hpos, hnot⟩, hmin⟩ := hleast
  have hfit : ∀ m, 1 ≤ m → m < n → Fits sramSize e₁ e₂ m := by
    intro m hm hlt
    by_contra hc
    exact absurd (hmin ⟨hm, hc⟩) (not_le.2 hlt)
  have hrun := search_first hpos (by omega)
    (fun m hm hlt => trySize_le (by omega) (fits_iff.1 (hfit m hm hlt)))
    (by rwa [trySize_slots hn, Nat.add_mul])
  refine ⟨_, _, _, by rw [ipaCalcNumSramTableEntries, hrun]; rfl, fun hret => ⟨?_, ?_⟩⟩
  · refine hfit (n - 1) ?_ (by omega)
    by_contra hc
    have h0 : n - 1 = 0 := by omega
    simp [h0] at hret
  · intro m hm
    by_contra hc
    exact hnot (Fits.mono hm (by omega))

/-- A search that is right stops at the first number that does not fit. -/
theorem least_of_findsLargest (h : FindsLargest sramSize e₁ e₂) {n : ℕ}
    (hleast : IsLeast {n | 0 < n ∧ ¬ Fits sramSize e₁ e₂ n} n) :
    n ≤ 32768 ∧ sramSize < (e₁ * slots n + e₂ * slots n) % 2 ^ 32 := by
  obtain ⟨fuel, ret, num, hrun, hright⟩ := h
  obtain ⟨⟨hpos, hnot⟩, hmin⟩ := hleast
  have hfit : ∀ m, 1 ≤ m → m < n → Fits sramSize e₁ e₂ m := by
    intro m hm hlt
    by_contra hc
    exact absurd (hmin ⟨hm, hc⟩) (not_le.2 hlt)
  have hn : n ≤ 32768 := by
    by_contra hc
    rw [search_never (fits_iff.1 (hfit 32768 (by omega) (by omega)))] at hrun
    cases hrun
  refine ⟨hn, ?_⟩
  by_contra hcut
  have hseems : ∀ m, 1 ≤ m → m ≤ n → trySize e₁ e₂ m ≤ sramSize := by
    intro m hm hle
    rcases Nat.lt_or_ge m n with hlt | hge
    · exact trySize_le (by omega) (fits_iff.1 (hfit m hm hlt))
    · obtain rfl : m = n := by omega
      rw [trySize_slots hn, Nat.add_mul]
      omega
  obtain ⟨num', hloop, hpair⟩ := Option.map_eq_some_iff.1 hrun
  by_cases hex : ∃ k, 1 ≤ k ∧ k < 65536 ∧ sramSize < trySize e₁ e₂ k
  · -- the first size that exceeds the SRAM is past `n`, and the result not below it
    classical
    have hk := Nat.find_spec hex
    set k := Nat.find hex with hkdef
    have hnk : n < k := by
      by_contra hc
      exact absurd (hseems k hk.1 (by omega)) (not_le.2 hk.2.2)
    have hfirst := search_first hk.1 hk.2.1
      (fun m hm hlt => by
        by_contra hc
        exact Nat.find_min hex (hkdef ▸ hlt) ⟨hm, by omega, by omega⟩) hk.2.2
    have hnum : num' = k - 1 := by
      have h₁ := calcNumLoop_mono (Nat.le_max_left fuel (k - 1 + 1)) hloop
      have h₂ := calcNumLoop_mono (Nat.le_max_right fuel (k - 1 + 1)) hfirst
      exact Option.some.inj (h₁.symm.trans h₂)
    obtain ⟨rfl, rfl⟩ := Prod.mk.inj hpair
    have hgreat := hright (by rw [if_pos (by omega)])
    exact hnot (Fits.mono hgreat.1 (by omega))
  · have hall : ∀ m < 65536, trySize e₁ e₂ m ≤ sramSize := by
      intro m hm
      rcases Nat.eq_zero_or_pos m with rfl | hm0
      · -- zero entries take the slots of one
        exact hseems 1 le_rfl hpos
      · by_contra hc
        exact hex ⟨m, hm0, hm, by omega⟩
    rw [calcNumLoop_none hall fuel (by omega)] at hloop
    cases hloop

end

/-- **The search for the SRAM size**: it ends with the largest number of entries
    that fits exactly when the first number that does not fit is at most 32768
    and its size, cut to 32 bits, still exceeds the SRAM. -/
theorem search_largest_iff (sramSize table1EntSize table2EntSize : ℕ)
    (h₁ : 0 < table1EntSize) :
    FindsLargest sramSize table1EntSize table2EntSize ↔
      ∃ n ≤ 32768, IsLeast {n | 0 < n ∧ ¬ Fits sramSize table1EntSize table2EntSize n} n ∧
        sramSize < (table1EntSize * slots n + table2EntSize * slots n) % 2 ^ 32 := by
  constructor
  · intro h
    classical
    have hex := exists_not_fits sramSize table2EntSize h₁
    have hleast : IsLeast {n | 0 < n ∧ ¬ Fits sramSize table1EntSize table2EntSize n}
        (Nat.find hex) := ⟨Nat.find_spec hex, fun m hm => Nat.find_min' hex hm⟩
    obtain ⟨hn, hbig⟩ := least_of_findsLargest h hleast
    exact ⟨_, hn, hleast, hbig⟩
  · rintro ⟨n, hn, hleast, hbig⟩
    exact findsLargest_of_least hn hleast hbig

/-- 4096 bytes with entries of 32 and 4 bytes take 64 rules: 65 would double the base. -/
theorem search_largest_4096 : FindsLargest 4096 32 4 := by
  refine (search_largest_iff 4096 32 4 (by omega)).2
    ⟨65, by omega, ⟨⟨by omega, ?_⟩, ?_⟩, by decide⟩
  · simp only [Fits]
    decide
  · intro m hm
    by_contra hc
    exact hm.2 (Fits.mono (n := 64) (by simp only [Fits]; decide) (by omega))

/-- Four megabytes take more entries of 32 and 4 bytes than the counter can try. -/
theorem search_stuck : ¬ FindsLargest 4194304 32 4 := by
  rintro ⟨fuel, ret, num, hrun, -⟩
  rw [search_never (by decide)] at hrun
  cases hrun

end Sm8850.Ipanat
