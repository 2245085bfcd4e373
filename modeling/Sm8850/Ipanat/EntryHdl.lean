/-
  Rule handles as machine words (`ipa_table.h`, `ipa_table.c`).

  * `makeEntryHdlWord`, `breakRuleHdlWord`: the shifts and masks of
    `MakeEntryHdl` and `BREAK_RULE_HDL`.
  * `makeEntryHdlWord_toNat`, `breakRuleHdlWord_toNat`: on the slots of a table
    they compute what `makeEntryHdl` and `breakRuleHdl` say, so that no index
    spills into the fields beside it.
  * `ruleHdls_faithful`: handles decode to their slots, slots of both memories
    have handles of their own, and no hashed slot has handle 0.
-/
import Sm8850.Ipanat.Calls

namespace Sm8850.Ipanat

variable {d : Dims}

/-! ## The words -/

/-- `IPA_TABLE_TYPE_BITS`. -/
def ipaTableTypeBits : ℕ := 1
/-- `IPA_TABLE_TYPE_MASK`. -/
def ipaTableTypeMask : ℕ := 1
/-- `IPA_TABLE_INDX_MASK`. -/
def ipaTableIndxMask : ℕ := 0xFFF
/-- `IPA_TABLE_TYPE_MEM_SHIFT`. -/
def ipaTableTypeMemShift : ℕ := 15

/-- `MakeEntryHdl`, on the 16-bit words of the source. -/
def makeEntryHdlWord (tableEntries : UInt16) (nmi : MemIn) (tblEntry : UInt16) : UInt16 :=
  let entryHdl : UInt16 :=
    if tblEntry ≥ tableEntries then
      (tblEntry - tableEntries) <<< .ofNat ipaTableTypeBits ||| .ofNat ipaTableTypeMask
    else tblEntry <<< .ofNat ipaTableTypeBits
  entryHdl ||| .ofNat nmi.bit <<< .ofNat ipaTableTypeMemShift

/-- `BREAK_RULE_HDL` on a 32-bit handle: `mt`, `iet` and the 16-bit `indx`. -/
def breakRuleHdlWord (tableEntries : UInt16) (hdl : UInt32) : UInt32 × UInt32 × UInt16 :=
  let mt := hdl >>> .ofNat ipaTableTypeMemShift &&& .ofNat ipaTableTypeMask
  let iet := hdl &&& .ofNat ipaTableTypeMask
  let indx := (hdl >>> .ofNat ipaTableTypeBits &&& .ofNat ipaTableIndxMask).toUInt16
  (mt, iet, indx + if iet ≠ 0 then tableEntries else 0)

/-- The base size of a table as its 16-bit field holds it. -/
def Dims.tableEntriesWord (d : Dims) : UInt16 := .ofNat d.tableEntries

theorem Dims.toNat_tableEntriesWord (d : Dims) : d.tableEntriesWord.toNat = d.tableEntries :=
  UInt16.toNat_ofNat_of_lt' (d.base_le.trans_lt (by decide))

/-- Setting a bit above a value adds its weight. -/
theorem or_shiftLeft_bit {a b k : ℕ} (ha : a < 2 ^ k) : a ||| b <<< k = a + b * 2 ^ k := by
  rw [Nat.shiftLeft_eq, Nat.lor_comm, mul_comm, ← Nat.two_pow_add_eq_or_of_lt ha, add_comm]

/-- Setting the lowest bit of a shifted value adds one. -/
theorem double_or_one (a : ℕ) : 2 * a ||| 1 = 2 * a + 1 :=
  (Nat.two_pow_add_eq_or_of_lt (i := 1) (b := 1) (by decide) a).symm

/-! ## The words compute the handle -/

section
variable {ρ : Type} (t : Table d ρ) {i : UInt16}

theorem makeEntryHdl_lt {i : ℕ} (hi : i < d.totTblEnts) : makeEntryHdl t i < 2 ^ 16 := by
  have h₁ := d.base_le
  have h₂ := d.expn_le
  have h₃ := t.nmi.bit_lt
  simp only [Dims.totTblEnts] at hi
  unfold makeEntryHdl
  dsimp only
  split <;> omega

/-- The shifted index of a slot, with its expansion bit. -/
private theorem entryHdl_toNat (hi : i.toNat < d.totTblEnts) :
    (if i ≥ d.tableEntriesWord then
      (i - d.tableEntriesWord) <<< .ofNat ipaTableTypeBits ||| .ofNat ipaTableTypeMask
     else i <<< .ofNat ipaTableTypeBits : UInt16).toNat =
      if i.toNat ≥ d.tableEntries then 2 * (i.toNat - d.tableEntries) + 1 else 2 * i.toNat := by
  have h₁ := d.base_le
  have h₂ := d.expn_le
  have ht := d.toNat_tableEntriesWord
  simp only [Dims.totTblEnts] at hi
  have hle : (i ≥ d.tableEntriesWord) ↔ i.toNat ≥ d.tableEntries := by
    rw [ge_iff_le, UInt16.le_iff_toNat_le, ht]
  have hshift : ∀ x : UInt16, x.toNat < 2 ^ 12 →
      (x <<< (.ofNat ipaTableTypeBits : UInt16)).toNat = 2 * x.toNat := by
    intro x hx
    rw [UInt16.toNat_shiftLeft]
    change x.toNat <<< 1 % 2 ^ 16 = _
    rw [Nat.shiftLeft_eq]
    omega
  by_cases hb : i.toNat ≥ d.tableEntries
  · rw [if_pos (hle.2 hb), if_pos hb, UInt16.toNat_or]
    have hsub : (i - d.tableEntriesWord).toNat = i.toNat - d.tableEntries := by
      rw [UInt16.toNat_sub_of_le _ _ (hle.2 hb), ht]
    rw [hshift _ (by omega), hsub]
    exact double_or_one _
  · rw [if_neg (fun h => hb (hle.1 h)), if_neg hb]
    exact hshift i (by omega)

/-- On a slot of the table the word is the handle of that slot. -/
theorem makeEntryHdlWord_toNat (hi : i.toNat < d.totTblEnts) :
    (makeEntryHdlWord d.tableEntriesWord t.nmi i).toNat = makeEntryHdl t i.toNat := by
  have hlt := makeEntryHdl_lt t hi
  have hbit : (.ofNat t.nmi.bit <<< .ofNat ipaTableTypeMemShift : UInt16).toNat =
      t.nmi.bit <<< 15 := by
    cases t.nmi <;> rfl
  unfold makeEntryHdlWord makeEntryHdl at *
  dsimp only at *
  rw [UInt16.toNat_or, entryHdl_toNat hi, hbit]
  refine or_shiftLeft_bit ?_
  have h₁ := d.base_le
  have h₂ := d.expn_le
  simp only [Dims.totTblEnts] at hi
  split <;> omega

end

/-- On a 16-bit handle the words are the fields the handle breaks into. -/
theorem breakRuleHdlWord_toNat {hdl : UInt32} {mt iet : UInt32} {indx : UInt16}
    (h : breakRuleHdlWord d.tableEntriesWord hdl = (mt, iet, indx)) :
    (mt.toNat, iet.toNat, indx.toNat) = breakRuleHdl d hdl.toNat := by
  have h₁ := d.base_le
  have hiet : (hdl &&& .ofNat ipaTableTypeMask).toNat = hdl.toNat % 2 := by
    rw [UInt32.toNat_and]
    exact Nat.and_one_is_mod _
  have hmt : (hdl >>> .ofNat ipaTableTypeMemShift &&& .ofNat ipaTableTypeMask).toNat =
      hdl.toNat / 2 ^ 15 % 2 := by
    rw [UInt32.toNat_and, UInt32.toNat_shiftRight]
    change hdl.toNat >>> 15 &&& 1 = _
    rw [Nat.and_one_is_mod, Nat.shiftRight_eq_div_pow]
  have hidx : (hdl >>> .ofNat ipaTableTypeBits &&& .ofNat ipaTableIndxMask).toUInt16.toNat =
      hdl.toNat / 2 % 2 ^ 12 := by
    rw [UInt32.toNat_toUInt16, UInt32.toNat_and, UInt32.toNat_shiftRight]
    change (hdl.toNat >>> 1 &&& (2 ^ 12 - 1)) % 2 ^ 16 = _
    rw [Nat.and_two_pow_sub_one_eq_mod, Nat.shiftRight_eq_div_pow]
    omega
  have hzero : (hdl &&& .ofNat ipaTableTypeMask ≠ 0) ↔ hdl.toNat % 2 = 1 := by
    rw [Ne, ← UInt32.toNat_inj, hiet]
    change ¬ hdl.toNat % 2 = 0 ↔ _
    omega
  simp only [breakRuleHdlWord, Prod.mk.injEq] at h
  obtain ⟨rfl, rfl, rfl⟩ := h
  unfold breakRuleHdl
  dsimp only
  refine Prod.ext hmt (Prod.ext hiet ?_)
  dsimp only
  rw [UInt16.toNat_add, hidx]
  by_cases hx : hdl.toNat % 2 = 1
  · rw [if_pos (hzero.2 hx), if_pos hx, d.toNat_tableEntriesWord]
    omega
  · rw [if_neg (fun h => hx (hzero.1 h)), if_neg hx]
    change (_ + 0) % _ = _
    omega

/-! ## The slots a hash selects -/

/-- `ipa_ipv6ct_rule`, the fields its hash reads. -/
structure Ipv6ctRule where
  srcIpv6Lsb : UInt64
  srcIpv6Msb : UInt64
  destIpv6Lsb : UInt64
  destIpv6Msb : UInt64
  srcPort : UInt16
  destPort : UInt16
  protocol : UInt8

/-- The loop of `ipa_ipv6ct_xor_segments`; four turns empty a 64-bit number. -/
def xorSegmentsLoop : ℕ → UInt64 → UInt16 → UInt16
  | 0, _, ret => ret
  | fuel + 1, num, ret =>
    if num = 0 then ret else xorSegmentsLoop fuel (num >>> 16) (ret ^^^ (num &&& 0xffff).toUInt16)

/-- `ipa_ipv6ct_xor_segments`. -/
def ipaIpv6ctXorSegments (num : UInt64) : UInt16 := xorSegmentsLoop 4 num 0

/-- `ipa_ipv6ct_hash`. -/
def ipaIpv6ctHash (rule : Ipv6ctRule) (size : ℕ) : ℕ :=
  maskHash (ipaIpv6ctXorSegments rule.srcIpv6Lsb ^^^ ipaIpv6ctXorSegments rule.srcIpv6Msb ^^^
    ipaIpv6ctXorSegments rule.destIpv6Lsb ^^^ ipaIpv6ctXorSegments rule.destIpv6Msb ^^^
    rule.srcPort ^^^ rule.destPort ^^^ rule.protocol.toUInt16) size

/-- The slots a hash can select in a table: those of `dst_hash`, of `src_hash` and
    of `ipa_ipv6ct_hash`, and those the token moves a one-sided rule to. -/
inductive HashSelects (d : Dims) : ℕ → Prop
  | dst (env : Env) (pdns : List PdnEntry) (tok : ℕ) (r : Ipv4Rule) :
    HashSelects d (newEntryIndex env d pdns tok r).1
  | src (tok : ℕ) (r : Ipv4Rule) : HashSelects d (newIndexTblEntryIndex d tok r).1
  | ipv6ct (rule : Ipv6ctRule) : HashSelects d (ipaIpv6ctHash rule (d.tableEntries - 1))

theorem HashSelects.bounds {i : ℕ} (h : HashSelects d i) : 0 < i ∧ i < d.tableEntries := by
  cases h with
  | dst env pdns tok r => exact newEntryIndex_bounds env d pdns tok r
  | src tok r => exact newIndexTblEntryIndex_bounds d tok r
  | ipv6ct rule => exact maskHash_bounds d _

/-- Handle 0 is the first base slot of the table in DDR, and no other slot's. -/
theorem makeEntryHdl_eq_zero_iff {ρ : Type} (t : Table d ρ) {i : ℕ} :
    makeEntryHdl t i = 0 ↔ i = 0 ∧ t.nmi = .ddr := by
  have h2 := d.two_le_base
  have hbit : t.nmi.bit = 0 ↔ t.nmi = .ddr := by cases t.nmi <;> simp [MemIn.bit]
  rw [← hbit]
  unfold makeEntryHdl
  dsimp only
  split <;> omega

/-! ## Handles over both memories -/

/-- The handle word of slot `i` in a table with dimensions `d` and memory `nmi`. -/
def ruleHdlAt (d : Dims) (nmi : MemIn) (i : UInt16) : UInt16 :=
  makeEntryHdlWord d.tableEntriesWord nmi i

/-- A table of the given dimensions and memory, whatever it holds. -/
private def tableOf (d : Dims) (nmi : MemIn) : Table d Unit :=
  { nmi, tableIndx := 0, addrOffset := 0, recs := List.replicate d.totTblEnts ()
    curTblCnt := 0, curExpnTblCnt := 0, tblMeta := none, len := List.length_replicate }

theorem ruleHdlAt_toNat {nmi : MemIn} {i : UInt16} (hi : i.toNat < d.totTblEnts) :
    (ruleHdlAt d nmi i).toNat =
      (if i.toNat ≥ d.tableEntries then 2 * (i.toNat - d.tableEntries) + 1 else 2 * i.toNat) +
        nmi.bit * 2 ^ 15 :=
  makeEntryHdlWord_toNat (tableOf d nmi) hi

/-- Decoding the handle of a slot gives back its memory, its part of the table and
    its index. -/
theorem breakRuleHdlWord_ruleHdlAt (nmi : MemIn) {i : UInt16} (hi : i.toNat < d.totTblEnts) :
    breakRuleHdlWord d.tableEntriesWord (ruleHdlAt d nmi i).toUInt32 =
      (.ofNat nmi.bit, if i.toNat < d.tableEntries then 0 else 1, i) := by
  have h₁ := d.base_le
  have h₂ := d.expn_le
  have h₃ := nmi.bit_lt
  obtain ⟨mt, iet, indx, he⟩ : ∃ mt iet indx, breakRuleHdlWord d.tableEntriesWord
      (ruleHdlAt d nmi i).toUInt32 = (mt, iet, indx) := ⟨_, _, _, rfl⟩
  have hnat := breakRuleHdlWord_toNat he
  rw [UInt16.toNat_toUInt32, ruleHdlAt_toNat hi] at hnat
  simp only [Dims.totTblEnts] at hi
  obtain ⟨hm, hx, hn⟩ : mt.toNat = nmi.bit ∧
      iet.toNat = (if i.toNat < d.tableEntries then 0 else 1) ∧ indx.toNat = i.toNat := by
    simp only [breakRuleHdl, Prod.mk.injEq] at hnat
    obtain ⟨rm, rx, rn⟩ := hnat
    rw [rm, rx, rn]
    by_cases hb : i.toNat ≥ d.tableEntries
    · simp only [if_pos hb, if_neg (not_lt.2 hb)]
      refine ⟨by omega, by omega, ?_⟩
      rw [if_pos (by omega)]
      omega
    · simp only [if_neg hb, if_pos (not_le.1 hb)]
      refine ⟨by omega, by omega, ?_⟩
      rw [if_neg (by omega)]
      omega
  rw [he]
  refine Prod.ext (UInt32.toNat_inj.1 ?_) (Prod.ext (UInt32.toNat_inj.1 ?_)
    (UInt16.toNat_inj.1 hn))
  · rw [hm, UInt32.toNat_ofNat_of_lt' (h₃.trans (by decide))]
  · rw [hx]
    split <;> rfl

/-- The memory of a handle does not depend on the table it is decoded for. -/
theorem breakRuleHdlWord_mt (e e' : UInt16) (hdl : UInt32) :
    (breakRuleHdlWord e hdl).1 = (breakRuleHdlWord e' hdl).1 := rfl

/-- **Rule handles are faithful.**  For the tables of both memories, as
    `ipa_table_calculate_entries_num` sizes them: the handle of a slot decodes to its
    memory, its part and its index, no two slots share a handle, and the handle of a
    slot a hash selects is not 0. -/
theorem ruleHdls_faithful {n : MemIn → UInt16} {dims : MemIn → Dims}
    (h : ∀ m, ipaTableCalculateEntriesNum (n m).toNat m = .ok (dims m)) :
    (∀ m, (dims m).totTblEnts ≤ ipaTableMaxEntries) ∧
    (∀ m (i : UInt16), i.toNat < (dims m).totTblEnts →
      breakRuleHdlWord (dims m).tableEntriesWord (ruleHdlAt (dims m) m i).toUInt32 =
        (.ofNat m.bit, if i.toNat < (dims m).tableEntries then 0 else 1, i)) ∧
    (∀ m m' (i i' : UInt16), i.toNat < (dims m).totTblEnts → i'.toNat < (dims m').totTblEnts →
      ruleHdlAt (dims m) m i = ruleHdlAt (dims m') m' i' → m = m' ∧ i = i') ∧
    ∀ m (i : UInt16), HashSelects (dims m) i.toNat → ruleHdlAt (dims m) m i ≠ 0 := by
  refine ⟨?total, ?decode, ?distinct, ?nonzero⟩
  case total =>
    intro m
    have hm := h m
    unfold ipaTableCalculateEntriesNum at hm
    split at hm
    · cases hm
    · split at hm
      · cases hm
      · next ht =>
        rw [← Except.ok.inj hm]
        exact not_lt.1 ht
  case decode =>
    intro m i hi
    exact breakRuleHdlWord_ruleHdlAt m hi
  case distinct =>
    intro m m' i i' hi hi' he
    have hd := breakRuleHdlWord_ruleHdlAt m hi
    have hd' := breakRuleHdlWord_ruleHdlAt m' hi'
    rw [← he] at hd'
    have hbit : (UInt32.ofNat m.bit) = .ofNat m'.bit := by
      have := breakRuleHdlWord_mt (dims m).tableEntriesWord (dims m').tableEntriesWord
        (ruleHdlAt (dims m) m i).toUInt32
      rwa [hd, hd'] at this
    have hm : m = m' := by
      revert hbit
      cases m <;> cases m' <;> decide
    subst hm
    rw [hd] at hd'
    exact ⟨rfl, congrArg (·.2.2) hd'⟩
  case nonzero =>
    intro m i hs he
    obtain ⟨hpos, hlt⟩ := hs.bounds
    have h0 := congrArg UInt16.toNat he
    rw [ruleHdlAt_toNat (hlt.trans (dims m).tableEntries_lt_tot)] at h0
    exact hpos.ne' ((makeEntryHdl_eq_zero_iff (tableOf (dims m) m)).1 h0).1

/-- A hundred entries asked for in each memory. -/
theorem ruleHdls_faithful_hundred :
    ∃ dims : MemIn → Dims, ∀ m (i : UInt16), i.toNat < (dims m).totTblEnts →
      breakRuleHdlWord (dims m).tableEntriesWord (ruleHdlAt (dims m) m i).toUInt32 =
        (.ofNat m.bit, if i.toNat < (dims m).tableEntries then 0 else 1, i) := by
  have hs : ∀ m, ∃ d, ipaTableCalculateEntriesNum 100 m = .ok d := by
    intro m
    cases m
    · exact ⟨_, rfl⟩
    · exact ⟨_, rfl⟩
  choose dims hdims using hs
  exact ⟨dims, (ruleHdls_faithful (n := fun _ => 100) hdims).2.1⟩

end Sm8850.Ipanat
