/-
  The PDN table (`ipa_nati_alloc_pdn`, `ipa_nati_dealloc_pdn`).

  * `searchPdn`: the loop of the allocator, which stops at the first entry that has
    the address or is empty, whichever comes first.
  * `PdnsRight`: the count counts, and no address has two entries.
  * `FindsPresent`: what an allocation of a present address needs to find it.
  * `pdns_right`: with it in every allocation, every run keeps the table right and
    every allocation of a present address answers its index; without it the next
    allocation goes wrong.
-/
import Sm8850.Ipanat.NatRuns

namespace Sm8850.Ipanat

/-! ## The calls -/

/-- `IPA_MAX_PDN_NUM`. -/
def ipaMaxPdnNum : ℕ := 16

/-- How the loop of `ipa_nati_alloc_pdn` ends. -/
inductive PdnSearch
  | same (i : ℕ)
  | empty (i : ℕ)
  | full

/-- The loop of `ipa_nati_alloc_pdn`, over `n` entries from `i`. -/
def searchPdn (pdns : List PdnEntry) (publicIp : UInt32) : ℕ → ℕ → PdnSearch
  | 0, _ => .full
  | n + 1, i =>
    if (pdnAt pdns i).publicIp = publicIp then .same i
    else if pdnAt pdns i = PdnEntry.zero then .empty i
    else searchPdn pdns publicIp n (i + 1)

/-- `ipa_nati_alloc_pdn`; the second component is what it stores through `pdn_index`.
    Metadata that differ are only warned of. -/
def ipaNatiAllocPdn (env : Env) (w : Drv) (pdnInfo : PdnEntry) : ℤ × Option ℕ × Drv :=
  if w.numPdns ≥ ipaMaxPdnNum - 1 then (-eio, none, w)
  else
    match searchPdn w.pdns pdnInfo.publicIp (ipaMaxPdnNum - 1) 0 with
    | .same i => (0, some i, w)
    | .full => (-eio, none, w)
    | .empty i =>
      match ipaNatiModifyPdn env w i pdnInfo with
      | (0, w) => (0, some i, { w with numPdns := w.numPdns + 1 })
      | (ret, w) => (ret, none, w)

/-- `ipa_nati_dealloc_pdn`. -/
def ipaNatiDeallocPdn (env : Env) (w : Drv) (pdnIndex : ℕ) : ℤ × Drv :=
  if w.numPdns = 0 then (-eio, w)
  else if pdnAt w.pdns pdnIndex = PdnEntry.zero then (-eio, w)
  else
    match ipaNatiModifyPdn env w pdnIndex PdnEntry.zero with
    | (0, w) =>
      (0, { w with pdns := w.pdns.set pdnIndex PdnEntry.zero, numPdns := w.numPdns - 1 })
    | (_, w) => (-eio, w)

/-! ## The search -/

theorem pdnAt_set {pdns : List PdnEntry} {k : ℕ} (hk : k < pdns.length) (e : PdnEntry) (i : ℕ) :
    pdnAt (pdns.set k e) i = if i = k then e else pdnAt pdns i := by
  simp only [pdnAt, List.getD_eq_getElem?_getD, List.getElem?_set]
  by_cases h : k = i
  · subst h
    simp [hk]
  · rw [if_neg h, if_neg (Ne.symm h)]

/-- The entries a search has passed. -/
def Passed (pdns : List PdnEntry) (publicIp : UInt32) (i k : ℕ) : Prop :=
  ∀ m, i ≤ m → m < k → (pdnAt pdns m).publicIp ≠ publicIp ∧ pdnAt pdns m ≠ PdnEntry.zero

/-- The search stops at the first entry that has the address or is empty. -/
theorem searchPdn_spec (pdns : List PdnEntry) (publicIp : UInt32) (n i : ℕ) :
    match searchPdn pdns publicIp n i with
    | .same k => k < i + n ∧ (pdnAt pdns k).publicIp = publicIp ∧ Passed pdns publicIp i k
    | .empty k => k < i + n ∧ (pdnAt pdns k).publicIp ≠ publicIp ∧
        pdnAt pdns k = PdnEntry.zero ∧ Passed pdns publicIp i k
    | .full => Passed pdns publicIp i (i + n) := by
  induction n generalizing i with
  | zero => exact fun m hm hm' => absurd hm' (not_lt.2 hm)
  | succ n ih =>
    have hstart : Passed pdns publicIp i i := fun m hm hm' => absurd hm' (not_lt.2 hm)
    unfold searchPdn
    by_cases hsame : (pdnAt pdns i).publicIp = publicIp
    · rw [if_pos hsame]
      exact ⟨by omega, hsame, hstart⟩
    rw [if_neg hsame]
    by_cases hempty : pdnAt pdns i = PdnEntry.zero
    · rw [if_pos hempty]
      exact ⟨by omega, hsame, hempty, hstart⟩
    rw [if_neg hempty]
    have hcons : ∀ k, Passed pdns publicIp (i + 1) k → Passed pdns publicIp i k := by
      intro k hp m hm hm'
      rcases Nat.eq_or_lt_of_le hm with rfl | hlt
      · exact ⟨hsame, hempty⟩
      · exact hp m hlt hm'
    have hrest := ih (i + 1)
    cases hs : searchPdn pdns publicIp n (i + 1) with
    | same k =>
      rw [hs] at hrest
      obtain ⟨h₁, h₂, h₃⟩ := hrest
      exact ⟨by omega, h₂, hcons k h₃⟩
    | empty k =>
      rw [hs] at hrest
      obtain ⟨h₁, h₂, h₃, h₄⟩ := hrest
      exact ⟨by omega, h₂, h₃, hcons k h₄⟩
    | full =>
      rw [hs] at hrest
      have hend : i + 1 + n = i + (n + 1) := by omega
      exact hcons _ (hend ▸ hrest)

/-! ## The table -/

/-- **The table is right**: the count counts the entries in use, and no address has two
    of them. -/
structure PdnsRight (w : Drv) : Prop where
  count : w.numPdns = w.pdns.countP (· ≠ PdnEntry.zero)
  unique : ∀ i j, i < ipaMaxPdnNum → j < ipaMaxPdnNum → (pdnAt w.pdns i).publicIp ≠ 0 →
    (pdnAt w.pdns i).publicIp = (pdnAt w.pdns j).publicIp → i = j

/-- What the calls keep besides: the device is open, an entry without an address is
    empty, and the last entry is never given out. -/
structure PdnInv (w : Drv) : Prop extends PdnsRight w where
  len : w.pdns.length = ipaMaxPdnNum
  clean : ∀ i, (pdnAt w.pdns i).publicIp = 0 → pdnAt w.pdns i = PdnEntry.zero
  last : pdnAt w.pdns (ipaMaxPdnNum - 1) = PdnEntry.zero
  opened : w.ddr.ipaDesc = true ∨ w.sram.ipaDesc = true

/-- An allocation of a present address finds it: the table is not full, and no entry
    before it is empty. -/
def FindsPresent (w : Drv) (pdnInfo : PdnEntry) : Prop :=
  ∀ i < ipaMaxPdnNum, (pdnAt w.pdns i).publicIp = pdnInfo.publicIp →
    w.numPdns < ipaMaxPdnNum - 1 ∧ ∀ k < i, pdnAt w.pdns k ≠ PdnEntry.zero

/-- An allocation does what it should: a present address answers its index and changes
    nothing, and the table is right afterwards. -/
def AllocRight (env : Env) (w : Drv) (pdnInfo : PdnEntry) : Prop :=
  (∀ i < ipaMaxPdnNum, (pdnAt w.pdns i).publicIp = pdnInfo.publicIp →
    ipaNatiAllocPdn env w pdnInfo = (0, some i, w)) ∧
  PdnsRight (ipaNatiAllocPdn env w pdnInfo).2.2

/-- A modify whose ioctl succeeds writes the entry. -/
theorem ipaNatiModifyPdn_ok {env : Env} {w : Drv}
    (ho : w.ddr.ipaDesc = true ∨ w.sram.ipaDesc = true) (hio : env.io w.calls = true) (i : ℕ)
    (e : PdnEntry) :
    ipaNatiModifyPdn env w i e =
      (0, { w with pdns := w.pdns.set i e, calls := w.calls + 1 }) := by
  have hopen :
      (w.natCache (if w.ddr.ipaDesc = true then MemIn.ddr else MemIn.sram)).ipaDesc = true := by
    by_cases hd : w.ddr.ipaDesc = true
    · rw [if_pos hd]
      exact hd
    · rw [if_neg hd]
      exact ho.resolve_left hd
  simp only [ipaNatiModifyPdn, hopen, Bool.not_true, Bool.false_eq_true, if_false, sysCall, hio]

section Step
variable {w : Drv} (h : PdnInv w)

include h

/-- Writing an entry that is not the last keeps the invariant, with the count adjusted
    and the address new. -/
theorem PdnInv.write {k : ℕ} (hk : k < ipaMaxPdnNum - 1) {e : PdnEntry} {n c : ℕ}
    (hclean : e.publicIp = 0 → e = PdnEntry.zero)
    (hnew : e.publicIp ≠ 0 → ∀ j < ipaMaxPdnNum, j ≠ k → (pdnAt w.pdns j).publicIp ≠ e.publicIp)
    (hcount : n = w.numPdns - (if pdnAt w.pdns k ≠ PdnEntry.zero then 1 else 0) +
      (if e ≠ PdnEntry.zero then 1 else 0)) :
    PdnInv { w with pdns := w.pdns.set k e, numPdns := n, calls := c } := by
  have hlt : k < w.pdns.length := by
    rw [h.len]
    omega
  have hat := pdnAt_set hlt e
  have hget : pdnAt w.pdns k = w.pdns[k] := List.getD_eq_getElem _ _ hlt
  refine ⟨⟨?_, fun i j hi hj hne heq => ?_⟩, ?_, fun i hi => ?_, ?_, h.opened⟩
  · show n = (w.pdns.set k e).countP _
    rw [List.countP_set hlt, hcount, h.count, hget]
    simp only [decide_eq_true_eq]
  · simp only [hat] at hne heq
    by_cases hik : i = k <;> by_cases hjk : j = k
    · exact hik.trans hjk.symm
    · rw [if_pos hik, if_neg hjk] at heq
      rw [if_pos hik] at hne
      exact absurd heq.symm (hnew hne j hj hjk)
    · rw [if_neg hik, if_pos hjk] at heq
      rw [if_neg hik] at hne
      exact absurd heq (hnew (heq ▸ hne) i hi hik)
    · rw [if_neg hik, if_neg hjk] at heq
      rw [if_neg hik] at hne
      exact h.unique i j hi hj hne heq
  · exact (List.length_set ..).trans h.len
  · simp only [hat] at hi ⊢
    split
    · next hik =>
      rw [if_pos hik] at hi
      exact hclean hi
    · next hik =>
      rw [if_neg hik] at hi
      exact h.clean i hi
  · simp only [hat]
    rw [if_neg (by omega)]
    exact h.last

/-- An allocation of an address that is not there. -/
theorem PdnInv.alloc_new {env : Env} (hio : env.io w.calls = true) {pdnInfo : PdnEntry}
    (hip : pdnInfo.publicIp ≠ 0)
    (hnew : ∀ i < ipaMaxPdnNum, (pdnAt w.pdns i).publicIp ≠ pdnInfo.publicIp) :
    PdnInv (ipaNatiAllocPdn env w pdnInfo).2.2 := by
  unfold ipaNatiAllocPdn
  split
  · exact h
  have hs := searchPdn_spec w.pdns pdnInfo.publicIp (ipaMaxPdnNum - 1) 0
  cases hr : searchPdn w.pdns pdnInfo.publicIp (ipaMaxPdnNum - 1) 0 with
  | same k =>
    rw [hr] at hs
    exact absurd hs.2.1 (hnew k (by omega))
  | full => exact h
  | empty k =>
    rw [hr] at hs
    obtain ⟨hk, -, hzero, -⟩ := hs
    dsimp only
    rw [ipaNatiModifyPdn_ok h.opened hio]
    refine h.write (by omega) (fun h0 => absurd h0 hip) (fun _ j hj _ => hnew j hj) ?_
    have hne : pdnInfo ≠ PdnEntry.zero := fun e => hip (by rw [e]; rfl)
    rw [if_neg (not_not.2 hzero), if_pos hne]
    rfl

/-- **An allocation does what it should exactly when it finds the address if it is
    present**, and then the invariant stays. -/
theorem PdnInv.alloc_iff {env : Env} (hio : env.io w.calls = true) {pdnInfo : PdnEntry}
    (hip : pdnInfo.publicIp ≠ 0) :
    (AllocRight env w pdnInfo ↔ FindsPresent w pdnInfo) ∧
      (FindsPresent w pdnInfo → PdnInv (ipaNatiAllocPdn env w pdnInfo).2.2) := by
  by_cases hpresent : ∃ i < ipaMaxPdnNum, (pdnAt w.pdns i).publicIp = pdnInfo.publicIp
  swap
  · have hnew : ∀ i < ipaMaxPdnNum, (pdnAt w.pdns i).publicIp ≠ pdnInfo.publicIp :=
      fun i hi he => hpresent ⟨i, hi, he⟩
    have hinv := h.alloc_new hio hip hnew
    exact ⟨⟨fun _ i hi he => absurd he (hnew i hi), fun _ =>
      ⟨fun i hi he => absurd he (hnew i hi), hinv.toPdnsRight⟩⟩, fun _ => hinv⟩
  obtain ⟨i, hi, hat⟩ := hpresent
  have hi15 : i < ipaMaxPdnNum - 1 := by
    by_contra hc
    have hil : i = ipaMaxPdnNum - 1 := by omega
    rw [hil, h.last] at hat
    exact hip hat.symm
  have honly : ∀ j < ipaMaxPdnNum, (pdnAt w.pdns j).publicIp = pdnInfo.publicIp → j = i :=
    fun j hj he => h.unique j i hj hi (he ▸ hip) (he.trans hat.symm)
  -- what the call does decides both sides
  have hcall : FindsPresent w pdnInfo ∧ ipaNatiAllocPdn env w pdnInfo = (0, some i, w) ∨
      ¬ FindsPresent w pdnInfo ∧ ipaNatiAllocPdn env w pdnInfo ≠ (0, some i, w) := by
    unfold ipaNatiAllocPdn
    by_cases hfull : w.numPdns ≥ ipaMaxPdnNum - 1
    · rw [if_pos hfull]
      refine Or.inr ⟨fun hf => absurd (hf i hi hat).1 (not_lt.2 hfull), ?_⟩
      rintro ⟨⟩
    rw [if_neg hfull]
    have hs := searchPdn_spec w.pdns pdnInfo.publicIp (ipaMaxPdnNum - 1) 0
    cases hr : searchPdn w.pdns pdnInfo.publicIp (ipaMaxPdnNum - 1) 0 with
    | same k =>
      rw [hr] at hs
      obtain ⟨hk, hsame, hpassed⟩ := hs
      obtain rfl : k = i := honly k (by omega) hsame
      refine Or.inl ⟨fun j hj he => ?_, rfl⟩
      rw [honly j hj he]
      exact ⟨not_le.1 hfull, fun m hm => (hpassed m (Nat.zero_le _) hm).2⟩
    | empty k =>
      rw [hr] at hs
      obtain ⟨hk, hne, hzero, hpassed⟩ := hs
      -- the hole lies before the entry
      have hki : k < i := by
        rcases Nat.lt_trichotomy k i with hlt | rfl | hgt
        · exact hlt
        · exact absurd hat hne
        · exact absurd hat (hpassed i (Nat.zero_le _) hgt).1
      refine Or.inr ⟨fun hf => (hf i hi hat).2 k hki hzero, fun hcontra => ?_⟩
      dsimp only at hcontra
      rw [ipaNatiModifyPdn_ok h.opened hio] at hcontra
      have hsome := congrArg (fun r => r.2.1) hcontra
      exact absurd (Option.some.inj hsome) hki.ne
    | full =>
      rw [hr] at hs
      exact absurd hat (hs i (Nat.zero_le _) (by omega)).1
  rcases hcall with ⟨hfinds, hres⟩ | ⟨hfinds, hres⟩
  · refine ⟨iff_of_true ⟨fun j hj he => ?_, ?_⟩ hfinds, fun _ => ?_⟩
    · rw [honly j hj he]
      exact hres
    · rw [hres]
      exact h.toPdnsRight
    · rw [hres]
      exact h
  · exact ⟨iff_of_false (fun hright => hres (hright.1 i hi hat)) hfinds,
      fun hf => absurd hf hfinds⟩

/-- **A deallocation keeps the invariant.** -/
theorem PdnInv.dealloc {env : Env} (hio : env.io w.calls = true) {k : ℕ}
    (hk : k < ipaMaxPdnNum) : PdnInv (ipaNatiDeallocPdn env w k).2 := by
  unfold ipaNatiDeallocPdn
  split
  · exact h
  split
  · exact h
  · next hne =>
    have hk15 : k < ipaMaxPdnNum - 1 := by
      by_contra hc
      have hkl : k = ipaMaxPdnNum - 1 := by omega
      exact hne (hkl ▸ h.last)
    rw [ipaNatiModifyPdn_ok h.opened hio]
    simp only [List.set_set]
    refine h.write hk15 (fun _ => rfl) (fun h0 => absurd rfl h0) ?_
    rw [if_pos hne, if_neg (not_not.2 rfl)]
    rfl

end Step

/-! ## Runs -/

/-- A new table: its creation finds no entry left but the first. -/
theorem PdnInv.created {env : Env} {w w₀ : Drv} {nmi : MemIn} {publicIpAddr : UInt32}
    {n tblHdl : ℕ} (create : ipaNATIAddIpv4Tbl env w nmi publicIpAddr n = (0, tblHdl, w₀))
    (hip : publicIpAddr ≠ 0) (hlen : w.pdns.length = ipaMaxPdnNum)
    (hempty : ∀ i, i ≠ 0 → pdnAt w.pdns i = PdnEntry.zero) : PdnInv w₀ := by
  obtain ⟨-, d, -, hc, -, hpdns, hnum⟩ := ipaNATIAddIpv4Tbl_spec create
  obtain ⟨p, rest, hp⟩ : ∃ p rest, w.pdns = p :: rest := by
    cases hw : w.pdns with
    | nil => rw [hw] at hlen; cases hlen
    | cons p rest => exact ⟨p, rest, rfl⟩
  rw [hp] at hpdns hlen hempty
  have hrest : ∀ e ∈ rest, e = PdnEntry.zero := by
    intro e he
    obtain ⟨i, hi, rfl⟩ := List.getElem_of_mem he
    have := hempty (i + 1) (Nat.succ_ne_zero i)
    rwa [pdnAt, List.getD_cons_succ, List.getD_eq_getElem _ _ hi] at this
  have hfirst : w₀.pdns = { p with publicIp := publicIpAddr } :: rest := hpdns
  have hat : ∀ i, i ≠ 0 → pdnAt w₀.pdns i = PdnEntry.zero := by
    intro i hi
    obtain ⟨k, rfl⟩ := Nat.exists_eq_succ_of_ne_zero hi
    rw [hfirst, pdnAt, List.getD_cons_succ]
    have := hempty (k + 1) hi
    rwa [pdnAt, List.getD_cons_succ] at this
  have hne : ({ p with publicIp := publicIpAddr } : PdnEntry) ≠ PdnEntry.zero := fun e =>
    hip (congrArg PdnEntry.publicIp e)
  refine ⟨⟨?_, fun i j hi hj hn heq => ?_⟩, ?_, fun i hi => ?_, hat _ (by decide), ?_⟩
  · rw [hnum, hfirst, List.countP_cons, if_pos (by simpa using hne),
      List.countP_eq_zero.2 fun e he => by simp [hrest e he]]
  · by_cases hi0 : i = 0
    · by_cases hj0 : j = 0
      · exact hi0.trans hj0.symm
      · rw [hat j hj0] at heq
        exact absurd heq hn
    · rw [hat i hi0] at hn
      exact absurd rfl hn
  · rw [hfirst]
    exact hlen
  · by_cases hi0 : i = 0
    · subst hi0
      rw [hfirst] at hi
      exact absurd hi hip
    · exact hat i hi0
  · cases nmi
    · exact Or.inl (congrArg NatCache.ipaDesc hc)
    · exact Or.inr (congrArg NatCache.ipaDesc hc)

/-- One call with a granted `ioctl`: an allocation that finds its address if it is
    present, or a deallocation of an entry of the table. -/
inductive PdnStep : Drv → Drv → Prop
  | alloc {w : Drv} (env : Env) (pdnInfo : PdnEntry) (address : pdnInfo.publicIp ≠ 0)
      (granted : env.io w.calls = true) (finds : FindsPresent w pdnInfo) :
      PdnStep w (ipaNatiAllocPdn env w pdnInfo).2.2
  | dealloc {w : Drv} (env : Env) (pdnIndex : ℕ) (inside : pdnIndex < ipaMaxPdnNum)
      (granted : env.io w.calls = true) : PdnStep w (ipaNatiDeallocPdn env w pdnIndex).2

theorem PdnInv.run {w w' : Drv} (h : PdnInv w) (run : Relation.ReflTransGen PdnStep w w') :
    PdnInv w' := by
  induction run with
  | refl => exact h
  | tail _ step ih =>
    cases step with
    | alloc env pdnInfo address granted finds => exact (ih.alloc_iff granted address).2 finds
    | dealloc env pdnIndex inside granted => exact ih.dealloc granted inside

/-- **The PDN table in runs.**  After the creation of a table that finds no entries left,
    every run in which allocations find what is present keeps the count and the
    addresses right, and from each state reached an allocation does what it should
    exactly when it finds its address. -/
theorem pdns_right {env : Env} {w w₀ w' : Drv} {nmi : MemIn} {publicIpAddr : UInt32}
    {n tblHdl : ℕ} (create : ipaNATIAddIpv4Tbl env w nmi publicIpAddr n = (0, tblHdl, w₀))
    (address : publicIpAddr ≠ 0) (len : w.pdns.length = ipaMaxPdnNum)
    (empty : ∀ i, i ≠ 0 → pdnAt w.pdns i = PdnEntry.zero)
    (run : Relation.ReflTransGen PdnStep w₀ w') :
    PdnsRight w' ∧ ∀ (env : Env) (pdnInfo : PdnEntry), pdnInfo.publicIp ≠ 0 →
      env.io w'.calls = true → (AllocRight env w' pdnInfo ↔ FindsPresent w' pdnInfo) := by
  have hinv := (PdnInv.created create address len empty).run run
  exact ⟨hinv.toPdnsRight, fun env pdnInfo hip hio => (hinv.alloc_iff hio hip).1⟩

/-! ## A hole -/

/-- The PDN of an address. -/
def pdnOf (publicIp : UInt32) : PdnEntry := ⟨publicIp, 0, 0⟩

/-- A second address is given the entry after the first one's. -/
def secondPdn : Drv := (ipaNatiAllocPdn (calmEnv 0) tenSlots (pdnOf 0x0A000002)).2.2

theorem pdns_right_second : PdnsRight secondPdn ∧ ∀ (env : Env) (pdnInfo : PdnEntry),
    pdnInfo.publicIp ≠ 0 → env.io secondPdn.calls = true →
      (AllocRight env secondPdn pdnInfo ↔ FindsPresent secondPdn pdnInfo) :=
  pdns_right tenSlots_create (by decide) (by decide)
    (fun i hi => by
      obtain ⟨k, rfl⟩ := Nat.exists_eq_succ_of_ne_zero hi
      rw [show bootDrv.pdns = PdnEntry.zero :: List.replicate 15 PdnEntry.zero from rfl, pdnAt,
        List.getD_cons_succ, List.getD_eq_getElem?_getD, List.getElem?_replicate]
      split <;> rfl)
    (.single (.alloc (calmEnv 0) (pdnOf 0x0A000002) (by decide) rfl fun i hi he => by
      have hall : ∀ i < ipaMaxPdnNum, (pdnAt tenSlots.pdns i).publicIp ≠ 0x0A000002 := by
        decide +kernel
      exact absurd he (hall i hi)))

/-- The first address is given back, and the second one asked for again: it is given the
    hole, and has two entries then. -/
theorem alloc_twice :
    (ipaNatiDeallocPdn (calmEnv 0) secondPdn 0).1 = 0 ∧
      (pdnAt (ipaNatiDeallocPdn (calmEnv 0) secondPdn 0).2.pdns 1).publicIp = 0x0A000002 ∧
      (ipaNatiAllocPdn (calmEnv 0) (ipaNatiDeallocPdn (calmEnv 0) secondPdn 0).2
        (pdnOf 0x0A000002)).2.1 = some 0 ∧
      ¬ PdnsRight (ipaNatiAllocPdn (calmEnv 0) (ipaNatiDeallocPdn (calmEnv 0) secondPdn 0).2
        (pdnOf 0x0A000002)).2.2 := by
  refine ⟨by decide +kernel, by decide +kernel, by decide +kernel, fun h => ?_⟩
  have heq := h.unique 0 1 (by decide) (by decide) (by decide +kernel) (by decide +kernel)
  cases heq

end Sm8850.Ipanat
