/-
  When the IPv6 parser does what it is for.

  * `ipv6Loop_groups`, `ipv6Loop_compressed`: what the loop makes of the text of an address;
    `ipv6Loop_cases`: and of all that it accepts.
  * `Scan.Holds`: the bytes of the groups are stored; `zeroComp_bytes`: the zeros are put
    between them.
  * `Ipv6Meets`: an address is stored as what it denotes, on all other strings the parser fails.
  * **`ipv6Parse_meets_iff`**: it meets this on all strings but eight groups with another colon.
-/
import Mathlib.Data.List.GetD
import Sm8850.Qdf.Ipv6
import Sm8850.Qdf.Misread

namespace Sm8850.Qdf

variable {s rest : List UInt8} {g : Group} {gs : List Group} {left z : ℕ} {st st' : Scan}

/-! ## Statement -/

/-- What is to hold of a call. -/
structure Ipv6Meets (s : CString) (addr : ℕ → UInt8) (out : Ipv6Addr) : Prop where
  stores : ∀ a, SpellsAddress s.bytes a → qdfIpv6Parse s.bytes addr out = (.success, a.bytes)
  fails : (∀ a, ¬ SpellsAddress s.bytes a) →
    (qdfIpv6Parse s.bytes addr out).1 ≠ .success ∧ (qdfIpv6Parse s.bytes addr out).2 = out

/-- Eight groups with a colon behind them. -/
def TrailingColon (s : CString) : Prop :=
  ∃ pre gs post, White pre ∧ White post ∧ gs.length = 8 ∧
    s.bytes = pre ++ (joined gs ++ (bytes [':'] ++ post))

/-! ## The groups in the loop -/

namespace Scan

/-- All groups are stored. -/
def storeAll (st : Scan) (gs : List Group) : Scan := gs.foldl (fun st g => st.store g.value) st

@[simp] theorem storeAll_nil (st : Scan) : st.storeAll [] = st := rfl

@[simp] theorem storeAll_cons (st : Scan) (g : Group) (gs : List Group) :
    st.storeAll (g :: gs) = (st.store g.value).storeAll gs := rfl

@[simp] theorem store_zeroComp (st : Scan) (v : ℕ) : (st.store v).zeroComp = st.zeroComp := rfl

@[simp] theorem store_hextetsFound (st : Scan) (v : ℕ) :
    (st.store v).hextetsFound = st.hextetsFound + 1 := rfl

@[simp] theorem storeAll_zeroComp (st : Scan) (gs : List Group) :
    (st.storeAll gs).zeroComp = st.zeroComp := by
  induction gs generalizing st with
  | nil => rfl
  | cons g gs ih => rw [storeAll_cons, ih, store_zeroComp]

@[simp] theorem storeAll_hextetsFound (st : Scan) (gs : List Group) :
    (st.storeAll gs).hextetsFound = st.hextetsFound + gs.length := by
  induction gs generalizing st with
  | nil => rfl
  | cons g gs ih =>
    rw [storeAll_cons, ih, store_hextetsFound, List.length_cons]
    omega

/-- The zero compression is at the groups found so far. -/
def compress (st : Scan) : Scan := { st with zeroComp := some st.hextetsFound }

end Scan

/-- What follows the groups of an address. -/
structure Behind (s : List UInt8) : Prop where
  noDigit : NoDigit s
  noColon : NoColon s

theorem White.behind (h : White s) : Behind s := ⟨h.noDigit, h.noColon⟩

theorem ipv6Loop_end (h : NoDigit s) (hz : st.zeroComp = some st.hextetsFound) :
    ipv6Loop left st s = some (st, s) := by
  cases left with
  | zero => rfl
  | succ left =>
    rw [ipv6Loop_succ, qdfConsumeHextet_none h]
    exact if_neg (not_not.2 hz)

/-- A group that is followed by others. -/
theorem ipv6Loop_next (hgs : NoColon rest) :
    ipv6Loop (left + 1) st (g.digits ++ ':'.toUInt8 :: rest) =
      ipv6Loop left (st.store g.value) rest := by
  rw [ipv6Loop_succ, qdfConsumeHextet_group g (.inr (noDigit_colon rest))]
  dsimp only
  rw [qdfConsumeChar_colon]
  dsimp only
  rw [qdfConsumeChar_noColon hgs]

/-- The groups at the end. -/
theorem ipv6Loop_groups (hle : gs.length ≤ left)
    (hnil : gs = [] → st.zeroComp = some st.hextetsFound) (hrest : Behind rest) :
    ipv6Loop left st (joined gs ++ rest) = some (st.storeAll gs, rest) := by
  induction gs generalizing left st with
  | nil => exact ipv6Loop_end hrest.noDigit (hnil rfl)
  | cons g gs ih =>
    obtain ⟨left, rfl⟩ := Nat.exists_eq_succ_of_ne_zero (Nat.ne_of_gt (Nat.zero_lt_of_lt hle))
    by_cases hgs : gs = []
    · rw [hgs, joined_singleton, ipv6Loop_succ, qdfConsumeHextet_group g (.inr hrest.noDigit)]
      dsimp only
      rw [qdfConsumeChar_noColon hrest.noColon]
      rfl
    · rw [joined_cons g hgs, List.append_assoc, List.cons_append,
        ipv6Loop_next (joined_noColon hgs rest)]
      exact ih (Nat.le_of_succ_le_succ hle) fun h => absurd h hgs

/-- Groups in front of something that begins with a colon, of which the last one takes that
    colon. -/
theorem ipv6Loop_before (hgs : gs ≠ []) (hz : st.zeroComp = none) :
    ipv6Loop (left + gs.length) st (joined gs ++ (bytes [':', ':'] ++ rest)) =
      ipv6Loop left (st.storeAll gs).compress rest := by
  induction gs generalizing st with
  | nil => exact absurd rfl hgs
  | cons g gs ih =>
    by_cases hnil : gs = []
    · rw [hnil, joined_singleton, List.length_singleton, ipv6Loop_succ,
        show bytes [':', ':'] ++ rest = ':'.toUInt8 :: ':'.toUInt8 :: rest from rfl,
        qdfConsumeHextet_group g (.inr (noDigit_colon _))]
      dsimp only
      rw [qdfConsumeChar_colon]
      dsimp only
      rw [qdfConsumeChar_colon]
      dsimp only
      rw [Scan.store_zeroComp, hz]
      rfl
    · rw [joined_cons g hnil, List.append_assoc, List.cons_append, List.length_cons,
        ← Nat.add_assoc, ipv6Loop_next (joined_noColon hnil _)]
      exact ih hnil hz

/-- When the last group that there is room for has a colon behind it, that is taken. -/
theorem ipv6Loop_trailing (hgs : gs ≠ []) (hlength : gs.length = left) (hrest : NoColon rest) :
    ipv6Loop left st (joined gs ++ (bytes [':'] ++ rest)) = some (st.storeAll gs, rest) := by
  induction gs generalizing st left with
  | nil => exact absurd rfl hgs
  | cons g gs ih =>
    subst hlength
    by_cases hnil : gs = []
    · rw [hnil, joined_singleton, List.length_singleton]
      exact ipv6Loop_next hrest
    · rw [joined_cons g hnil, List.append_assoc, List.cons_append, List.length_cons,
        ipv6Loop_next (joined_noColon hnil _)]
      exact ih hnil rfl

/-! ## What the loop accepts -/

/-- Behind a zero compression it accepts the text of groups, if there are not as many as there
    is room for. -/
theorem ipv6Loop_compressed (hz : st.zeroComp = some z) (hle : z ≤ st.hextetsFound)
    (h : ipv6Loop left st s = some (st', rest)) :
    ∃ gs, gs.length ≤ left ∧ st' = st.storeAll gs ∧
      (gs.length < left → s = joined gs ++ rest ∧ (gs = [] → z = st.hextetsFound)) := by
  induction left generalizing st s with
  | zero =>
    obtain ⟨rfl, rfl⟩ := Prod.mk.inj (Option.some.inj h)
    exact ⟨[], le_rfl, rfl, fun h => absurd h (Nat.lt_irrefl _)⟩
  | succ left ih =>
    rw [ipv6Loop_succ] at h
    rcases qdfConsumeHextet_cases s with ⟨-, hnone⟩ | ⟨g, s, rfl, hsome⟩
    · rw [hnone] at h
      dsimp only at h
      split_ifs at h with hend
      obtain ⟨rfl, rfl⟩ := Prod.mk.inj (Option.some.inj h)
      rw [hz, not_not, Option.some.injEq] at hend
      exact ⟨[], Nat.zero_le _, rfl, fun _ => ⟨rfl, fun _ => hend⟩⟩
    rw [hsome] at h
    dsimp only at h
    rcases qdfConsumeChar_cases s with ⟨-, hnone⟩ | ⟨s, rfl, hcolon⟩
    · rw [hnone] at h
      obtain ⟨rfl, rfl⟩ := Prod.mk.inj (Option.some.inj h)
      exact ⟨[g], Nat.succ_le_succ (Nat.zero_le _), rfl, fun _ => ⟨by rw [joined_singleton], nofun⟩⟩
    rw [hcolon] at h
    dsimp only at h
    rcases qdfConsumeChar_cases s with ⟨-, hnone⟩ | ⟨s, rfl, hcolon'⟩
    · rw [hnone] at h
      obtain ⟨gs, hlength, hst, htext⟩ := @ih s (st.store g.value) hz (Nat.le_succ_of_le hle) h
      refine ⟨g :: gs, Nat.succ_le_succ hlength, hst, fun hlt => ?_⟩
      obtain ⟨rfl, hnil⟩ := htext (Nat.lt_of_succ_lt_succ hlt)
      -- the colon does not end the groups, as the zero compression is not here
      have hgs : gs ≠ [] := fun h => by
        have hfound := hnil h
        rw [Scan.store_hextetsFound] at hfound
        omega
      rw [joined_cons g hgs, List.append_assoc, List.cons_append]
      exact ⟨rfl, nofun⟩
    · rw [hcolon'] at h
      dsimp only at h
      rw [Scan.store_zeroComp, hz] at h
      cases h

/-- Where there was none the loop accepts groups, the last with another colon if there is no
    room for more, or groups with a zero compression. -/
theorem ipv6Loop_cases (hz : st.zeroComp = none) (h : ipv6Loop left st s = some (st', rest)) :
    (∃ gs, st' = st.storeAll gs ∧ gs.length ≤ left ∧ (gs = [] → left = 0) ∧
      (s = joined gs ++ rest ∨ (gs.length = left ∧ s = joined gs ++ (bytes [':'] ++ rest)))) ∨
    ∃ before after, before ≠ [] ∧ st' = (st.storeAll before).compress.storeAll after ∧
      (before.length + after.length < left →
        s = joined before ++ (bytes [':', ':'] ++ (joined after ++ rest))) := by
  induction left generalizing st s with
  | zero =>
    obtain ⟨rfl, rfl⟩ := Prod.mk.inj (Option.some.inj h)
    exact .inl ⟨[], rfl, le_rfl, fun _ => rfl, .inl rfl⟩
  | succ left ih =>
    rw [ipv6Loop_succ] at h
    rcases qdfConsumeHextet_cases s with ⟨-, hnone⟩ | ⟨g, s, rfl, hsome⟩
    · rw [hnone] at h
      dsimp only at h
      rw [if_pos (by rw [hz]; exact nofun)] at h
      cases h
    rw [hsome] at h
    dsimp only at h
    rcases qdfConsumeChar_cases s with ⟨-, hnone⟩ | ⟨s, rfl, hcolon⟩
    · rw [hnone] at h
      obtain ⟨rfl, rfl⟩ := Prod.mk.inj (Option.some.inj h)
      exact .inl ⟨[g], rfl, Nat.succ_le_succ (Nat.zero_le _), nofun,
        .inl (by rw [joined_singleton])⟩
    rw [hcolon] at h
    dsimp only at h
    rcases qdfConsumeChar_cases s with ⟨hno, hnone⟩ | ⟨s, rfl, hcolon'⟩
    · rw [hnone] at h
      rcases @ih s (st.store g.value) hz h with ⟨gs, hst, hle, hnil, htext⟩ |
        ⟨before, after, hbefore, hst, htext⟩
      · refine .inl ⟨g :: gs, hst, Nat.succ_le_succ hle, nofun, ?_⟩
        by_cases hgs : gs = []
        · subst hgs
          obtain rfl := hnil rfl
          rcases htext with rfl | ⟨-, rfl⟩
          · exact .inr ⟨rfl, by rw [joined_singleton]; rfl⟩
          · exact absurd rfl (hno _ rfl)
        · rw [joined_cons g hgs, List.append_assoc, List.append_assoc, List.cons_append,
            List.cons_append]
          rcases htext with rfl | ⟨hlength, rfl⟩
          · exact .inl rfl
          · exact .inr ⟨congrArg Nat.succ hlength, rfl⟩
      · refine .inr ⟨g :: before, after, nofun, hst, fun hlt => ?_⟩
        rw [List.length_cons] at hlt
        rw [htext (by omega), joined_cons g hbefore, List.append_assoc, List.cons_append]
    · rw [hcolon'] at h
      dsimp only at h
      rw [Scan.store_zeroComp, hz] at h
      obtain ⟨gs, -, hst, htext⟩ := @ipv6Loop_compressed s rest left _ (st.store g.value).compress
        st' rfl le_rfl h
      refine .inr ⟨[g], gs, nofun, hst, fun hlt => ?_⟩
      rw [List.length_singleton] at hlt
      obtain ⟨rfl, -⟩ := htext (by omega)
      rw [joined_singleton]
      rfl

/-! ## The bytes -/

namespace Scan

/-- The bytes of the numbers are stored. -/
structure Holds (st : Scan) (vs : List ℕ) : Prop where
  found : st.hextetsFound = vs.length
  bytes : ∀ i < 2 * vs.length, st.addr i = octet vs i

variable {vs : List ℕ}

theorem octet_append_left {ws : List ℕ} {i : ℕ} (h : i < 2 * vs.length) :
    octet (vs ++ ws) i = octet vs i := by
  unfold octet
  rw [List.getD_append _ _ _ _ (by omega)]

theorem octet_append_right {ws : List ℕ} {i : ℕ} (h : 2 * vs.length ≤ i) :
    octet (vs ++ ws) i = octet ws (i - 2 * vs.length) := by
  unfold octet
  rw [List.getD_append_right _ _ _ _ (by omega)]
  have hparity : (i - 2 * vs.length) % 2 = i % 2 := by omega
  have hhalf : (i - 2 * vs.length) / 2 = i / 2 - vs.length := by omega
  rw [hparity, hhalf]

theorem Holds.store (h : st.Holds vs) (v : ℕ) : (st.store v).Holds (vs ++ [v]) := by
  obtain ⟨hfound, hbytes⟩ := h
  refine ⟨by rw [store_hextetsFound, hfound, List.length_append]; rfl, fun i hi => ?_⟩
  rw [List.length_append, List.length_singleton] at hi
  rw [Scan.store, hfound]
  dsimp only
  rcases Nat.lt_or_ge i (2 * vs.length) with hlt | hge
  · rw [if_neg (by omega), if_neg (by omega), hbytes i hlt, octet_append_left hlt]
  · rw [octet_append_right hge]
    obtain rfl | rfl : i = vs.length * 2 ∨ i = vs.length * 2 + 1 := by omega
    · rw [if_pos rfl, show vs.length * 2 - 2 * vs.length = 0 by omega]
      rfl
    · rw [if_neg (by omega), if_pos rfl, show vs.length * 2 + 1 - 2 * vs.length = 1 by omega]
      rfl

theorem Holds.storeAll (h : st.Holds vs) (gs : List Group) :
    (st.storeAll gs).Holds (vs ++ gs.map Group.value) := by
  induction gs generalizing st vs with
  | nil => rwa [List.map_nil, List.append_nil]
  | cons g gs ih =>
    have hall := ih (h.store g.value)
    rwa [List.append_assoc] at hall

theorem Holds.compress (h : st.Holds vs) : st.compress.Holds vs := ⟨h.found, h.bytes⟩

theorem holds_nil (h : st.hextetsFound = 0) : st.Holds [] := ⟨h, nofun⟩

theorem octet_replicate (n i : ℕ) : octet (List.replicate n 0) i = 0 := by
  have hzero : (List.replicate n 0).getD (i / 2) 0 = 0 := by
    rw [List.getD_eq_getElem?_getD, List.getElem?_replicate]
    split_ifs <;> rfl
  unfold octet
  rw [hzero, ite_self]
  rfl

theorem applyZeroComp_eq {addr : ℕ → UInt8} {n i : ℕ} (hz : z ≤ n) (hn : n < 8) (hi : i < 16) :
    qdfIpv6ApplyZeroComp addr n z i =
      if i < 2 * z then addr i
      else if i < 2 * z + 2 * (8 - n) then 0 else addr (i - 2 * (8 - n)) := by
  unfold qdfIpv6ApplyZeroComp qdfMemZero hextetCount
  by_cases hbefore : i < 2 * z
  · rw [if_neg (by omega), if_pos hbefore]
    split_ifs with hmove
    · exact if_neg (by omega)
    · rfl
  rw [if_neg hbefore]
  by_cases hzero : i < 2 * z + 2 * (8 - n)
  · rw [if_pos (by omega), if_pos hzero]
  · rw [if_neg (by omega), if_neg hzero, if_pos (by omega)]
    unfold qdfMemMove
    rw [if_pos (by omega)]
    congr 1
    omega

/-- **The zero compression** puts the zeros where they belong. -/
theorem zeroComp_bytes {before after : List ℕ} (h : st.Holds (before ++ after))
    (hlt : before.length + after.length < 8) {i : ℕ} (hi : i < 16) :
    qdfIpv6ApplyZeroComp st.addr st.hextetsFound before.length i =
      octet (before ++ (List.replicate (8 - (before.length + after.length)) 0 ++ after)) i := by
  obtain ⟨hfound, hbytes⟩ := h
  rw [List.length_append] at hfound hbytes
  rw [hfound, applyZeroComp_eq (Nat.le_add_right _ _) hlt hi]
  by_cases hbefore : i < 2 * before.length
  · rw [if_pos hbefore, hbytes i (by omega), octet_append_left hbefore, octet_append_left hbefore]
  rw [if_neg hbefore, octet_append_right (Nat.not_lt.1 hbefore)]
  by_cases hzero : i < 2 * before.length + 2 * (8 - (before.length + after.length))
  · rw [if_pos hzero, octet_append_left (by rw [List.length_replicate]; omega), octet_replicate]
  · rw [if_neg hzero, octet_append_right (by rw [List.length_replicate]; omega),
      hbytes _ (by omega), octet_append_right (by omega), List.length_replicate]
    congr 1
    omega

end Scan

/-! ## The parser on all strings -/

variable {addr : ℕ → UInt8} {out : Ipv6Addr} {a : Address}

/-- What is returned for what the loop has found. -/
def outcome (st : Scan) (out : Ipv6Addr) : QdfStatus × Ipv6Addr :=
  if st.hextetsFound < hextetCount then
    match st.zeroComp with
    | none => (.eFailure, out)
    | some zeroComp =>
      (.success, fun i => qdfIpv6ApplyZeroComp st.addr st.hextetsFound zeroComp i)
  else if st.zeroComp.isSome then (.eFailure, out)
  else (.success, fun i => st.addr i)

/-- There is to be a zero compression just if there are fewer groups. -/
theorem outcome_success_iff :
    (outcome st out).1 = .success ↔ (st.hextetsFound < 8 ↔ st.zeroComp.isSome = true) := by
  unfold outcome hextetCount
  by_cases hfewer : st.hextetsFound < 8
  · rw [if_pos hfewer]
    cases st.zeroComp <;> simp [hfewer]
  · rw [if_neg hfewer]
    cases st.zeroComp <;> simp [hfewer]

theorem qdfIpv6Parse_eq {zeroComp : Option ℕ} (hlead : leadingZeroComp (qdfStrLeftTrim s) =
      some (zeroComp, rest)) {post : List UInt8} (hpost : White post)
    (hloop : ipv6Loop hextetCount ⟨addr, zeroComp, 0⟩ rest = some (st, post)) :
    qdfIpv6Parse s addr out = outcome st out := by
  unfold qdfIpv6Parse
  rw [hlead]
  dsimp only
  rw [hloop]
  dsimp only
  rw [if_neg (not_not.2 (first_trim_white hpost))]
  rfl

/-- A call that succeeds. -/
theorem qdfIpv6Parse_success (h : (qdfIpv6Parse s addr out).1 = .success) :
    ∃ zeroComp rest st post, leadingZeroComp (qdfStrLeftTrim s) = some (zeroComp, rest) ∧
      ipv6Loop hextetCount ⟨addr, zeroComp, 0⟩ rest = some (st, post) ∧
      first (qdfStrLeftTrim post) = 0 ∧ (outcome st out).1 = .success := by
  unfold qdfIpv6Parse at h
  split at h
  · cases h
  · rename_i zeroComp rest hlead
    split at h
    · cases h
    · rename_i st post hloop
      by_cases hend : first (qdfStrLeftTrim post) = 0
      · rw [if_neg (not_not.2 hend)] at h
        exact ⟨zeroComp, rest, st, post, hlead, hloop, hend, h⟩
      · rw [if_pos hend] at h
        cases h

theorem qdfIpv6Parse_out (h : (qdfIpv6Parse s addr out).1 ≠ .success) :
    (qdfIpv6Parse s addr out).2 = out := by
  unfold qdfIpv6Parse at h ⊢
  split
  · rfl
  · split
    · rfl
    · split_ifs
      · rfl
      · split
        · rfl
        · simp_all
      · rfl
      · simp_all

/-- What the loop finds in the text of an address. -/
def Found (st : Scan) : Address → Prop
  | .full gs _ => st.zeroComp = none ∧ st.Holds (gs.map Group.value)
  | .compressed before after _ =>
    st.zeroComp = some before.length ∧ st.Holds (before.map Group.value ++ after.map Group.value)

theorem Found.outcome (h : Found st a) : outcome st out = (.success, a.bytes) := by
  cases a with
  | full gs eight =>
    obtain ⟨hz, hfound, hbytes⟩ := h
    rw [List.length_map, eight] at hfound hbytes
    unfold Sm8850.Qdf.outcome
    rw [hz, hfound, if_neg (show ¬ 8 < hextetCount from Nat.lt_irrefl 8)]
    exact Prod.ext rfl (funext fun i => hbytes i i.isLt)
  | compressed before after fewer =>
    obtain ⟨hz, hholds⟩ := h
    have hfound : st.hextetsFound = before.length + after.length := by
      rw [hholds.found, List.length_append, List.length_map, List.length_map]
    unfold Sm8850.Qdf.outcome
    rw [hz, hfound, if_pos (show _ < hextetCount from fewer)]
    refine Prod.ext rfl (funext fun i => ?_)
    have hbytes := Scan.zeroComp_bytes hholds
      (by rwa [List.length_map, List.length_map]) i.isLt
    rw [List.length_map, List.length_map, hfound] at hbytes
    exact hbytes

/-- The leading zero compression is taken, and nothing else. -/
theorem leadingZeroComp_cases {zeroComp : Option ℕ}
    (h : leadingZeroComp s = some (zeroComp, rest)) :
    (zeroComp = none ∧ s = rest) ∨ (zeroComp = some 0 ∧ s = bytes [':', ':'] ++ rest) := by
  unfold leadingZeroComp at h
  rcases qdfConsumeChar_cases s with ⟨-, hnone⟩ | ⟨s, rfl, hcolon⟩
  · rw [hnone] at h
    obtain ⟨rfl, rfl⟩ := Prod.mk.inj (Option.some.inj h)
    exact .inl ⟨rfl, rfl⟩
  · rw [hcolon] at h
    dsimp only at h
    rcases qdfConsumeChar_cases s with ⟨-, hnone⟩ | ⟨s, rfl, hcolon'⟩
    · rw [hnone] at h
      cases h
    · rw [hcolon'] at h
      obtain ⟨rfl, rfl⟩ := Prod.mk.inj (Option.some.inj h)
      exact .inr ⟨rfl, rfl⟩

theorem leadingZeroComp_joined (hgs : gs ≠ []) (rest : List UInt8) :
    leadingZeroComp (joined gs ++ rest) = some (none, joined gs ++ rest) := by
  unfold leadingZeroComp
  rw [qdfConsumeChar_noColon (joined_noColon hgs rest)]

/-- **The text of an address** is found in the loop. -/
theorem loop_text (a : Address) (addr : ℕ → UInt8) {post : List UInt8} (hpost : White post) :
    ∃ zeroComp rest st, leadingZeroComp (a.text ++ post) = some (zeroComp, rest) ∧
      ipv6Loop hextetCount ⟨addr, zeroComp, 0⟩ rest = some (st, post) ∧ Found st a := by
  have hbegin : ∀ zeroComp, Scan.Holds ⟨addr, zeroComp, 0⟩ [] := fun _ => Scan.holds_nil rfl
  cases a with
  | full gs eight =>
    have hgs : gs ≠ [] := List.ne_nil_of_length_eq_add_one eight
    refine ⟨none, _, _, leadingZeroComp_joined hgs post,
      ipv6Loop_groups (Nat.le_of_eq eight) (fun h => absurd h hgs) hpost.behind,
      Scan.storeAll_zeroComp _ gs, ?_⟩
    exact (hbegin none).storeAll gs
  | compressed before after fewer =>
    by_cases hbefore : before = []
    · subst hbefore
      have hle : after.length ≤ hextetCount := by
        rw [List.length_nil, Nat.zero_add] at fewer
        exact Nat.le_of_lt fewer
      exact ⟨some 0, _, _, rfl, ipv6Loop_groups hle (fun _ => rfl) hpost.behind,
        Scan.storeAll_zeroComp _ after, (hbegin (some 0)).storeAll after⟩
    · have hroom : hextetCount = (8 - before.length) + before.length := by
        unfold hextetCount
        omega
      refine ⟨none, joined before ++ (bytes [':', ':'] ++ (joined after ++ post)),
        (Scan.storeAll ⟨addr, none, 0⟩ before).compress.storeAll after, ?_, ?_, ?_, ?_⟩
      · rw [Address.text, List.append_assoc, List.append_assoc]
        exact leadingZeroComp_joined hbefore _
      · rw [hroom, ipv6Loop_before hbefore rfl]
        exact ipv6Loop_groups (by omega) (fun _ => rfl) hpost.behind
      · rw [Scan.storeAll_zeroComp, Scan.compress, Scan.storeAll_hextetsFound, Nat.zero_add]
      · exact ((hbegin none).storeAll before).compress.storeAll after

/-- What the parser accepts is an address, or eight groups and a colon. -/
theorem spells_of_success {s : CString} (h : (qdfIpv6Parse s.bytes addr out).1 = .success) :
    (∃ a, SpellsAddress s.bytes a) ∨ TrailingColon s := by
  obtain ⟨zeroComp, rest, st, post, hlead, hloop, hend, hstatus⟩ := qdfIpv6Parse_success h
  have hwhite : White (s.bytes.takeWhile isSpace) := fun c hc => List.mem_takeWhile_imp hc
  have hsplit : s.bytes = s.bytes.takeWhile isSpace ++ qdfStrLeftTrim s.bytes :=
    List.takeWhile_append_dropWhile.symm
  have hpost : ∀ t, qdfStrLeftTrim s.bytes = t ++ post → White post := fun t ht =>
    qdfStrLeftTrim_nil hend fun h0 => s.noNul (by
      rw [hsplit, ht]
      exact List.mem_append_right _ (List.mem_append_right _ h0))
  have hspells : ∀ a : Address, qdfStrLeftTrim s.bytes = a.text ++ post →
      SpellsAddress s.bytes a := fun a ha =>
    ⟨_, post, hwhite, hpost _ ha, by rw [← ha]; exact hsplit⟩
  rw [outcome_success_iff] at hstatus
  rcases leadingZeroComp_cases hlead with ⟨rfl, htrim⟩ | ⟨rfl, htrim⟩
  · rcases ipv6Loop_cases rfl hloop with ⟨gs, rfl, hle, -, htext⟩ | ⟨before, after, -, rfl, htext⟩
    · rw [Scan.storeAll_zeroComp, Scan.storeAll_hextetsFound, Nat.zero_add] at hstatus
      have height : gs.length = 8 := by
        by_contra hne
        cases hstatus.1 (Nat.lt_of_le_of_ne hle hne)
      rw [← htrim] at htext
      rcases htext with htext | ⟨-, htext⟩
      · exact .inl ⟨.full gs height, hspells _ htext⟩
      · refine .inr ⟨_, gs, post, hwhite, hpost (joined gs ++ bytes [':']) ?_, height, ?_⟩
        · rw [htext, List.append_assoc]
        · rw [← htext]
          exact hsplit
    · rw [Scan.storeAll_zeroComp, Scan.storeAll_hextetsFound, Scan.compress,
        Scan.storeAll_hextetsFound, Nat.zero_add] at hstatus
      have hfewer : before.length + after.length < 8 := hstatus.2 rfl
      refine .inl ⟨.compressed before after hfewer, hspells _ ?_⟩
      rw [htrim, htext hfewer, Address.text, List.append_assoc, List.append_assoc]
  · obtain ⟨gs, -, rfl, htext⟩ := ipv6Loop_compressed rfl le_rfl hloop
    rw [Scan.storeAll_zeroComp, Scan.storeAll_hextetsFound, Nat.zero_add] at hstatus
    have hfewer : gs.length < 8 := hstatus.2 rfl
    refine .inl ⟨.compressed [] gs (by rwa [List.length_nil, Nat.zero_add]), hspells _ ?_⟩
    rw [htrim, (htext hfewer).1]
    rfl

/-! ## The theorem -/

/-- An address does not begin with white space. -/
theorem qdfStrLeftTrim_address (a : Address) {pre : List UInt8} (hpre : White pre)
    (post : List UInt8) : qdfStrLeftTrim (pre ++ (a.text ++ post)) = a.text ++ post := by
  have hcolon : ∀ t, qdfStrLeftTrim (bytes [':', ':'] ++ t) = bytes [':', ':'] ++ t := fun _ => rfl
  have hjoined : ∀ gs t, gs ≠ [] → qdfStrLeftTrim (joined gs ++ t) = joined gs ++ t := by
    intro gs t hgs
    obtain ⟨c, t', d, htext, hd⟩ := joined_head hgs
    rw [htext]
    refine List.dropWhile_cons_of_neg fun hspace => ?_
    rw [hexDigit_of_stop (.inl hspace)] at hd
    cases hd
  rw [qdfStrLeftTrim_white hpre]
  cases a with
  | full gs eight => exact hjoined gs post (List.ne_nil_of_length_eq_add_one eight)
  | compressed before after fewer =>
    rw [Address.text, List.append_assoc]
    by_cases hbefore : before = []
    · rw [hbefore, List.append_assoc]
      exact hcolon _
    · exact hjoined before _ hbefore

theorem parse_address {s : List UInt8} (h : SpellsAddress s a) :
    qdfIpv6Parse s addr out = (.success, a.bytes) := by
  obtain ⟨pre, post, hpre, hpost, rfl⟩ := h
  obtain ⟨zeroComp, rest, st, hlead, hloop, hfound⟩ := loop_text a addr hpost
  rw [← qdfStrLeftTrim_address a hpre post] at hlead
  rw [qdfIpv6Parse_eq hlead hpost hloop, hfound.outcome]

/-- What the loop finds in eight groups with a colon. -/
theorem loop_trailing (hlength : gs.length = 8) (addr : ℕ → UInt8) {post : List UInt8}
    (hpost : White post) :
    leadingZeroComp (joined gs ++ (bytes [':'] ++ post)) =
        some (none, joined gs ++ (bytes [':'] ++ post)) ∧
      ipv6Loop hextetCount ⟨addr, none, 0⟩ (joined gs ++ (bytes [':'] ++ post)) =
        some (Scan.storeAll ⟨addr, none, 0⟩ gs, post) := by
  have hgs : gs ≠ [] := List.ne_nil_of_length_eq_add_one hlength
  exact ⟨leadingZeroComp_joined hgs _, ipv6Loop_trailing hgs hlength hpost.noColon⟩

theorem qdfStrLeftTrim_trailing (hlength : gs.length = 8) {pre : List UInt8} (hpre : White pre)
    (post : List UInt8) : qdfStrLeftTrim (pre ++ (joined gs ++ post)) = joined gs ++ post :=
  qdfStrLeftTrim_address (.full gs hlength) hpre post

/-- It is accepted as if the colon were not there. -/
theorem TrailingColon.success {s : CString} (h : TrailingColon s) :
    (qdfIpv6Parse s.bytes addr out).1 = .success := by
  obtain ⟨pre, gs, post, hpre, hpost, hlength, hs⟩ := h
  obtain ⟨hlead, hloop⟩ := loop_trailing hlength addr hpost
  rw [← qdfStrLeftTrim_trailing hlength hpre, ← hs] at hlead hloop
  rw [qdfIpv6Parse_eq hlead hpost hloop, outcome_success_iff, Scan.storeAll_hextetsFound,
    Scan.storeAll_zeroComp, hlength]
  exact ⟨fun h => absurd h (Nat.lt_irrefl 8), nofun⟩

/-- It is no address. -/
theorem TrailingColon.not_spells {s : CString} (h : TrailingColon s) :
    ¬ SpellsAddress s.bytes a := by
  rintro ⟨pre', post', hpre', hpost', hs'⟩
  obtain ⟨pre, gs, post, hpre, hpost, hlength, hs⟩ := h
  have htrim : joined gs ++ (bytes [':'] ++ post) = a.text ++ post' := by
    rw [← qdfStrLeftTrim_trailing hlength hpre, ← qdfStrLeftTrim_address a hpre' post', ← hs, hs']
  obtain ⟨hlead, hloop⟩ := loop_trailing hlength (fun _ => 0) hpost
  obtain ⟨zeroComp, rest, st, hlead', hloop', hfound⟩ := loop_text a (fun _ => 0) hpost'
  rw [htrim] at hlead hloop
  rw [hlead] at hlead'
  obtain ⟨rfl, rfl⟩ := Prod.mk.inj (Option.some.inj hlead')
  rw [hloop] at hloop'
  obtain ⟨rfl, rfl⟩ := Prod.mk.inj (Option.some.inj hloop')
  cases a with
  | full gs' eight =>
    have htext : joined gs ++ bytes [':'] = joined gs' := by
      rw [← List.append_assoc] at htrim
      exact List.append_cancel_right htrim
    have hcount := congrArg (List.count ':'.toUInt8) htext
    have hgs := count_joined (List.ne_nil_of_length_eq_add_one hlength)
    have hgs' := count_joined (List.ne_nil_of_length_eq_add_one eight)
    rw [List.count_append, show (bytes [':']).count ':'.toUInt8 = 1 from rfl] at hcount
    omega
  | compressed before after fewer =>
    have hzero := hfound.1
    rw [Scan.storeAll_zeroComp] at hzero
    cases hzero

/-- **The IPv6 parser does what it is for on all strings but eight groups with another colon.** -/
theorem ipv6Parse_meets_iff (s : CString) (addr : ℕ → UInt8) (out : Ipv6Addr) :
    Ipv6Meets s addr out ↔ ¬ TrailingColon s := by
  constructor
  · intro hmeets htrailing
    exact (hmeets.fails fun _ => htrailing.not_spells).1 htrailing.success
  · intro htrailing
    constructor
    · intro a ha
      exact parse_address ha
    · intro hnone
      have hfails : (qdfIpv6Parse s.bytes addr out).1 ≠ .success := fun hsuccess => by
        rcases spells_of_success hsuccess with ⟨a, ha⟩ | h
        · exact hnone a ha
        · exact htrailing h
      exact ⟨hfails, qdfIpv6Parse_out hfails⟩

/-! ## Eight groups with a colon -/

/-- The digits from 1 to 8, as groups. -/
def eightGroups : List Group := (List.finRange 8).map fun i : Fin 8 =>
  { digits := [UInt8.ofNat (49 + i)]
    isDigit := by
      rw [List.forall_mem_singleton]
      revert i
      decide
    nonempty := List.cons_ne_nil _ _
    short := Nat.le_add_left 1 3 }

/-- The string `1:2:3:4:5:6:7:8:`. -/
def eightColons : CString := ⟨joined eightGroups ++ bytes [':'], by decide⟩

/-- It is accepted. -/
theorem eightColons_not_meets : ¬ Ipv6Meets eightColons (fun _ => 0) (fun _ => 0) := by
  intro hmeets
  have htrailing : TrailingColon eightColons :=
    ⟨[], eightGroups, [], nofun, nofun, rfl, rfl⟩
  have hsuccess : (qdfIpv6Parse eightColons.bytes (fun _ => 0) (fun _ => 0)).1 = .success := by
    decide
  exact (hmeets.fails fun _ => htrailing.not_spells).1 hsuccess

end Sm8850.Qdf
