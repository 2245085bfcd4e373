/-
  The IPv6 parser of `qdf_types.c`, and the text of an address.

  * `qdfConsumeHextet`: a group of up to four digits; `ipv6Loop`: the groups, with their colons
    and the zero compression; `qdfIpv6Parse`: the address.
  * `Group`, `Address`: the text of a group and of an address, with `Address.text` and what it
    denotes, `Address.bytes`.
  * `qdfConsumeHextet_group`, `qdfConsumeHextet_cases`: the parser of a group takes just a group.
-/
import Sm8850.Qdf.IntText

namespace Sm8850.Qdf

open Lib

/-! ## The parser -/

/-- `QDF_IPV6_ADDR_HEXTET_COUNT`. -/
def hextetCount : ℕ := 8

/-- `qdf_consume_hex`. -/
def qdfConsumeHex (s : List UInt8) : Option (ℕ × List UInt8) :=
  (hexDigit (first s)).map fun digit => (digit, s.tail)

/-- The loop of `qdf_consume_hextet`, `left` digits being left; the number has 16 bits. -/
def hextetLoop : ℕ → List UInt8 → ℕ → ℕ → ℕ × ℕ × List UInt8
  | 0, s, len, hextet => (len, hextet, s)
  | left + 1, s, len, hextet =>
    match qdfConsumeHex s with
    | none => (len, hextet, s)
    | some (digit, s) => hextetLoop left s (len + 1) ((hextet <<< 4 + digit) % 2 ^ 16)

/-- `qdf_consume_hextet`. -/
def qdfConsumeHextet (s : List UInt8) : Option (ℕ × List UInt8) :=
  let (len, hextet, s) := hextetLoop 4 s 0 0
  if len = 0 then none else some (hextet, s)

/-- The variables of `qdf_ipv6_parse`; there is no `zero_comp` while that is -1. -/
structure Scan where
  addr : ℕ → UInt8
  zeroComp : Option ℕ
  hextetsFound : ℕ

/-- The bytes of a group are stored. -/
def Scan.store (st : Scan) (hextet : ℕ) : Scan where
  addr i :=
    if i = st.hextetsFound * 2 then UInt8.ofNat (hextet / 256)
    else if i = st.hextetsFound * 2 + 1 then UInt8.ofNat hextet
    else st.addr i
  zeroComp := st.zeroComp
  hextetsFound := st.hextetsFound + 1

/-- The loop over the groups, `left` of them being left; `none` where it returns an error. -/
def ipv6Loop : ℕ → Scan → List UInt8 → Option (Scan × List UInt8)
  | 0, st, s => some (st, s)
  | left + 1, st, s =>
    match qdfConsumeHextet s with
    | none => if st.zeroComp ≠ some st.hextetsFound then none else some (st, s)
    | some (hextet, s) =>
      let st := st.store hextet
      match qdfConsumeChar s ':' with
      | none => some (st, s)
      | some s =>
        match qdfConsumeChar s ':' with
        | none => ipv6Loop left st s
        | some s =>
          if st.zeroComp.isSome then none
          else ipv6Loop left { st with zeroComp := some st.hextetsFound } s

theorem ipv6Loop_succ (left : ℕ) (st : Scan) (s : List UInt8) :
    ipv6Loop (left + 1) st s =
      match qdfConsumeHextet s with
      | none => if st.zeroComp ≠ some st.hextetsFound then none else some (st, s)
      | some (hextet, s) =>
        match qdfConsumeChar s ':' with
        | none => some (st.store hextet, s)
        | some s =>
          match qdfConsumeChar s ':' with
          | none => ipv6Loop left (st.store hextet) s
          | some s =>
            if (st.store hextet).zeroComp.isSome then none
            else ipv6Loop left
              { st.store hextet with zeroComp := some (st.store hextet).hextetsFound } s := rfl

/-- `qdf_mem_move`, within an address. -/
def qdfMemMove (addr : ℕ → UInt8) (dest source size : ℕ) : ℕ → UInt8 := fun i =>
  if dest ≤ i ∧ i < dest + size then addr (source + (i - dest)) else addr i

/-- `qdf_mem_zero`. -/
def qdfMemZero (addr : ℕ → UInt8) (dest size : ℕ) : ℕ → UInt8 := fun i =>
  if dest ≤ i ∧ i < dest + size then 0 else addr i

/-- `qdf_ipv6_apply_zero_comp`. -/
def qdfIpv6ApplyZeroComp (addr : ℕ → UInt8) (hextets zeroCompIndex : ℕ) : ℕ → UInt8 :=
  let zeroCompSize := (hextetCount - hextets) * 2
  let bytesToMove := (hextets - zeroCompIndex) * 2
  let source := zeroCompIndex * 2
  let dest := source + zeroCompSize
  let addr := if bytesToMove ≠ 0 then qdfMemMove addr dest source bytesToMove else addr
  qdfMemZero addr source (dest - source)

/-- `struct qdf_ipv6_addr`. -/
abbrev Ipv6Addr := Fin 16 → UInt8

/-- The leading zero compression; `none` where there is one colon only. -/
def leadingZeroComp (s : List UInt8) : Option (Option ℕ × List UInt8) :=
  match qdfConsumeChar s ':' with
  | none => some (none, s)
  | some s => (qdfConsumeChar s ':').map fun s => (some 0, s)

/-- `qdf_ipv6_parse`: it gets what its own variable and the output held, and returns what the
    output holds then. -/
def qdfIpv6Parse (s : List UInt8) (addr : ℕ → UInt8) (out : Ipv6Addr) : QdfStatus × Ipv6Addr :=
  match leadingZeroComp (qdfStrLeftTrim s) with
  | none => (.eFailure, out)
  | some (zeroComp, s) =>
    match ipv6Loop hextetCount ⟨addr, zeroComp, 0⟩ s with
    | none => (.eFailure, out)
    | some (st, s) =>
      if first (qdfStrLeftTrim s) ≠ 0 then (.eFailure, out)
      else if st.hextetsFound < hextetCount then
        match st.zeroComp with
        | none => (.eFailure, out)
        | some zeroComp =>
          (.success, fun i => qdfIpv6ApplyZeroComp st.addr st.hextetsFound zeroComp i)
      else if st.zeroComp.isSome then (.eFailure, out)
      else (.success, fun i => st.addr i)

/-! ## The text of an address -/

/-- A group: one to four hexadecimal digits. -/
structure Group where
  digits : List UInt8
  isDigit : ∀ c ∈ digits, ∃ d ∈ hexDigit c, d < 16
  nonempty : digits ≠ []
  short : digits.length ≤ 4

def Group.value (g : Group) : ℕ := Numeral.value 16 (g.digits.filterMap hexDigit)

/-- Groups, with single colons between them. -/
def joined (gs : List Group) : List UInt8 := (bytes [':']).intercalate (gs.map Group.digits)

/-- An address: eight groups, or fewer with a `::` for the zeros. -/
inductive Address
  | full (gs : List Group) (eight : gs.length = 8)
  | compressed (before after : List Group) (fewer : before.length + after.length < 8)

namespace Address

def text : Address → List UInt8
  | full gs _ => joined gs
  | compressed before after _ => joined before ++ (bytes [':', ':'] ++ joined after)

/-- The eight numbers. -/
def values : Address → List ℕ
  | full gs _ => gs.map Group.value
  | compressed before after _ =>
    before.map Group.value ++
      (List.replicate (8 - (before.length + after.length)) 0 ++ after.map Group.value)

end Address

/-- A byte of numbers with two bytes each, the more significant one first. -/
def octet (vs : List ℕ) (i : ℕ) : UInt8 :=
  if i % 2 = 0 then UInt8.ofNat (vs.getD (i / 2) 0 / 256) else UInt8.ofNat (vs.getD (i / 2) 0)

def Address.bytes (a : Address) : Ipv6Addr := fun i => octet a.values i

/-- The string is the address, with white space around it. -/
def SpellsAddress (s : List UInt8) (a : Address) : Prop :=
  ∃ pre post, White pre ∧ White post ∧ s = pre ++ (a.text ++ post)

/-! ## A group -/

variable {s rest : List UInt8} {g : Group} {gs : List Group} {c : UInt8} {left len hextet : ℕ}

/-- A group ends here. -/
def NoDigit (s : List UInt8) : Prop := ∀ c ∈ s.head?, hexDigit c = none

theorem qdfConsumeHex_none (h : NoDigit s) : qdfConsumeHex s = none := by
  cases s with
  | nil => rfl
  | cons c s =>
    unfold qdfConsumeHex first
    rw [List.headD_cons, h c rfl]
    rfl

theorem qdfConsumeHex_cons {d : ℕ} (h : hexDigit c = some d) :
    qdfConsumeHex (c :: s) = some (d, s) := by
  unfold qdfConsumeHex first
  rw [List.headD_cons, h]
  rfl

theorem hexDigit_lt {d : ℕ} (h : hexDigit c = some d) : d < 16 := by
  rw [hexDigit_eq] at h
  split_ifs at h with h1 h2 h3
  · obtain rfl := Option.some.inj h
    omega
  · obtain rfl := Option.some.inj h
    omega
  · obtain rfl := Option.some.inj h
    omega

/-- The loop takes digits as long as there are any, but no more than are left. -/
theorem hextetLoop_succ (left : ℕ) (s : List UInt8) (len hextet : ℕ) :
    hextetLoop (left + 1) s len hextet =
      match qdfConsumeHex s with
      | none => (len, hextet, s)
      | some (digit, s) => hextetLoop left s (len + 1) ((hextet <<< 4 + digit) % 2 ^ 16) := rfl

theorem hextetLoop_eq {ds : List UInt8} {before : List ℕ}
    (hds : ∀ c ∈ ds, ∃ d ∈ hexDigit c, d < 16) (hle : ds.length ≤ left)
    (hrest : ds.length = left ∨ NoDigit rest) (hv : hextet = Numeral.value 16 before % 2 ^ 16) :
    hextetLoop left (ds ++ rest) len hextet = (len + ds.length,
      Numeral.value 16 (before ++ ds.filterMap hexDigit) % 2 ^ 16, rest) := by
  induction ds generalizing left len hextet before with
  | nil =>
    rw [List.filterMap_nil, List.append_nil, ← hv]
    cases left with
    | zero => rfl
    | succ left =>
      rw [List.nil_append, hextetLoop_succ, qdfConsumeHex_none (hrest.resolve_left nofun)]
      rfl
  | cons c ds ih =>
    obtain ⟨d, hd, -⟩ := hds c List.mem_cons_self
    obtain ⟨left, rfl⟩ := Nat.exists_eq_succ_of_ne_zero (Nat.ne_of_gt (Nat.zero_lt_of_lt hle))
    have hnext : (hextet <<< 4 + d) % 2 ^ 16 = Numeral.value 16 (before ++ [d]) % 2 ^ 16 := by
      rw [Numeral.value_mod_concat, ← hv, Nat.shiftLeft_eq]
    rw [List.cons_append, hextetLoop_succ, qdfConsumeHex_cons hd]
    dsimp only
    rw [ih (fun c hc => hds c (List.mem_cons_of_mem _ hc)) (Nat.le_of_succ_le_succ hle)
      (hrest.imp_left fun h => Nat.succ_injective h) hnext, List.filterMap_cons_some hd,
      List.append_assoc, List.length_cons, Nat.add_right_comm, Nat.add_assoc]
    rfl

theorem Group.value_lt (g : Group) : g.value < 2 ^ 16 := by
  have hdigits : ∀ d ∈ g.digits.filterMap hexDigit, d < 16 := by
    intro d hd
    obtain ⟨c, -, hc⟩ := List.mem_filterMap.1 hd
    exact hexDigit_lt hc
  have hlength : (g.digits.filterMap hexDigit).length ≤ 4 :=
    Nat.le_trans (List.length_filterMap_le hexDigit g.digits) g.short
  calc g.value < 16 ^ (g.digits.filterMap hexDigit).length :=
        Numeral.value_lt (by omega) hdigits
    _ ≤ 16 ^ 4 := Nat.pow_le_pow_right (by omega) hlength
    _ = 2 ^ 16 := rfl

/-- **A group is taken**, up to where it ends. -/
theorem qdfConsumeHextet_group (g : Group) (hrest : g.digits.length = 4 ∨ NoDigit rest) :
    qdfConsumeHextet (g.digits ++ rest) = some (g.value, rest) := by
  have hloop := @hextetLoop_eq rest 4 0 0 g.digits [] g.isDigit g.short hrest rfl
  have hlength : g.digits.length ≠ 0 := fun h => g.nonempty (List.length_eq_zero_iff.1 h)
  unfold qdfConsumeHextet
  rw [hloop]
  dsimp only
  rw [Nat.zero_add, if_neg hlength, List.nil_append]
  rw [show Numeral.value 16 (g.digits.filterMap hexDigit) = g.value from rfl,
    Nat.mod_eq_of_lt g.value_lt]

theorem qdfConsumeHextet_none (h : NoDigit s) : qdfConsumeHextet s = none := by
  unfold qdfConsumeHextet
  rw [hextetLoop_succ, qdfConsumeHex_none h]
  rfl

/-- The digits a string begins with, `left` of them at most. -/
theorem split_digits (left : ℕ) (s : List UInt8) :
    ∃ ds rest, s = ds ++ rest ∧ (∀ c ∈ ds, ∃ d ∈ hexDigit c, d < 16) ∧ ds.length ≤ left ∧
      (ds.length = left ∨ NoDigit rest) := by
  induction left generalizing s with
  | zero => exact ⟨[], s, rfl, nofun, le_rfl, .inl rfl⟩
  | succ left ih =>
    cases s with
    | nil => exact ⟨[], [], rfl, nofun, Nat.zero_le _, .inr nofun⟩
    | cons c s =>
      cases hc : hexDigit c with
      | none =>
        refine ⟨[], c :: s, rfl, nofun, Nat.zero_le _, .inr fun a ha => ?_⟩
        obtain rfl := Option.some.inj ha
        exact hc
      | some d =>
        obtain ⟨ds, rest, rfl, hds, hle, hrest⟩ := ih s
        refine ⟨c :: ds, rest, rfl, fun a ha => ?_, Nat.succ_le_succ hle,
          hrest.imp_left (congrArg Nat.succ)⟩
        rcases List.mem_cons.1 ha with rfl | ha
        · exact ⟨d, hc, hexDigit_lt hc⟩
        · exact hds a ha

/-- **Nothing else is taken** for a group. -/
theorem qdfConsumeHextet_cases (s : List UInt8) :
    (NoDigit s ∧ qdfConsumeHextet s = none) ∨
      ∃ (g : Group) (rest : List UInt8), s = g.digits ++ rest ∧
        qdfConsumeHextet s = some (g.value, rest) := by
  obtain ⟨ds, rest, rfl, hds, hle, hrest⟩ := split_digits 4 s
  cases ds with
  | nil =>
    have hno : NoDigit rest := hrest.resolve_left nofun
    exact .inl ⟨hno, qdfConsumeHextet_none hno⟩
  | cons c ds =>
    exact .inr ⟨⟨c :: ds, hds, List.cons_ne_nil c ds, hle⟩, rest, rfl,
      qdfConsumeHextet_group ⟨c :: ds, hds, List.cons_ne_nil c ds, hle⟩ hrest⟩

/-! ## Colons -/

theorem qdfConsumeChar_colon (s : List UInt8) :
    qdfConsumeChar (':'.toUInt8 :: s) ':' = some s := rfl

/-- There is no colon here. -/
def NoColon (s : List UInt8) : Prop := ∀ c ∈ s.head?, c ≠ ':'.toUInt8

theorem qdfConsumeChar_noColon (h : NoColon s) : qdfConsumeChar s ':' = none := by
  cases s with
  | nil => rfl
  | cons c s => exact if_neg (h c rfl)

theorem qdfConsumeChar_cases (s : List UInt8) :
    (NoColon s ∧ qdfConsumeChar s ':' = none) ∨
      ∃ rest, s = ':'.toUInt8 :: rest ∧ qdfConsumeChar s ':' = some rest := by
  cases s with
  | nil => exact .inl ⟨nofun, rfl⟩
  | cons c s =>
    by_cases hc : c = ':'.toUInt8
    · exact .inr ⟨s, by rw [hc], if_pos hc⟩
    · have hno : NoColon (c :: s) := fun a ha => Option.some.inj ha ▸ hc
      exact .inl ⟨hno, qdfConsumeChar_noColon hno⟩

@[simp] theorem joined_nil : joined [] = [] := rfl

@[simp] theorem joined_singleton (g : Group) : joined [g] = g.digits := by
  simp [joined]

theorem joined_cons (g : Group) (hgs : gs ≠ []) :
    joined (g :: gs) = g.digits ++ ':'.toUInt8 :: joined gs := by
  obtain ⟨g', gs, rfl⟩ := List.exists_cons_of_ne_nil hgs
  rw [joined, List.map_cons, List.map_cons, List.intercalate_cons_cons]
  rw [List.append_assoc]
  rfl

/-- Groups begin with a digit. -/
theorem joined_head (hgs : gs ≠ []) : ∃ c t d, joined gs = c :: t ∧ hexDigit c = some d := by
  obtain ⟨g, gs, rfl⟩ := List.exists_cons_of_ne_nil hgs
  obtain ⟨c, ds, hds⟩ := List.exists_cons_of_ne_nil g.nonempty
  obtain ⟨d, hd, -⟩ := g.isDigit c (hds ▸ List.mem_cons_self)
  by_cases hnil : gs = []
  · exact ⟨c, ds, d, by rw [hnil, joined_singleton, hds], hd⟩
  · exact ⟨c, ds ++ ':'.toUInt8 :: joined gs, d, by rw [joined_cons g hnil, hds]; rfl, hd⟩

theorem hexDigit_colon : hexDigit ':'.toUInt8 = none := by decide

theorem joined_noColon (hgs : gs ≠ []) (rest : List UInt8) : NoColon (joined gs ++ rest) := by
  obtain ⟨c, t, d, htext, hd⟩ := joined_head hgs
  rw [htext]
  rintro a ha rfl
  obtain rfl := Option.some.inj ha
  rw [hexDigit_colon] at hd
  cases hd

/-- There is a colon less than there are groups. -/
theorem count_joined (hgs : gs ≠ []) : (joined gs).count ':'.toUInt8 + 1 = gs.length := by
  have hdigits : ∀ g : Group, g.digits.count ':'.toUInt8 = 0 := fun g =>
    List.count_eq_zero.2 fun hmem => by
      obtain ⟨d, hd, -⟩ := g.isDigit _ hmem
      rw [hexDigit_colon] at hd
      cases hd
  induction gs with
  | nil => exact absurd rfl hgs
  | cons g gs ih =>
    by_cases hnil : gs = []
    · rw [hnil, joined_singleton, hdigits]
      rfl
    · rw [joined_cons g hnil, List.count_append, hdigits, List.count_cons_self, Nat.zero_add,
        ih hnil]
      rfl

theorem White.noDigit (h : White s) : NoDigit s := h.stops.hexDigit

theorem White.noColon (h : White s) : NoColon s := by
  rintro c hc rfl
  exact absurd (h _ (List.mem_of_head? hc)) (by decide)

theorem noDigit_colon (s : List UInt8) : NoDigit (':'.toUInt8 :: s) := by
  intro c hc
  exact Option.some.inj hc ▸ hexDigit_colon

end Sm8850.Qdf
