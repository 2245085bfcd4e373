/-
  The T2LM elements of a beacon or a probe response: `wlan_mlo_t2lm.c`.

  * `Bounded` holds the readers once more, with every byte fetched from the frame: a byte
    that is not there is a fault.  `Bounded.parseT2lmInfo_eq`: within an element that is all
    there, they read what `parseT2lmInfo` says.
  * `parseBcnPrbrespT2lmIe` takes the first elements of a frame, with one info for all of
    them.
  * `T2lmInfo.over`: what of the info before an element leaves as it was.
  * `beacon_own_iff`: the stored mappings are those of their own elements just if the first
    element leaves nothing behind.
-/
import Sm8850.Mlo.T2lmRoundTrip

namespace Sm8850.Mlo.T2lm

open Lib.Bytes

/-! ## Bounded reading -/

namespace Bounded

/-- How a reader ends early: with a status, or on a byte outside of the frame. -/
inductive Fault where
  | status (s : QdfStatus)
  | outside

/-- The byte at an offset of a pointer into the frame. -/
def fetch (l : List UInt8) (i : ℕ) : Except Fault ℕ :=
  match l[i]? with
  | some b => .ok b.toNat
  | none => .error .outside

/-- A 16-bit field. -/
def fetch16 (l : List UInt8) : Except Fault ℕ := do
  let lo ← fetch l 0
  let hi ← fetch l 1
  return lo + 256 * hi

/-- The control field of an element of length `ieLen`. -/
def parseControl (ieLen : ℕ) (field : List UInt8) (t : T2lmInfo) :
    Except Fault (Cursor × ℕ) := do
  let control ← fetch field 0
  let control ← if ieLen > WLAN_T2LM_CTRL_SIZE then fetch16 field else pure control
  match Direction.ofCode (getBits control 0 2) with
  | none => .error (.status .eNullValue)
  | some dir =>
    let t := { t with
      direction := dir
      defaultLinkMapping := getBits control 2 1 ≠ 0
      mappingSwitchTimePresent := getBits control 3 1 ≠ 0
      expectedDurationPresent := getBits control 4 1 ≠ 0
      linkMappingSize := getBits control 5 1 ≠ 0 }
    if t.defaultLinkMapping then
      if ieLen < 1 + 1 then .error (.status .eProto) else .ok (⟨t, field.drop 1, 1 + 1⟩, 0)
    else
      if ieLen < 1 + 2 then .error (.status .eProto)
      else .ok (⟨t, field.drop 2, 1 + 2⟩, getBits control 8 8)

def parseSwitchTime (ieLen : ℕ) (c : Cursor) : Except Fault Cursor :=
  if c.t2lm.mappingSwitchTimePresent then
    if ieLen < c.parsed + 2 then .error (.status .eProto)
    else do
      let v ← fetch16 c.ptr
      return ⟨{ c.t2lm with mappingSwitchTime := UInt16.ofNat v }, c.ptr.drop 2, c.parsed + 2⟩
  else .ok c

def parseDuration (ieLen : ℕ) (c : Cursor) : Except Fault Cursor :=
  if c.t2lm.expectedDurationPresent then
    if ieLen < c.parsed + WLAN_T2LM_EXPECTED_DURATION_SIZE then .error (.status .eProto)
    else do
      let b0 ← fetch c.ptr 0
      let b1 ← fetch c.ptr 1
      let b2 ← fetch c.ptr 2
      let d := c.t2lm.expectedDuration.toNat / 2 ^ 24 * 2 ^ 24 + 65536 * b2 + 256 * b1 + b0
      return ⟨{ c.t2lm with expectedDuration := UInt32.ofNat d }, c.ptr.drop 3, c.parsed + 3⟩
  else .ok c

/-- The loop over the TIDs that are left. -/
def parseTids (ieLen presenceInd : ℕ) : List (Fin 8) → Cursor → Except Fault Cursor
  | [], c => .ok c
  | tid :: tids, c =>
    if presenceInd.testBit tid = false then parseTids ieLen presenceInd tids c
    else if c.t2lm.linkMappingSize = false then
      if ieLen < c.parsed + 2 then .error (.status .eProto)
      else do
        let v ← fetch16 c.ptr
        parseTids ieLen presenceInd tids (c.setMap tid (UInt16.ofNat v) 2)
    else
      if ieLen < c.parsed + 1 then .error (.status .eProto)
      else do
        let v ← fetch c.ptr 0
        parseTids ieLen presenceInd tids (c.setMap tid (UInt16.ofNat v) 1)

/-- `wlan_mlo_parse_t2lm_info`. -/
def parseT2lmInfo (ie : List UInt8) (t : T2lmInfo) : Except Fault T2lmInfo := do
  let ieLen ← fetch ie 1
  if ieLen < WLAN_T2LM_CTRL_SIZE then .error (.status .eProto)
  else
    let (c, presenceInd) ← parseControl ieLen (ie.drop 3) t
    let c ← parseSwitchTime ieLen c
    let c ← parseDuration ieLen c
    if c.t2lm.defaultLinkMapping then
      if ieLen > c.parsed then .error (.status .eProto) else .ok c.t2lm
    else
      let c ← parseTids ieLen presenceInd (List.finRange 8) c
      if ieLen > c.parsed then .error (.status .eProto) else .ok c.t2lm

/-! ### The bytes of an element are there -/

/-- A cursor with more of the frame behind its element. -/
def extend (c : Cursor) (tl : List UInt8) : Cursor := { c with ptr := c.ptr ++ tl }

/-- The rest of an element of length `ieLen` is there. -/
def There (ieLen : ℕ) (c : Cursor) : Prop := ieLen ≤ c.parsed + c.ptr.length

variable {l tl : List UInt8} {ieLen i : ℕ} {c : Cursor} {t : T2lmInfo}

theorem fetch_append (h : i < l.length) (tl : List UInt8) :
    fetch (l ++ tl) i = .ok (byteAt l i) := by
  rw [fetch, List.getElem?_append_left h, byteAt, List.getD_eq_getElem?_getD,
    List.getElem?_eq_getElem h]
  rfl

theorem fetch16_append (h : 1 < l.length) (tl : List UInt8) :
    fetch16 (l ++ tl) = .ok (le16ToCpu l) := by
  rw [fetch16, fetch_append (by omega), fetch_append h]
  rfl

/-- A stage of the reader does on the longer frame what it does on the element, and leaves the
    rest of the element there. -/
def Agrees (ieLen : ℕ) (tl : List UInt8) (r : Except QdfStatus Cursor) (b : Except Fault Cursor) :
    Prop :=
  match r with
  | .ok c => b = .ok (extend c tl) ∧ There ieLen c
  | .error s => b = .error (.status s)

/-- Moving on within the element. -/
theorem extend_drop {n : ℕ} (hn : n ≤ c.ptr.length) (t' : T2lmInfo) (k : ℕ) (tl : List UInt8) :
    (⟨t', (extend c tl).ptr.drop n, k⟩ : Cursor) = extend ⟨t', c.ptr.drop n, k⟩ tl :=
  congrArg (Cursor.mk t' · k) (List.drop_append_of_le_length hn)

theorem There.drop {n : ℕ} (h : There ieLen c) (hn : c.parsed + n ≤ ieLen) (t' : T2lmInfo) :
    There ieLen ⟨t', c.ptr.drop n, c.parsed + n⟩ := by
  unfold There at *
  rw [List.length_drop]
  change ieLen ≤ c.parsed + n + (c.ptr.length - n)
  omega

theorem parseSwitchTime_agrees (h : There ieLen c) (tl : List UInt8) :
    Agrees ieLen tl (T2lm.parseSwitchTime ieLen c) (parseSwitchTime ieLen (extend c tl)) := by
  have hlen : ieLen ≤ c.parsed + c.ptr.length := h
  unfold T2lm.parseSwitchTime parseSwitchTime
  by_cases hp : c.t2lm.mappingSwitchTimePresent = true
  · rw [if_pos hp, if_pos (show (extend c tl).t2lm.mappingSwitchTimePresent = true from hp)]
    by_cases hl : ieLen < c.parsed + 2
    · rw [if_pos hl, if_pos (show ieLen < (extend c tl).parsed + 2 from hl)]
      exact rfl
    · rw [if_neg hl, if_neg (show ¬ ieLen < (extend c tl).parsed + 2 from hl)]
      have hf : fetch16 (extend c tl).ptr = .ok (le16ToCpu c.ptr) :=
        fetch16_append (by omega) tl
      rw [hf]
      exact ⟨congrArg Except.ok (extend_drop (by omega) _ _ tl), h.drop (by omega) _⟩
  · rw [if_neg hp, if_neg (show ¬ (extend c tl).t2lm.mappingSwitchTimePresent = true from hp)]
    exact ⟨rfl, h⟩

theorem parseDuration_agrees (h : There ieLen c) (tl : List UInt8) :
    Agrees ieLen tl (T2lm.parseDuration ieLen c) (parseDuration ieLen (extend c tl)) := by
  have hlen : ieLen ≤ c.parsed + c.ptr.length := h
  unfold T2lm.parseDuration parseDuration
  by_cases hp : c.t2lm.expectedDurationPresent = true
  · rw [if_pos hp, if_pos (show (extend c tl).t2lm.expectedDurationPresent = true from hp)]
    by_cases hl : ieLen < c.parsed + WLAN_T2LM_EXPECTED_DURATION_SIZE
    · rw [if_pos hl, if_pos (show ieLen < (extend c tl).parsed + _ from hl)]
      exact rfl
    · rw [if_neg hl, if_neg (show ¬ ieLen < (extend c tl).parsed + _ from hl)]
      have hl' : ¬ ieLen < c.parsed + 3 := hl
      have hf : ∀ i < 3, fetch (extend c tl).ptr i = .ok (byteAt c.ptr i) := fun i hi =>
        fetch_append (by omega) tl
      rw [hf 0 (by omega), hf 1 (by omega), hf 2 (by omega)]
      exact ⟨congrArg Except.ok (extend_drop (by omega) _ _ tl), h.drop (by omega) _⟩
  · rw [if_neg hp, if_neg (show ¬ (extend c tl).t2lm.expectedDurationPresent = true from hp)]
    exact ⟨rfl, h⟩

theorem setMap_extend {n : ℕ} (hn : n ≤ c.ptr.length) (tid : Fin 8) (v : UInt16)
    (tl : List UInt8) : (extend c tl).setMap tid v n = extend (c.setMap tid v n) tl :=
  extend_drop hn _ _ tl

theorem parseTids_agrees (h : There ieLen c) (presenceInd : ℕ) (tids : List (Fin 8))
    (tl : List UInt8) :
    Agrees ieLen tl (T2lm.parseTids ieLen presenceInd tids c)
      (parseTids ieLen presenceInd tids (extend c tl)) := by
  induction tids generalizing c with
  | nil => exact ⟨rfl, h⟩
  | cons tid tids ih =>
    have hlen : ieLen ≤ c.parsed + c.ptr.length := h
    unfold T2lm.parseTids parseTids
    by_cases hp : presenceInd.testBit tid = false
    · rw [if_pos hp, if_pos hp]
      exact ih h
    · rw [if_neg hp, if_neg hp]
      by_cases hs : c.t2lm.linkMappingSize = false
      · rw [if_pos hs, if_pos (show (extend c tl).t2lm.linkMappingSize = false from hs)]
        by_cases hl : ieLen < c.parsed + 2
        · rw [if_pos hl, if_pos (show ieLen < (extend c tl).parsed + 2 from hl)]
          exact rfl
        · rw [if_neg hl, if_neg (show ¬ ieLen < (extend c tl).parsed + 2 from hl)]
          have hf : fetch16 (extend c tl).ptr = .ok (le16ToCpu c.ptr) :=
            fetch16_append (by omega) tl
          have he := setMap_extend (c := c) (n := 2) (by omega) tid
            (UInt16.ofNat (le16ToCpu c.ptr)) tl
          rw [hf]
          change Agrees ieLen tl _
            (parseTids ieLen presenceInd tids ((extend c tl).setMap tid _ 2))
          rw [he]
          exact ih (h.drop (by omega) _)
      · rw [if_neg hs, if_neg (show ¬ (extend c tl).t2lm.linkMappingSize = false from hs)]
        by_cases hl : ieLen < c.parsed + 1
        · rw [if_pos hl, if_pos (show ieLen < (extend c tl).parsed + 1 from hl)]
          exact rfl
        · rw [if_neg hl, if_neg (show ¬ ieLen < (extend c tl).parsed + 1 from hl)]
          have hf : fetch (extend c tl).ptr 0 = .ok (byteAt c.ptr 0) :=
            fetch_append (by omega) tl
          have he := setMap_extend (c := c) (n := 1) (by omega) tid
            (UInt16.ofNat (byteAt c.ptr 0)) tl
          rw [hf]
          change Agrees ieLen tl _
            (parseTids ieLen presenceInd tids ((extend c tl).setMap tid _ 1))
          rw [he]
          exact ih (h.drop (by omega) _)

/-- The control field of an element that is all there. -/
theorem parseControl_agrees {field : List UInt8} (h : ieLen ≤ 1 + field.length)
    (hmin : 2 ≤ ieLen) (t : T2lmInfo) (tl : List UInt8) :
    match T2lm.parseControl ieLen field t with
    | .ok (c, p) => parseControl ieLen (field ++ tl) t = .ok (extend c tl, p) ∧ There ieLen c
    | .error s => parseControl ieLen (field ++ tl) t = .error (.status s) := by
  have hctl : ∀ control : ℕ, control = (if ieLen > WLAN_T2LM_CTRL_SIZE then le16ToCpu field
      else byteAt field 0) → parseControl ieLen (field ++ tl) t =
        match Direction.ofCode (getBits control 0 2) with
        | none => .error (.status .eNullValue)
        | some dir =>
          let t := { t with
            direction := dir
            defaultLinkMapping := getBits control 2 1 ≠ 0
            mappingSwitchTimePresent := getBits control 3 1 ≠ 0
            expectedDurationPresent := getBits control 4 1 ≠ 0
            linkMappingSize := getBits control 5 1 ≠ 0 }
          if t.defaultLinkMapping then
            if ieLen < 1 + 1 then .error (.status .eProto)
            else .ok (⟨t, (field ++ tl).drop 1, 1 + 1⟩, 0)
          else
            if ieLen < 1 + 2 then .error (.status .eProto)
            else .ok (⟨t, (field ++ tl).drop 2, 1 + 2⟩, getBits control 8 8) := by
    rintro control rfl
    rw [parseControl, fetch_append (by omega)]
    by_cases hl : ieLen > WLAN_T2LM_CTRL_SIZE
    · have hl' : ieLen > 2 := hl
      simp only [if_pos hl]
      rw [fetch16_append (by omega)]
      rfl
    · simp only [if_neg hl]
      rfl
  rw [T2lm.parseControl, hctl _ rfl]
  generalize (if ieLen > WLAN_T2LM_CTRL_SIZE then le16ToCpu field else byteAt field 0) = control
  cases hdir : Direction.ofCode (getBits control 0 2) with
  | none => rfl
  | some dir =>
    dsimp only
    generalize decide (getBits control 2 1 ≠ 0) = dflt
    cases dflt with
    | true =>
      simp only [if_true, if_neg (show ¬ ieLen < 1 + 1 by omega)]
      refine ⟨congrArg (fun p => Except.ok (Cursor.mk _ p _, _))
        (List.drop_append_of_le_length (by omega)), ?_⟩
      simp only [There, List.length_drop]
      omega
    | false =>
      simp only [Bool.false_eq_true, if_false]
      by_cases hl : ieLen < 1 + 2
      · simp only [if_pos hl]
      · simp only [if_neg hl]
        refine ⟨congrArg (fun p => Except.ok (Cursor.mk _ p _, _))
          (List.drop_append_of_le_length (by omega)), ?_⟩
        simp only [There, List.length_drop]
        omega

/-- Stages one after the other. -/
theorem Agrees.bind {α : Type} {r : Except QdfStatus Cursor} {b : Except Fault Cursor}
    {kr : Cursor → Except QdfStatus α} {kb : Cursor → Except Fault α}
    (h : Agrees ieLen tl r b)
    (hk : ∀ c, There ieLen c → kb (extend c tl) = (kr c).mapError .status) :
    (b >>= kb) = (r >>= kr).mapError .status := by
  cases r with
  | error s =>
    rw [show b = .error (.status s) from h]
    rfl
  | ok c =>
    obtain ⟨he, ht⟩ : b = .ok (extend c tl) ∧ There ieLen c := h
    rw [he]
    exact hk c ht

/-- The last check, that nothing is left. -/
theorem parsedAll (c : Cursor) (tl : List UInt8) :
    (if ieLen > (extend c tl).parsed then .error (.status .eProto) else
      .ok (extend c tl).t2lm : Except Fault T2lmInfo) =
      (if ieLen > c.parsed then Except.error .eProto else Except.ok c.t2lm).mapError .status := by
  by_cases hl : ieLen > c.parsed
  · rw [if_pos hl, if_pos (show ieLen > (extend c tl).parsed from hl)]
    rfl
  · rw [if_neg hl, if_neg (show ¬ ieLen > (extend c tl).parsed from hl)]
    rfl

/-- **An element that is all there is read within its bytes**, whatever follows it. -/
theorem parseT2lmInfo_eq {ie : List UInt8} (hhdr : 3 ≤ ie.length)
    (h : byteAt ie 1 + 2 ≤ ie.length) (t : T2lmInfo) (tl : List UInt8) :
    parseT2lmInfo (ie ++ tl) t = (T2lm.parseT2lmInfo ie t).mapError .status := by
  rw [parseT2lmInfo, T2lm.parseT2lmInfo, fetch_append (by omega)]
  generalize byteAt ie 1 = ieLen at h ⊢
  change (if ieLen < WLAN_T2LM_CTRL_SIZE then _ else _) = _
  by_cases hmin : ieLen < WLAN_T2LM_CTRL_SIZE
  · rw [if_pos hmin]
    simp only [if_pos hmin]
    rfl
  · have hmin' : 2 ≤ ieLen := not_lt.1 hmin
    rw [if_neg hmin, List.drop_append_of_le_length hhdr]
    simp only [if_neg hmin]
    have hctl := @parseControl_agrees ieLen (ie.drop 3) (by rw [List.length_drop]; omega) hmin' t
      tl
    cases hc : T2lm.parseControl ieLen (ie.drop 3) t with
    | error s =>
      rw [hc] at hctl
      rw [hctl]
      rfl
    | ok r =>
      obtain ⟨c, p⟩ := r
      rw [hc] at hctl
      obtain ⟨he, hthere⟩ := hctl
      rw [he]
      refine (parseSwitchTime_agrees hthere tl).bind fun c hthere => ?_
      refine (parseDuration_agrees hthere tl).bind fun c hthere => ?_
      by_cases hd : c.t2lm.defaultLinkMapping = true
      · rw [if_pos hd, if_pos (show (extend c tl).t2lm.defaultLinkMapping = true from hd)]
        exact parsedAll c tl
      · rw [if_neg hd, if_neg (show ¬ (extend c tl).t2lm.defaultLinkMapping = true from hd)]
        exact (parseTids_agrees hthere p _ tl).bind fun c _ => parsedAll c tl

end Bounded

/-! ## The elements of a frame -/

def WLAN_MAX_T2LM_IE : ℕ := 2

/-- The two mappings of a `struct wlan_t2lm_context`. -/
structure T2lmCtx where
  establishedT2lm : T2lmInfo
  upcomingT2lm : T2lmInfo

/-- An info with no direction. -/
def T2lmInfo.unset : T2lmInfo := { T2lmInfo.zero with direction := .invalid }

/-- What the context is set to first. -/
def T2lmCtx.reset : T2lmCtx := ⟨.unset, .unset⟩

/-- The info kept as the established or as the upcoming mapping, by the fields it has. -/
def T2lmCtx.store (ctx : T2lmCtx) (t : T2lmInfo) : T2lmCtx :=
  if t.mappingSwitchTimePresent = false ∧ t.expectedDurationPresent = true then
    { ctx with establishedT2lm := t }
  else if t.mappingSwitchTimePresent then { ctx with upcomingT2lm := t }
  else ctx

/-- The rounds that are left of the loop of `wlan_mlo_parse_bcn_prbresp_t2lm_ie`: `t2lm` is
    the one info that is read into. -/
def bcnLoop (frameLen : ℕ) : ℕ → T2lmInfo → T2lmCtx → List UInt8 → ℕ →
    Except Bounded.Fault Unit × T2lmCtx
  | 0, _, ctx, _, _ => (.ok (), ctx)
  | rounds + 1, t2lm, ctx, ie, parsed =>
    if frameLen = 0 then (.error (.status .eNullValue), ctx)
    else if frameLen = parsed then (.ok (), ctx)
    else if frameLen < parsed + 3 then bcnLoop frameLen rounds t2lm ctx ie parsed
    else
      match Bounded.fetch ie 0, Bounded.fetch ie 1, Bounded.fetch ie 2 with
      | .ok id, .ok len, .ok extnId =>
        if id = WLAN_ELEMID_EXTN_ELEM.toNat ∧ extnId = WLAN_EXTN_ELEMID_T2LM.toNat then
          let parsed := parsed + (len + 2)
          if frameLen < parsed then bcnLoop frameLen rounds t2lm ctx ie parsed
          else
            match Bounded.parseT2lmInfo ie { t2lm with direction := .invalid } with
            | .error e => (.error e, ctx)
            | .ok t => bcnLoop frameLen rounds t (ctx.store t) (ie.drop (len + 2)) parsed
        else bcnLoop frameLen rounds t2lm ctx ie parsed
      | _, _, _ => (.error .outside, ctx)

/-- `wlan_mlo_parse_bcn_prbresp_t2lm_ie`; no `ie` is the null pointer. -/
def parseBcnPrbrespT2lmIe (ie : Option (List UInt8)) (frameLen : ℕ) :
    Except Bounded.Fault Unit × T2lmCtx :=
  match ie with
  | none => (.error (.status .eNullValue), .reset)
  | some ie => bcnLoop frameLen WLAN_MAX_T2LM_IE .zero .reset ie 0

/-! ### Nothing outside is read -/

variable {ie l tl : List UInt8} {frameLen parsed rounds ieLen : ℕ} {t t2lm : T2lmInfo}
  {ctx : T2lmCtx} {c : Cursor}

theorem parseT2lmInfo_inside (hhdr : 3 ≤ ie.length) (h : byteAt ie 1 + 2 ≤ ie.length)
    (t : T2lmInfo) : Bounded.parseT2lmInfo ie t ≠ .error .outside := by
  have he := Bounded.parseT2lmInfo_eq hhdr h t []
  rw [List.append_nil] at he
  rw [he]
  cases parseT2lmInfo ie t with
  | error s => exact fun hc => Bounded.Fault.noConfusion (Except.error.inj hc)
  | ok t' => exact fun hc => nomatch hc

theorem fetch_inside {i : ℕ} (h : i < l.length) : Bounded.fetch l i = .ok (byteAt l i) := by
  have he := Bounded.fetch_append h []
  rwa [List.append_nil] at he

/-- While the elements fit, what is left of the frame is all behind the pointer; once one
    does not, nothing is read any more. -/
theorem bcnLoop_inside (h : frameLen ≤ parsed + ie.length ∨ frameLen < parsed) :
    (bcnLoop frameLen rounds t2lm ctx ie parsed).1 ≠ .error .outside := by
  have hok : (Except.ok () : Except Bounded.Fault Unit) ≠ .error .outside := fun h => nomatch h
  induction rounds generalizing t2lm ctx ie parsed with
  | zero => exact hok
  | succ rounds ih =>
    unfold bcnLoop
    split
    · exact fun hc => Bounded.Fault.noConfusion (Except.error.inj hc)
    · split
      · exact hok
      · split
        · exact ih h
        · next hroom =>
          have hlen : 3 ≤ ie.length := by omega
          rw [fetch_inside (by omega : 0 < ie.length), fetch_inside (by omega : 1 < ie.length),
            fetch_inside (by omega : 2 < ie.length)]
          dsimp only
          split
          · split
            · next hlt => exact ih (.inr hlt)
            · next hle =>
              have hin := parseT2lmInfo_inside hlen (by omega : byteAt ie 1 + 2 ≤ ie.length)
                { t2lm with direction := .invalid }
              cases hp : Bounded.parseT2lmInfo ie { t2lm with direction := .invalid } with
              | error e => exact fun hc => hin (hp.trans (congrArg _ (Except.error.inj hc)))
              | ok t' =>
                refine ih (.inl ?_)
                rw [List.length_drop]
                omega
          · exact ih h

/-! ### What an element leaves as it was -/

/-- An info read over another: without the field the old value stays, and `carried` says which
    TIDs have a mapping. -/
def T2lmInfo.over (d : T2lmInfo) (hasTime hasDuration : Bool) (carried : Fin 8 → Bool)
    (t : T2lmInfo) : T2lmInfo :=
  { d with
    mappingSwitchTime := if hasTime then d.mappingSwitchTime else t.mappingSwitchTime
    expectedDuration := if hasDuration then d.expectedDuration else t.expectedDuration
    ieeeLinkMapTid := fun tid => if carried tid then d.ieeeLinkMapTid tid else t.ieeeLinkMapTid tid
    hwLinkMapTid := t.hwLinkMapTid }

def Cursor.over (c : Cursor) (hasTime hasDuration : Bool) (carried : Fin 8 → Bool)
    (t : T2lmInfo) : Cursor :=
  { c with t2lm := c.t2lm.over hasTime hasDuration carried t }

theorem parseControl_over (ieLen : ℕ) (field : List UInt8) (t : T2lmInfo) :
    parseControl ieLen field t = (parseControl ieLen field .unset).map fun r =>
      (r.1.over false false (fun _ => false) t, r.2) := by
  unfold parseControl
  dsimp only
  generalize (if ieLen > WLAN_T2LM_CTRL_SIZE then le16ToCpu field else byteAt field 0) = control
  cases Direction.ofCode (getBits control 0 2) with
  | none => rfl
  | some dir =>
    dsimp only
    split
    · split <;> rfl
    · split <;> rfl

theorem parseSwitchTime_over (ieLen : ℕ) (c : Cursor) (hasDuration : Bool)
    (carried : Fin 8 → Bool) (t : T2lmInfo) :
    parseSwitchTime ieLen (c.over false hasDuration carried t) =
      (parseSwitchTime ieLen c).map fun r =>
        r.over c.t2lm.mappingSwitchTimePresent hasDuration carried t := by
  unfold parseSwitchTime
  change (if c.t2lm.mappingSwitchTimePresent = true then
    (if ieLen < c.parsed + 2 then _ else _) else _) = _
  cases c.t2lm.mappingSwitchTimePresent with
  | false => rfl
  | true =>
    simp only [if_true]
    split <;> rfl

theorem parseDuration_over (ieLen : ℕ) (c : Cursor) (hasTime : Bool)
    (carried : Fin 8 → Bool) (t : T2lmInfo) (hc : c.t2lm.expectedDuration.toNat < 2 ^ 24)
    (ht : t.expectedDuration.toNat < 2 ^ 24) :
    parseDuration ieLen (c.over hasTime false carried t) =
      (parseDuration ieLen c).map fun r =>
        r.over hasTime c.t2lm.expectedDurationPresent carried t := by
  have hhigh : t.expectedDuration.toNat / 2 ^ 24 = c.t2lm.expectedDuration.toNat / 2 ^ 24 := by
    omega
  have hd : (c.over hasTime false carried t).t2lm.expectedDuration = t.expectedDuration := rfl
  unfold parseDuration
  dsimp only
  rw [hd, hhigh]
  change (if c.t2lm.expectedDurationPresent = true then
    (if ieLen < c.parsed + WLAN_T2LM_EXPECTED_DURATION_SIZE then _ else _) else _) = _
  cases hp : c.t2lm.expectedDurationPresent with
  | false => simp only [Bool.false_eq_true, if_false, Except.map]
  | true =>
    simp only [if_true]
    split
    · simp only [Except.map]
    · simp only [Except.map, Cursor.over, T2lmInfo.over, if_true, hp]

/-- The TIDs carried with those of the list that are present. -/
def carriedWith (presenceInd : ℕ) (tids : List (Fin 8)) (carried : Fin 8 → Bool) (tid : Fin 8) :
    Bool :=
  carried tid || (presenceInd.testBit tid && tids.contains tid)

theorem setMap_over (c : Cursor) (hasTime hasDuration : Bool) (carried : Fin 8 → Bool)
    (t : T2lmInfo) (tid : Fin 8) (v : UInt16) (n : ℕ) :
    (c.over hasTime hasDuration carried t).setMap tid v n =
      (c.setMap tid v n).over hasTime hasDuration (Function.update carried tid true) t := by
  simp only [Cursor.over, Cursor.setMap, T2lmInfo.over, Cursor.mk.injEq, T2lmInfo.mk.injEq,
    true_and, and_true]
  funext tid'
  by_cases he : tid' = tid
  · subst he
    rw [Function.update_self, Function.update_self, Function.update_self, if_pos rfl]
  · rw [Function.update_of_ne he, Function.update_of_ne he, Function.update_of_ne he]

theorem carriedWith_cons {presenceInd : ℕ} {tid : Fin 8} (hp : presenceInd.testBit tid = true)
    (tids : List (Fin 8)) (carried : Fin 8 → Bool) :
    carriedWith presenceInd tids (Function.update carried tid true) =
      carriedWith presenceInd (tid :: tids) carried := by
  funext tid'
  unfold carriedWith
  by_cases he : tid' = tid
  · subst he
    simp [hp]
  · rw [Function.update_of_ne he]
    simp [he]

theorem carriedWith_cons_absent {presenceInd : ℕ} {tid : Fin 8}
    (hp : presenceInd.testBit tid = false) (tids : List (Fin 8)) (carried : Fin 8 → Bool) :
    carriedWith presenceInd tids carried = carriedWith presenceInd (tid :: tids) carried := by
  funext tid'
  unfold carriedWith
  by_cases he : tid' = tid
  · subst he
    simp [hp]
  · simp [he]

theorem parseTids_over (ieLen presenceInd : ℕ) (tids : List (Fin 8)) (c : Cursor)
    (hasTime hasDuration : Bool) (carried : Fin 8 → Bool) (t : T2lmInfo) :
    parseTids ieLen presenceInd tids (c.over hasTime hasDuration carried t) =
      (parseTids ieLen presenceInd tids c).map fun r =>
        r.over hasTime hasDuration (carriedWith presenceInd tids carried) t := by
  induction tids generalizing c carried with
  | nil =>
    have hnil : carriedWith presenceInd [] carried = carried := by
      funext tid
      simp [carriedWith]
    simp only [parseTids, Except.map, hnil]
  | cons tid tids ih =>
    unfold parseTids
    by_cases hp : presenceInd.testBit tid = false
    · rw [if_pos hp, if_pos hp, ih, carriedWith_cons_absent hp]
    · have hp' : presenceInd.testBit tid = true := by simpa using hp
      rw [if_neg hp, if_neg hp]
      change (if c.t2lm.linkMappingSize = false then (if ieLen < c.parsed + 2 then _ else _) else
        (if ieLen < c.parsed + 1 then _ else _)) = _
      split
      · split
        · rfl
        · rw [setMap_over, ih, carriedWith_cons hp']
          rfl
      · split
        · rfl
        · rw [setMap_over, ih, carriedWith_cons hp']
          rfl

/-- The fields that say which others there are. -/
def T2lmInfo.SameFlags (d d' : T2lmInfo) : Prop :=
  d.mappingSwitchTimePresent = d'.mappingSwitchTimePresent ∧
    d.expectedDurationPresent = d'.expectedDurationPresent ∧
    d.defaultLinkMapping = d'.defaultLinkMapping

/-- What the control field leaves: the old duration, and no presence indicator with the default
    mapping. -/
theorem parseControl_spec {field : List UInt8} {p : ℕ}
    (h : parseControl ieLen field t = .ok (c, p)) :
    c.t2lm.expectedDuration = t.expectedDuration ∧
      (c.t2lm.defaultLinkMapping = true → p = 0) := by
  unfold parseControl at h
  dsimp only at h
  generalize (if ieLen > WLAN_T2LM_CTRL_SIZE then le16ToCpu field else byteAt field 0) = control
    at h
  cases hdir : Direction.ofCode (getBits control 0 2) with
  | none =>
    rw [hdir] at h
    cases h
  | some dir =>
    rw [hdir] at h
    dsimp only at h
    by_cases hd : decide (getBits control 2 1 ≠ 0) = true
    · rw [if_pos hd] at h
      by_cases hl : ieLen < 1 + 1
      · rw [if_pos hl] at h
        cases h
      · rw [if_neg hl] at h
        obtain ⟨rfl, rfl⟩ := Prod.mk.inj (Except.ok.inj h)
        exact ⟨rfl, fun _ => rfl⟩
    · rw [if_neg hd] at h
      by_cases hl : ieLen < 1 + 2
      · rw [if_pos hl] at h
        cases h
      · rw [if_neg hl] at h
        obtain ⟨rfl, rfl⟩ := Prod.mk.inj (Except.ok.inj h)
        exact ⟨rfl, fun hx => absurd hx hd⟩

theorem parseSwitchTime_flags {r : Cursor} (h : parseSwitchTime ieLen c = .ok r) :
    c.t2lm.SameFlags r.t2lm ∧ r.t2lm.expectedDuration = c.t2lm.expectedDuration := by
  unfold parseSwitchTime at h
  split at h
  · split at h
    · cases h
    · cases h
      exact ⟨⟨rfl, rfl, rfl⟩, rfl⟩
  · cases h
    exact ⟨⟨rfl, rfl, rfl⟩, rfl⟩

theorem parseDuration_cases (ieLen : ℕ) (c : Cursor) :
    parseDuration ieLen c = .ok c ∨ parseDuration ieLen c = .error .eProto ∨
      ∃ v : UInt32, (c.t2lm.expectedDuration.toNat < 2 ^ 24 → v.toNat < 2 ^ 24) ∧
        parseDuration ieLen c =
          .ok ⟨{ c.t2lm with expectedDuration := v }, c.ptr.drop 3, c.parsed + 3⟩ := by
  have hv : c.t2lm.expectedDuration.toNat < 2 ^ 24 →
      (UInt32.ofNat (c.t2lm.expectedDuration.toNat / 2 ^ 24 * 2 ^ 24 +
        65536 * byteAt c.ptr 2 + 256 * byteAt c.ptr 1 + byteAt c.ptr 0)).toNat < 2 ^ 24 := by
    intro hc
    have h0 := byteAt_lt c.ptr 0
    have h1 := byteAt_lt c.ptr 1
    have h2 := byteAt_lt c.ptr 2
    rw [Nat.div_eq_of_lt hc, UInt32.toNat_ofNat_of_lt' (by simp only [UInt32.size]; omega)]
    omega
  unfold parseDuration
  dsimp only
  revert hv
  generalize UInt32.ofNat (c.t2lm.expectedDuration.toNat / 2 ^ 24 * 2 ^ 24 +
    65536 * byteAt c.ptr 2 + 256 * byteAt c.ptr 1 + byteAt c.ptr 0) = v
  intro hv
  by_cases hp : c.t2lm.expectedDurationPresent = true
  · rw [if_pos hp]
    by_cases hl : ieLen < c.parsed + WLAN_T2LM_EXPECTED_DURATION_SIZE
    · exact .inr (.inl (if_pos hl))
    · exact .inr (.inr ⟨v, hv, if_neg hl⟩)
  · exact .inl (if_neg hp)

theorem parseDuration_flags {r : Cursor} (h : parseDuration ieLen c = .ok r) :
    c.t2lm.SameFlags r.t2lm ∧
      (c.t2lm.expectedDuration.toNat < 2 ^ 24 → r.t2lm.expectedDuration.toNat < 2 ^ 24) := by
  rcases parseDuration_cases ieLen c with hc | hc | ⟨v, hv, hc⟩
  · cases hc.symm.trans h
    exact ⟨⟨rfl, rfl, rfl⟩, id⟩
  · cases hc.symm.trans h
  · cases hc.symm.trans h
    exact ⟨⟨rfl, rfl, rfl⟩, hv⟩

theorem parseTids_flags {presenceInd : ℕ} {tids : List (Fin 8)} {c r : Cursor}
    (h : parseTids ieLen presenceInd tids c = .ok r) :
    c.t2lm.SameFlags r.t2lm ∧ r.t2lm.expectedDuration = c.t2lm.expectedDuration := by
  induction tids generalizing c with
  | nil =>
    cases h
    exact ⟨⟨rfl, rfl, rfl⟩, rfl⟩
  | cons tid tids ih =>
    unfold parseTids at h
    split at h
    · exact ih h
    · split at h
      · split at h
        · cases h
        · have hrest := ih h
          exact hrest
      · split at h
        · cases h
        · have hrest := ih h
          exact hrest

/-- The presence indicator of an element. -/
def presenceOf (ie : List UInt8) : ℕ :=
  match parseControl (byteAt ie 1) (ie.drop 3) .unset with
  | .ok (_, p) => p
  | .error _ => 0

/-- The info of an element, decoded on its own. -/
def decode (ie : List UInt8) : Except QdfStatus T2lmInfo := parseT2lmInfo ie .unset

/-- **Reading over an old info** is decoding the element on its own, and keeping of the old one
    what the element does not carry. -/
theorem parseT2lmInfo_over (ie : List UInt8) (ht : t.expectedDuration.toNat < 2 ^ 24) :
    parseT2lmInfo ie t = (decode ie).map fun d =>
      d.over d.mappingSwitchTimePresent d.expectedDurationPresent
        (fun tid => (presenceOf ie).testBit tid) t := by
  unfold decode parseT2lmInfo presenceOf
  generalize byteAt ie 1 = ieLen
  by_cases hmin : ieLen < WLAN_T2LM_CTRL_SIZE
  · simp only [if_pos hmin]
    rfl
  simp only [if_neg hmin]
  rw [parseControl_over]
  cases hc : parseControl ieLen (ie.drop 3) .unset with
  | error s => rfl
  | ok r =>
    obtain ⟨c, p⟩ := r
    obtain ⟨hdur, hp⟩ := parseControl_spec hc
    change (parseSwitchTime ieLen (c.over false false (fun _ => false) t) >>= _) =
      (parseSwitchTime ieLen c >>= _).map _
    rw [parseSwitchTime_over]
    cases hs : parseSwitchTime ieLen c with
    | error s => rfl
    | ok c₁ =>
      obtain ⟨⟨f₁, -, e₁⟩, hdur₁⟩ := parseSwitchTime_flags hs
      change (parseDuration ieLen (c₁.over c.t2lm.mappingSwitchTimePresent false
        (fun _ => false) t) >>= _) = (parseDuration ieLen c₁ >>= _).map _
      rw [parseDuration_over _ _ _ _ _ (by rw [hdur₁, hdur]; exact Nat.two_pow_pos 24) ht]
      cases hd : parseDuration ieLen c₁ with
      | error s => rfl
      | ok c₂ =>
        obtain ⟨⟨f₂, g₂, e₂⟩, -⟩ := parseDuration_flags hd
        have hlast : ∀ (c : Cursor) (hasTime hasDuration : Bool) (carried : Fin 8 → Bool),
            hasTime = c.t2lm.mappingSwitchTimePresent →
            hasDuration = c.t2lm.expectedDurationPresent →
            carried = (fun tid : Fin 8 => p.testBit tid) →
            (if ieLen > c.parsed then Except.error QdfStatus.eProto
              else .ok (c.t2lm.over hasTime hasDuration carried t)) =
            (if ieLen > c.parsed then .error .eProto else .ok c.t2lm : Except _ _).map fun d =>
              d.over d.mappingSwitchTimePresent d.expectedDurationPresent
                (fun tid => p.testBit tid) t := by
          rintro c _ _ _ rfl rfl rfl
          split <;> rfl
        change (if c₂.t2lm.defaultLinkMapping = true then
            (if ieLen > c₂.parsed then Except.error QdfStatus.eProto else _) else _) =
          (if c₂.t2lm.defaultLinkMapping = true then
            (if ieLen > c₂.parsed then Except.error QdfStatus.eProto else _)
            else parseTids ieLen p (List.finRange 8) c₂ >>= _).map _
        by_cases hdef : c₂.t2lm.defaultLinkMapping = true
        · rw [if_pos hdef, if_pos hdef]
          refine hlast c₂ _ _ _ (f₁.trans f₂) g₂ ?_
          rw [hp (e₁.trans (e₂.trans hdef))]
          funext tid
          exact (Nat.zero_testBit _).symm
        · rw [if_neg hdef, if_neg hdef, parseTids_over]
          cases htids : parseTids ieLen p (List.finRange 8) c₂ with
          | error s => rfl
          | ok c₃ =>
            obtain ⟨⟨f₃, g₃, e₃⟩, -⟩ := parseTids_flags htids
            refine hlast c₃ _ _ _ ((f₁.trans f₂).trans f₃) (g₂.trans g₃) ?_
            funext tid
            simp [carriedWith]

/-- The stages of a successful read. -/
theorem parseT2lmInfo_stages {d : T2lmInfo} (h : parseT2lmInfo ie t = .ok d) :
    ∃ ieLen c p c₁ c₂, parseControl ieLen (ie.drop 3) t = .ok (c, p) ∧
      parseSwitchTime ieLen c = .ok c₁ ∧ parseDuration ieLen c₁ = .ok c₂ ∧
      (d = c₂.t2lm ∨ ∃ c₃, parseTids ieLen p (List.finRange 8) c₂ = .ok c₃ ∧ d = c₃.t2lm) := by
  unfold parseT2lmInfo at h
  generalize byteAt ie 1 = ieLen at h
  by_cases hmin : ieLen < WLAN_T2LM_CTRL_SIZE
  · simp only [if_pos hmin] at h
    cases h
  simp only [if_neg hmin] at h
  cases hc : parseControl ieLen (ie.drop 3) t with
  | error s =>
    rw [hc] at h
    cases h
  | ok r =>
    obtain ⟨c, p⟩ := r
    rw [hc] at h
    change (parseSwitchTime ieLen c >>= _) = _ at h
    cases hs : parseSwitchTime ieLen c with
    | error s =>
      rw [hs] at h
      cases h
    | ok c₁ =>
      rw [hs] at h
      change (parseDuration ieLen c₁ >>= _) = _ at h
      cases hd : parseDuration ieLen c₁ with
      | error s =>
        rw [hd] at h
        cases h
      | ok c₂ =>
        rw [hd] at h
        have hlast : ∀ c : Cursor, (if ieLen > c.parsed then Except.error QdfStatus.eProto
            else .ok c.t2lm) = .ok d → d = c.t2lm := by
          intro c hc
          split at hc
          · cases hc
          · exact (Except.ok.inj hc).symm
        refine ⟨ieLen, c, p, c₁, c₂, hc, hs, hd, ?_⟩
        change (if c₂.t2lm.defaultLinkMapping = true then _ else
          parseTids ieLen p (List.finRange 8) c₂ >>= _) = _ at h
        by_cases hdef : c₂.t2lm.defaultLinkMapping = true
        · rw [if_pos hdef] at h
          exact .inl (hlast c₂ h)
        · rw [if_neg hdef] at h
          cases htids : parseTids ieLen p (List.finRange 8) c₂ with
          | error s =>
            rw [htids] at h
            cases h
          | ok c₃ =>
            rw [htids] at h
            exact .inr ⟨c₃, rfl, hlast c₃ h⟩

/-- A duration has three bytes. -/
theorem decode_duration {d : T2lmInfo} (h : decode ie = .ok d) :
    d.expectedDuration.toNat < 2 ^ 24 := by
  obtain ⟨ieLen, c, p, c₁, c₂, hc, hs, hd, hlast⟩ := parseT2lmInfo_stages h
  have h₂ : c₂.t2lm.expectedDuration.toNat < 2 ^ 24 := by
    refine (parseDuration_flags hd).2 ?_
    rw [(parseSwitchTime_flags hs).2, (parseControl_spec hc).1]
    exact Nat.two_pow_pos 24
  rcases hlast with rfl | ⟨c₃, htids, rfl⟩
  · exact h₂
  · rwa [(parseTids_flags htids).2]

/-! ## Sequences of elements -/

/-- A T2LM element, by the bytes behind its extension id. -/
structure Element where
  body : List UInt8
  len_lt : body.length + 1 < 256

def Element.bytes (e : Element) : List UInt8 :=
  WLAN_ELEMID_EXTN_ELEM :: UInt8.ofNat (e.body.length + 1) :: WLAN_EXTN_ELEMID_T2LM :: e.body

theorem Element.byteAt_bytes (e : Element) (tl : List UInt8) :
    byteAt (e.bytes ++ tl) 1 = e.body.length + 1 := UInt8.toNat_ofNat_of_lt' e.len_lt

theorem Element.length_bytes (e : Element) : e.bytes.length = e.body.length + 3 := rfl

/-- The frame with the elements. -/
def frameOf (es : List Element) : List UInt8 := es.flatMap Element.bytes

/-- What is to be stored: each element decoded on its own, up to one that is not valid. -/
def storeOwn : List Element → T2lmCtx → T2lmCtx
  | [], ctx => ctx
  | e :: es, ctx =>
    match decode e.bytes with
    | .error _ => ctx
    | .ok t => storeOwn es (ctx.store t)

theorem storeOwn_cons (e : Element) (es : List Element) (ctx : T2lmCtx) :
    storeOwn (e :: es) ctx =
      match decode e.bytes with
      | .error _ => ctx
      | .ok t => storeOwn es (ctx.store t) := rfl

/-- One round on an element. -/
theorem bcnLoop_element (e : Element) (hlen : frameLen = parsed + (e.bytes ++ tl).length) :
    bcnLoop frameLen (rounds + 1) t2lm ctx (e.bytes ++ tl) parsed =
      match parseT2lmInfo e.bytes { t2lm with direction := .invalid } with
      | .error s => (.error (.status s), ctx)
      | .ok t => bcnLoop frameLen rounds t (ctx.store t) tl (parsed + e.bytes.length) := by
  have hl := e.length_bytes
  rw [List.length_append, hl] at hlen
  have hbyte : Bounded.fetch (e.bytes ++ tl) 1 = .ok (e.body.length + 1) := by
    rw [Bounded.fetch_append (by omega)]
    exact congrArg Except.ok (List.append_nil e.bytes ▸ e.byteAt_bytes [])
  have hin : byteAt e.bytes 1 + 2 ≤ e.bytes.length := by
    have := e.byteAt_bytes []
    rw [List.append_nil] at this
    rw [this, hl]
  rw [bcnLoop, if_neg (by omega), if_neg (by omega), if_neg (by omega), hbyte]
  change (if _ ∧ _ then _ else _) = _
  rw [if_pos ⟨rfl, rfl⟩, if_neg (by omega), Bounded.parseT2lmInfo_eq (by omega) hin]
  cases parseT2lmInfo e.bytes { t2lm with direction := .invalid } with
  | error s => rfl
  | ok t =>
    have hdrop : (e.bytes ++ tl).drop (e.body.length + 1 + 2) = tl := List.drop_left' hl
    change bcnLoop frameLen rounds t (ctx.store t) ((e.bytes ++ tl).drop _) _ = _
    rw [hdrop]
    rfl

/-- At the end of the frame. -/
theorem bcnLoop_end (h0 : 0 < frameLen) :
    bcnLoop frameLen rounds t2lm ctx ie frameLen = (.ok (), ctx) := by
  cases rounds with
  | zero => rfl
  | succ rounds => rw [bcnLoop, if_neg h0.ne', if_pos rfl]

/-- The first info over which the second element is read leaves nothing in its place: what it
    has of a field or a mapping that the second element lacks is zero. -/
def LeavesNothing (t : T2lmInfo) (e : Element) (d : T2lmInfo) : Prop :=
  (d.mappingSwitchTimePresent = false → t.mappingSwitchTime = 0) ∧
    (d.expectedDurationPresent = false → t.expectedDuration = 0) ∧
    ∀ tid : Fin 8, (presenceOf e.bytes).testBit tid = false → t.ieeeLinkMapTid tid = 0

/-- The second element read over the first info. -/
def T2lmInfo.overFirst (d : T2lmInfo) (e : Element) (t : T2lmInfo) : T2lmInfo :=
  d.over d.mappingSwitchTimePresent d.expectedDurationPresent
    (fun tid => (presenceOf e.bytes).testBit tid) t

theorem decode_overFirst {e : Element} {d : T2lmInfo} (h : decode e.bytes = .ok d) :
    d.overFirst e .unset = d := by
  have ho := parseT2lmInfo_over (t := .unset) e.bytes (Nat.two_pow_pos 24)
  rw [show parseT2lmInfo e.bytes .unset = .ok d from h, h] at ho
  exact (Except.ok.inj ho).symm

theorem overFirst_eq_iff {e : Element} {d t : T2lmInfo} (h : decode e.bytes = .ok d)
    (hhw : t.hwLinkMapTid = fun _ => 0) : d.overFirst e t = d ↔ LeavesNothing t e d := by
  conv_lhs => rhs; rw [← decode_overFirst h]
  simp only [T2lmInfo.overFirst, T2lmInfo.over, T2lmInfo.mk.injEq, true_and, and_true, hhw]
  unfold LeavesNothing
  constructor
  · rintro ⟨h₁, h₂, h₃, -⟩
    refine ⟨fun hf => ?_, fun hf => ?_, fun tid hf => ?_⟩
    · rwa [if_neg (by rw [hf]; decide), if_neg (by rw [hf]; decide)] at h₁
    · rwa [if_neg (by rw [hf]; decide), if_neg (by rw [hf]; decide)] at h₂
    · have := congrFun h₃ tid
      rwa [if_neg (by rw [hf]; decide), if_neg (by rw [hf]; decide)] at this
  · rintro ⟨h₁, h₂, h₃⟩
    refine ⟨?_, ?_, ?_, rfl⟩
    · split
      · rfl
      · next hf => exact h₁ (by simpa using hf)
    · split
      · rfl
      · next hf => exact h₂ (by simpa using hf)
    · funext tid
      split
      · rfl
      · next hf => exact h₃ tid (by simpa using hf)

/-- The info is kept as one of the two mappings. -/
def T2lmInfo.Stored (d : T2lmInfo) : Prop :=
  d.mappingSwitchTimePresent = true ∨ d.expectedDurationPresent = true

theorem store_overFirst_iff {e : Element} {d t : T2lmInfo} :
    ctx.store (d.overFirst e t) = ctx.store d ↔ (d.Stored → d.overFirst e t = d) := by
  have hm : (d.overFirst e t).mappingSwitchTimePresent = d.mappingSwitchTimePresent := rfl
  have hx : (d.overFirst e t).expectedDurationPresent = d.expectedDurationPresent := rfl
  unfold T2lmCtx.store T2lmInfo.Stored
  rw [hm, hx]
  cases d.mappingSwitchTimePresent with
  | true => simp
  | false =>
    cases d.expectedDurationPresent with
    | true => simp
    | false => simp

/-- Of the first two elements the second is not stored, or the first leaves nothing behind in
    what it lacks. -/
def Clean : List Element → Prop
  | e₁ :: e₂ :: _ => ∀ t₁ t₂, decode e₁.bytes = .ok t₁ → decode e₂.bytes = .ok t₂ →
    t₂.Stored → LeavesNothing t₁ e₂ t₂
  | _ => True

theorem decode_hw {e : Element} {d : T2lmInfo} (h : decode e.bytes = .ok d) :
    d.hwLinkMapTid = fun _ => 0 := (congrArg T2lmInfo.hwLinkMapTid (decode_overFirst h)).symm

/-- The two rounds, the second over the info of the first. -/
theorem parseBcn_two (e₁ e₂ : Element) (es : List Element) :
    (parseBcnPrbrespT2lmIe (some (frameOf (e₁ :: e₂ :: es)))
      (frameOf (e₁ :: e₂ :: es)).length).2 =
      match decode e₁.bytes with
      | .error _ => .reset
      | .ok t₁ =>
        match decode e₂.bytes with
        | .error _ => T2lmCtx.reset.store t₁
        | .ok t₂ => (T2lmCtx.reset.store t₁).store (t₂.overFirst e₂ t₁) := by
  have hframe : frameOf (e₁ :: e₂ :: es) = e₁.bytes ++ (e₂.bytes ++ frameOf es) := by
    rw [frameOf, List.flatMap_cons, List.flatMap_cons]
    rfl
  rw [parseBcnPrbrespT2lmIe, hframe, WLAN_MAX_T2LM_IE, bcnLoop_element e₁ (by omega)]
  change (match decode e₁.bytes with | .error s => _ | .ok t => _ : _ × T2lmCtx).2 = _
  cases h₁ : decode e₁.bytes with
  | error s => rfl
  | ok t₁ =>
    have hdur := decode_duration h₁
    dsimp only
    rw [bcnLoop_element e₂ (by simp only [List.length_append]; omega),
      parseT2lmInfo_over (t := { t₁ with direction := .invalid }) e₂.bytes hdur]
    cases decode e₂.bytes with
    | error s => rfl
    | ok t₂ => rfl

theorem bcn_own_iff (es : List Element) :
    (parseBcnPrbrespT2lmIe (some (frameOf es)) (frameOf es).length).2 =
      storeOwn (es.take WLAN_MAX_T2LM_IE) .reset ↔ Clean es := by
  match es with
  | [] => exact iff_of_true rfl trivial
  | [e] =>
    refine iff_of_true ?_ trivial
    have hframe : frameOf [e] = e.bytes ++ [] := by
      rw [frameOf, List.flatMap_cons, List.flatMap_nil]
    rw [parseBcnPrbrespT2lmIe, hframe, WLAN_MAX_T2LM_IE, bcnLoop_element e (by omega)]
    change (match decode e.bytes with | .error s => _ | .ok t => _ : _ × T2lmCtx).2 =
      storeOwn [e] .reset
    rw [storeOwn_cons]
    cases decode e.bytes with
    | error s => rfl
    | ok t =>
      dsimp only
      rw [List.append_nil, Nat.zero_add, bcnLoop_end (show 0 < e.bytes.length from Nat.succ_pos _)]
      rfl
  | e₁ :: e₂ :: es =>
    rw [parseBcn_two]
    change _ = storeOwn [e₁, e₂] .reset ↔ _
    simp only [storeOwn, Clean]
    cases h₁ : decode e₁.bytes with
    | error s => exact iff_of_true rfl fun _ _ h => nomatch h
    | ok t₁ =>
      cases h₂ : decode e₂.bytes with
      | error s => exact iff_of_true rfl fun _ _ _ h => nomatch h
      | ok t₂ =>
        dsimp only
        rw [store_overFirst_iff, overFirst_eq_iff h₂ (decode_hw h₁)]
        constructor
        · rintro h _ _ he₁ he₂
          rwa [← Except.ok.inj he₁, ← Except.ok.inj he₂]
        · exact fun h => h t₁ t₂ rfl rfl

/-- Mappings decoded on their own are stored whatever the order of their elements. -/
theorem storeOwn_swap {e₁ e₂ : Element} {t₁ t₂ : T2lmInfo} (h₁ : decode e₁.bytes = .ok t₁)
    (h₂ : decode e₂.bytes = .ok t₂)
    (hkind : t₁.mappingSwitchTimePresent ≠ t₂.mappingSwitchTimePresent) :
    storeOwn [e₁, e₂] ctx = storeOwn [e₂, e₁] ctx := by
  simp only [storeOwn, h₁, h₂, T2lmCtx.store]
  cases hm₁ : t₁.mappingSwitchTimePresent with
  | true =>
    have hm₂ : t₂.mappingSwitchTimePresent = false := by
      rw [hm₁] at hkind
      simpa using hkind.symm
    cases t₂.expectedDurationPresent <;> simp [hm₂]
  | false =>
    have hm₂ : t₂.mappingSwitchTimePresent = true := by
      rw [hm₁] at hkind
      simpa using hkind.symm
    cases t₁.expectedDurationPresent <;> simp [hm₂]

/-- **The mappings of a beacon.**  Whatever T2LM elements there are, the two stored mappings are
    what their own elements say just if the first element leaves nothing behind that the second
    lacks; and no frame, of T2LM elements or not, is read past its end. -/
theorem beacon_own_iff (es : List Element) (frame : List UInt8) :
    ((parseBcnPrbrespT2lmIe (some (frameOf es)) (frameOf es).length).2 =
        storeOwn (es.take WLAN_MAX_T2LM_IE) .reset ↔ Clean es) ∧
      (parseBcnPrbrespT2lmIe (some frame) frame.length).1 ≠ .error .outside := by
  refine ⟨bcn_own_iff es, ?_⟩
  exact bcnLoop_inside (.inl (by omega))

/-- An upcoming mapping of TIDs 0 and 1. -/
def upcomingElement : Element := ⟨[0x2A, 3, 0x10, 0, 1, 2], by decide⟩

/-- An established mapping of TID 0 alone. -/
def establishedElement : Element := ⟨[0x32, 1, 5, 0, 0, 1], by decide⟩

/-- The established mapping takes over what the upcoming one says of TID 1. -/
theorem established_keeps_upcoming :
    ¬ ((parseBcnPrbrespT2lmIe (some (frameOf [upcomingElement, establishedElement]))
      (frameOf [upcomingElement, establishedElement]).length).2 =
        storeOwn ([upcomingElement, establishedElement].take WLAN_MAX_T2LM_IE) .reset) := by
  rw [bcn_own_iff]
  intro h
  obtain ⟨t₁, h₁, hmap⟩ : ∃ t₁, decode upcomingElement.bytes = .ok t₁ ∧
      t₁.ieeeLinkMapTid 1 = 2 := ⟨_, rfl, rfl⟩
  obtain ⟨t₂, h₂, hs⟩ : ∃ t₂, decode establishedElement.bytes = .ok t₂ ∧
      t₂.expectedDurationPresent = true := ⟨_, rfl, rfl⟩
  have h0 := (h t₁ t₂ h₁ h₂ (.inr hs)).2.2 1 (by decide)
  rw [hmap] at h0
  exact absurd h0 (by decide)

end Sm8850.Mlo.T2lm
