/-
  The fault policies: `process_cmdobj_fault` and what is left of it in the context.

  * `Drawctxt`: what the recovery reads and sets of a context.
  * `processCmdobjFault`: the first of the commands to be replayed has faulted; its policy
    says what is skipped.
  * `cmdobjSetFlags`: what a command gets of the flags of its context when it is queued.
  * `Phase`: how far a context is with the frame to be skipped.  `skipFrame` goes through the
    phases over the commands to be replayed and leaves the phase in the flags of the context.
  * **`frameSkipped_iff`**: when that is enough, whatever is queued later.  The commands that
    already wait in the queue of the context are passed over.
-/
import Sm8850.Kgsl.InflightSpec

namespace Sm8850.Kgsl.Inflight

/-! ## Policies -/

/-- What `dispatcher_do_fault` and the policies read and set of `struct adreno_context` and its
    `struct kgsl_context`. -/
structure Drawctxt where
  detached : Bool
  /-- `KGSL_CONTEXT_PRIV_PAGEFAULT` -/
  pagefault : Bool
  faultTime : ℕ
  faultCount : ℕ
  faultPolicy : Finset FtPolicy
  /-- `ADRENO_CONTEXT_SKIP_CMD` -/
  skipCmd : Bool
  /-- `ADRENO_CONTEXT_SKIP_EOF` -/
  skipEof : Bool
  /-- `ADRENO_CONTEXT_FORCE_PREAMBLE` -/
  forcePreamble : Bool
  /-- `KGSL_CONTEXT_CTX_SWITCH` -/
  ctxSwitch : Bool
  /-- `KGSL_CONTEXT_IFH_NOP` -/
  ifhNop : Bool

/-- The fault, the base of the IB1 at its time, the time in nanoseconds and the attributes. -/
structure Fault where
  fault : ℕ
  base : ℕ
  now : ℕ
  throttleTime : ℕ
  throttleBurst : ℕ

/-- `ADRENO_HARD_FAULT`. -/
def Fault.hard (e : Fault) : Bool := e.fault.testBit 1

/-- `ADRENO_TIMEOUT_FAULT` or `ADRENO_CTX_DETATCH_TIMEOUT_FAULT`. -/
def Fault.timeout (e : Fault) : Bool := e.fault.testBit 2 || e.fault.testBit 6

/-- The loop of `_skip_ib`. -/
def skipIbs (base : ℕ) : List Ib → List Ib
  | [] => []
  | ib :: cmdlist =>
    if ib.gpuaddr = base then
      { ib with skip := true } :: if base ≠ 0 then cmdlist else skipIbs base cmdlist
    else ib :: skipIbs base cmdlist

/-- `_skip_ib`. -/
def skipIb (base : ℕ) (c : Cmd) : Cmd := { c with cmdlist := skipIbs base c.cmdlist }

/-- The loop of `_skip_cmd` over the commands after the first, and whether it finds one. -/
def skipCmdNext (ctx : ℕ) (policy : Finset FtPolicy) : List Cmd → List Cmd × Bool
  | [] => ([], false)
  | c :: replay =>
    if c.ctx = ctx then
      ({ c with
          faultPolicy := policy
          forcePreamble := true
          faultRecovery := insert .skipcmd c.faultRecovery } :: replay, true)
    else
      let (replay, found) := skipCmdNext ctx policy replay
      (c :: replay, found)

/-- `_skip_cmd` of the first command. -/
def skipCmd (x : Drawctxt) (c : Cmd) (replay : List Cmd) : Drawctxt × List Cmd :=
  let (replay, found) := skipCmdNext c.ctx c.faultPolicy replay
  (if found then x else { x with skipCmd := true, faultPolicy := c.faultPolicy },
    { c with skip := true, faultRecovery := ∅ } :: replay)

/-- The loop of `_skip_frame`, and its `skip` at the end; `none` if it returns before. -/
def skipFrameFrom (ctx : ℕ) : Bool → List Cmd → List Cmd × Option Bool
  | skip, [] => ([], some skip)
  | skip, c :: replay =>
    if c.ctx ≠ ctx then
      let (replay, skip) := skipFrameFrom ctx skip replay
      (c :: replay, skip)
    else if skip then
      let (replay, skip) := skipFrameFrom ctx (!c.endOfFrame) replay
      ({ c with skip := true } :: replay, skip)
    else ({ c with forcePreamble := true } :: replay, none)

/-- `_skip_frame`. -/
def skipFrame (x : Drawctxt) (ctx : ℕ) (replay : List Cmd) : Drawctxt × List Cmd :=
  let (replay, skip) := skipFrameFrom ctx true replay
  ({ x with
      skipEof := x.skipEof || skip = some true
      forcePreamble := x.forcePreamble || skip = some false }, replay)

/-- The throttle of `process_cmdobj_fault`. -/
def throttle (e : Fault) (x : Drawctxt) (c : Cmd) : Drawctxt × Cmd :=
  if .throttle ∈ c.faultPolicy then
    if (e.now - x.faultTime) / 1000000 > e.throttleTime then
      ({ x with faultTime := e.now, faultCount := 1 }, c)
    else
      let faultCount := (x.faultCount + 1) % 2 ^ 32
      ({ x with faultCount },
        if faultCount > e.throttleBurst then
          { c with faultPolicy := insert .disable c.faultPolicy }
        else c)
  else (x, c)

/-- The policy that is left when the policies are tried. -/
def settlePolicy (e : Fault) (x : Drawctxt) (policy : Finset FtPolicy) : Finset FtPolicy :=
  let policy := if .disable ∈ policy ∨ .tempDisable ∈ policy then ∅ else policy
  let policy := if x.detached then ∅ else policy
  let policy := insert .skipPmdump policy
  let policy := if e.hard then policy.erase .replay else policy
  let policy := if e.timeout then ∅ else policy
  if x.pagefault then policy.erase .replay else policy

/-- `process_cmdobj_fault` of the context of the first command: the context, the commands,
    and whether the context is guilty. -/
def processCmdobjFault (e : Fault) (x : Drawctxt) (c : Cmd) (replay : List Cmd) :
    Drawctxt × List Cmd × Bool :=
  let (x, c) := throttle e x c
  let policy := settlePolicy e x c.faultPolicy
  let x := { x with pagefault := false }
  if .replay ∈ policy then
    (x, { c with
        faultPolicy := policy.erase .replay
        faultRecovery := insert .replay c.faultRecovery } :: replay, false)
  else if .skipib ∈ policy then
    let c := { c with
      faultPolicy := policy.erase .skipib
      faultRecovery := insert .skipib c.faultRecovery }
    (x, (c :: replay).map fun c' => if c'.ctx = c.ctx then skipIb (e.base % 2 ^ 32) c' else c',
      false)
  else if .skipcmd ∈ policy then
    let (x, replay) := skipCmd x { c with faultPolicy := policy.erase .skipcmd } replay
    (x, replay, false)
  else if .skipframe ∈ policy then
    let c := { c with
      faultPolicy := policy.erase .skipframe
      faultRecovery := insert .skipframe c.faultRecovery }
    let (x, replay) := skipFrame x c.ctx (c :: replay)
    (x, replay, false)
  else (x, { c with faultPolicy := policy } :: replay, true)

/-- `_cmdobj_set_flags`. -/
def cmdobjSetFlags (x : Drawctxt) (c : Cmd) : Drawctxt × Cmd :=
  ({ x with
      skipEof := x.skipEof && !c.endOfFrame
      forcePreamble := x.skipEof && c.endOfFrame },
    { c with
      forcePreamble := c.forcePreamble || x.forcePreamble || x.ctxSwitch || c.ctxSwitch
      skip := c.skip || x.ifhNop || x.skipEof })

/-- Commands that are queued one after the other. -/
def queueCmds (x : Drawctxt) : List Cmd → List Cmd
  | [] => []
  | c :: later => (cmdobjSetFlags x c).2 :: queueCmds (cmdobjSetFlags x c).1 later

/-- The policy that is tried is to skip the frame. -/
def SkipsFrame (e : Fault) (x : Drawctxt) (c : Cmd) : Prop :=
  let policy := settlePolicy e (throttle e x c).1 (throttle e x c).2.faultPolicy
  .replay ∉ policy ∧ .skipib ∉ policy ∧ .skipcmd ∉ policy ∧ .skipframe ∈ policy

instance (e : Fault) (x : Drawctxt) (c : Cmd) : Decidable (SkipsFrame e x c) := by
  unfold SkipsFrame
  infer_instance

/-! ## Marks only -/

theorem skipCmdNext_key (ctx : ℕ) (policy : Finset FtPolicy) (replay : List Cmd) :
    (skipCmdNext ctx policy replay).1.map Cmd.key = replay.map Cmd.key := by
  induction replay with
  | nil => rfl
  | cons c replay ih =>
    unfold skipCmdNext
    split
    · rfl
    · rw [List.map_cons, List.map_cons, ih]

theorem skipFrameFrom_key (ctx : ℕ) (skip : Bool) (replay : List Cmd) :
    (skipFrameFrom ctx skip replay).1.map Cmd.key = replay.map Cmd.key := by
  induction replay generalizing skip with
  | nil => rfl
  | cons c replay ih =>
    unfold skipFrameFrom
    split_ifs
    · rw [List.map_cons, List.map_cons, ih]
    · rw [List.map_cons, List.map_cons, ih]
      rfl
    · rfl

theorem map_skipIb_key (ctx base : ℕ) (replay : List Cmd) :
    (replay.map fun c => if c.ctx = ctx then skipIb base c else c).map Cmd.key =
      replay.map Cmd.key := by
  rw [List.map_map]
  refine List.map_congr_left fun c _ => ?_
  dsimp only [Function.comp]
  split <;> rfl

theorem throttle_key (e : Fault) (x : Drawctxt) (c : Cmd) : (throttle e x c).2.key = c.key := by
  unfold throttle
  dsimp only
  split_ifs <;> rfl

/-- **The policies change marks only.** -/
theorem processCmdobjFault_key (e : Fault) (x : Drawctxt) (c : Cmd) (replay : List Cmd) :
    (processCmdobjFault e x c replay).2.1.map Cmd.key = (c :: replay).map Cmd.key := by
  have hc := congrArg (· :: replay.map Cmd.key) (throttle_key e x c)
  unfold processCmdobjFault
  dsimp only
  split_ifs
  · exact hc
  · rw [map_skipIb_key]
    exact hc
  · unfold skipCmd
    dsimp only
    rw [List.map_cons, skipCmdNext_key]
    exact hc
  · unfold skipFrame
    dsimp only
    rw [skipFrameFrom_key]
    exact hc
  · exact hc

/-! ## Frames -/

/-- How far a context is: it skips, the next command gets the preamble, or it is through. -/
inductive Phase where
  | seek | preamble | done
  deriving DecidableEq

namespace Phase

def next : Phase → Cmd → Phase
  | seek, c => if c.endOfFrame then preamble else seek
  | _, _ => done

/-- The phase after some commands. -/
def after (p : Phase) (l : List Cmd) : Phase := l.foldl next p

/-- What becomes of a command is right in the phase. -/
def Right : Phase → Cmd → Cmd → Prop
  | seek, _, c' => c'.skip = true
  | preamble, c, c' => c'.skip = c.skip ∧ c'.forcePreamble = true
  | done, c, c' => c'.skip = c.skip

/-- What becomes of some commands is right from the phase on. -/
def RightFrom : Phase → List Cmd → List Cmd → Prop
  | _, [], [] => True
  | p, c :: before, c' :: now => p.Right c c' ∧ (p.next c).RightFrom before now
  | _, _, _ => False

end Phase

/-- The command at the place is one of the frame: no end of frame comes before it. -/
def InFrame (l : List Cmd) (i : ℕ) : Prop := ∀ c ∈ l.take i, c.endOfFrame = false

/-- **The frame is skipped**, in the commands of a context and what becomes of them: those up to
    the first end of frame are skipped, no other is on that account, and the first after it
    carries the preamble. -/
structure FrameSkipped (before now : List Cmd) : Prop where
  length : now.length = before.length
  skip : ∀ i c c', before[i]? = some c → now[i]? = some c' →
    (c'.skip = true ↔ c.skip = true ∨ InFrame before i)
  preamble : ∀ i c c', before[i]? = some c → c.endOfFrame = true → InFrame before i →
    now[i + 1]? = some c' → c'.forcePreamble = true

namespace Phase

theorem after_append (p : Phase) (l l' : List Cmd) : p.after (l ++ l') = (p.after l).after l' :=
  List.foldl_append

theorem next_eq_seek {p : Phase} {c : Cmd} :
    p.next c = seek ↔ p = seek ∧ c.endOfFrame = false := by
  cases p <;> cases h : c.endOfFrame <;> simp [next, h]

theorem next_eq_preamble {p : Phase} {c : Cmd} :
    p.next c = preamble ↔ p = seek ∧ c.endOfFrame = true := by
  cases p <;> cases h : c.endOfFrame <;> simp [next, h]

theorem after_eq_seek {l : List Cmd} :
    seek.after l = seek ↔ ∀ c ∈ l, c.endOfFrame = false := by
  induction l using List.reverseRecOn with
  | nil => simp [after]
  | append_singleton l c ih =>
    rw [after_append]
    change (seek.after l).next c = seek ↔ _
    rw [next_eq_seek, ih]
    simp [or_imp, forall_and]

theorem after_take_succ {l : List Cmd} {i : ℕ} {c : Cmd} (hc : l[i]? = some c) (p : Phase) :
    p.after (l.take (i + 1)) = (p.after (l.take i)).next c := by
  rw [List.take_add_one, hc, after_append]
  rfl

/-- The command after the first end of frame. -/
theorem after_eq_preamble {l : List Cmd} {i : ℕ} (hi : i ≤ l.length)
    (h : seek.after (l.take i) = preamble) :
    ∃ j c, i = j + 1 ∧ l[j]? = some c ∧ c.endOfFrame = true ∧ InFrame l j := by
  cases i with
  | zero =>
    rw [List.take_zero] at h
    cases h
  | succ j =>
    have hc := List.getElem?_eq_getElem hi
    rw [after_take_succ hc, next_eq_preamble] at h
    exact ⟨j, l[j], rfl, hc, h.2, after_eq_seek.mp h.1⟩

theorem rightFrom_iff {p : Phase} {before now : List Cmd} :
    p.RightFrom before now ↔ now.length = before.length ∧
      ∀ i c c', before[i]? = some c → now[i]? = some c' →
        (p.after (before.take i)).Right c c' := by
  induction before generalizing p now with
  | nil =>
    cases now with
    | nil => simp [RightFrom]
    | cons c' now => simp [RightFrom]
  | cons c before ih =>
    cases now with
    | nil => simp [RightFrom]
    | cons c' now =>
      unfold RightFrom
      rw [ih]
      constructor
      · rintro ⟨hc, hlength, hrest⟩
        refine ⟨congrArg (· + 1) hlength, fun i x x' hx hx' => ?_⟩
        cases i with
        | zero =>
          cases hx
          cases hx'
          exact hc
        | succ i => exact hrest i x x' hx hx'
      · rintro ⟨hlength, hall⟩
        exact ⟨hall 0 c c' rfl rfl, Nat.succ.inj hlength,
          fun i x x' hx hx' => hall (i + 1) x x' hx hx'⟩

end Phase

/-- A frame is skipped as its phases say. -/
theorem frameSkipped_iff_rightFrom {before now : List Cmd} :
    FrameSkipped before now ↔ Phase.seek.RightFrom before now := by
  rw [Phase.rightFrom_iff]
  constructor
  · intro h
    refine ⟨h.length, fun i c c' hc hc' => ?_⟩
    have hskip := h.skip i c c' hc hc'
    cases hp : Phase.seek.after (before.take i) with
    | seek => exact hskip.mpr (.inr (Phase.after_eq_seek.mp hp))
    | preamble =>
      obtain ⟨j, e, rfl, he, heof, hframe⟩ :=
        Phase.after_eq_preamble (List.getElem?_eq_some_iff.mp hc).1.le hp
      have hnot : ¬ InFrame before (j + 1) := by
        intro hin
        rw [Phase.after_eq_seek.mpr hin] at hp
        cases hp
      refine ⟨?_, h.preamble j e c' he heof hframe hc'⟩
      rw [Bool.eq_iff_iff, hskip, or_iff_left hnot]
    | done =>
      have hnot : ¬ InFrame before i := by
        intro hin
        rw [Phase.after_eq_seek.mpr hin] at hp
        cases hp
      change c'.skip = c.skip
      rw [Bool.eq_iff_iff, hskip, or_iff_left hnot]
  · rintro ⟨hlength, hright⟩
    refine ⟨hlength, fun i c c' hc hc' => ?_, fun i c c' hc heof hframe hc' => ?_⟩
    · have hr := hright i c c' hc hc'
      by_cases hin : InFrame before i
      · rw [Phase.after_eq_seek.mpr hin] at hr
        exact iff_of_true hr (.inr hin)
      · rw [or_iff_left hin, ← Bool.eq_iff_iff]
        cases hp : Phase.seek.after (before.take i) with
        | seek => exact absurd (Phase.after_eq_seek.mp hp) hin
        | preamble =>
          rw [hp] at hr
          exact hr.1
        | done =>
          rw [hp] at hr
          exact hr
    · have hlt : i + 1 < before.length := by
        rw [← hlength]
        exact (List.getElem?_eq_some_iff.mp hc').1
      have hr := hright (i + 1) _ c' (List.getElem?_eq_getElem hlt) hc'
      have hp : Phase.seek.after (before.take (i + 1)) = .preamble := by
        rw [Phase.after_take_succ hc, Phase.next_eq_preamble]
        exact ⟨Phase.after_eq_seek.mpr hframe, heof⟩
      rw [hp] at hr
      exact hr.2

/-! ## The commands of the context -/

/-- The commands of the context. -/
def ofCtx (ctx : ℕ) (l : List Cmd) : List Cmd := l.filter (·.ctx = ctx)

namespace Phase

theorem rightFrom_append {p : Phase} {before now before' now' : List Cmd}
    (hlength : now.length = before.length) :
    p.RightFrom (before ++ before') (now ++ now') ↔
      p.RightFrom before now ∧ (p.after before).RightFrom before' now' := by
  induction before generalizing p now with
  | nil =>
    obtain rfl := List.length_eq_zero_iff.mp hlength
    simp [RightFrom, after]
  | cons c before ih =>
    cases now with
    | nil => cases hlength
    | cons c' now =>
      rw [List.cons_append, List.cons_append, RightFrom, RightFrom, ih (Nat.succ.inj hlength),
        and_assoc]
      rfl

theorem after_done (l : List Cmd) : done.after l = done := by
  induction l with
  | nil => rfl
  | cons c l ih => exact ih

theorem rightFrom_done (l : List Cmd) : done.RightFrom l l := by
  induction l with
  | nil => trivial
  | cons c l ih => exact ⟨rfl, ih⟩

/-- The phase of `skip` in `_skip_frame`. -/
def ofSkip (skip : Bool) : Phase := if skip then seek else preamble

/-- `skip` at the end of the loop. -/
def toSkip : Phase → Option Bool
  | seek => some true
  | preamble => some false
  | done => none

end Phase

/-- **The loop of `_skip_frame` goes through the phases.** -/
theorem skipFrameFrom_right (ctx : ℕ) (skip : Bool) (replay : List Cmd) :
    (Phase.ofSkip skip).RightFrom (ofCtx ctx replay)
        (ofCtx ctx (skipFrameFrom ctx skip replay).1) ∧
      (skipFrameFrom ctx skip replay).2 =
        ((Phase.ofSkip skip).after (ofCtx ctx replay)).toSkip := by
  induction replay generalizing skip with
  | nil => cases skip <;> exact ⟨trivial, rfl⟩
  | cons c replay ih =>
    unfold skipFrameFrom
    by_cases hctx : c.ctx = ctx
    · rw [if_neg (not_not.mpr hctx)]
      have hown (c' : Cmd) (hc' : c'.ctx = ctx) (l : List Cmd) :
          ofCtx ctx (c' :: l) = c' :: ofCtx ctx l :=
        List.filter_cons_of_pos (by simpa using hc')
      cases skip with
      | true =>
        obtain ⟨hright, hflag⟩ := ih (!c.endOfFrame)
        have hnext : Phase.ofSkip (!c.endOfFrame) = Phase.seek.next c := by
          cases h : c.endOfFrame <;> simp [Phase.ofSkip, Phase.next, h]
        rw [hnext] at hright hflag
        rw [if_pos rfl, hown c hctx]
        dsimp only
        rw [hown { c with skip := true } hctx]
        exact ⟨⟨rfl, hright⟩, hflag⟩
      | false =>
        rw [if_neg Bool.false_ne_true, hown c hctx]
        dsimp only
        rw [hown { c with forcePreamble := true } hctx]
        refine ⟨⟨⟨rfl, rfl⟩, Phase.rightFrom_done _⟩, ?_⟩
        exact (congrArg Phase.toSkip (Phase.after_done _)).symm
    · have hother (l : List Cmd) : ofCtx ctx (c :: l) = ofCtx ctx l :=
        List.filter_cons_of_neg (by simpa using hctx)
      rw [if_pos hctx, hother, hother]
      exact ih skip

/-- The flags of the context lead what is queued through the phases, where they would have led
    it as before. -/
def Phase.Leads (x x' : Drawctxt) : Phase → Prop
  | .seek => x'.skipEof = true
  | .preamble => (x'.skipEof = x.skipEof ∨ x.ifhNop = true) ∧
      (x'.forcePreamble = true ∨ x.ctxSwitch = true)
  | .done => x'.skipEof = x.skipEof ∨ x.ifhNop = true

section Queue

variable {x x' : Drawctxt}

theorem Phase.Leads.setFlags {p : Phase} (hleads : p.Leads x x') (hifh : x'.ifhNop = x.ifhNop)
    (hswitch : x'.ctxSwitch = x.ctxSwitch) (c : Cmd) :
    p.Right (cmdobjSetFlags x c).2 (cmdobjSetFlags x' c).2 ∧
      (p.next (cmdobjSetFlags x c).2).Leads (cmdobjSetFlags x c).1 (cmdobjSetFlags x' c).1 := by
  have hskip (h : x'.skipEof = x.skipEof ∨ x.ifhNop = true) :
      (cmdobjSetFlags x' c).2.skip = (cmdobjSetFlags x c).2.skip ∧
        Phase.done.Leads (cmdobjSetFlags x c).1 (cmdobjSetFlags x' c).1 := by
    unfold cmdobjSetFlags Phase.Leads
    rcases h with h | h
    · simp [h, hifh]
    · simp [h, hifh]
  cases p with
  | seek =>
    have hseek : x'.skipEof = true := hleads
    refine ⟨?_, ?_⟩
    · change (cmdobjSetFlags x' c).2.skip = true
      simp [cmdobjSetFlags, hseek]
    · cases heof : c.endOfFrame <;> simp [cmdobjSetFlags, Phase.next, Phase.Leads, heof, hseek]
  | preamble =>
    obtain ⟨h, hpreamble⟩ := hleads
    obtain ⟨hs, hnext⟩ := hskip h
    refine ⟨⟨hs, ?_⟩, hnext⟩
    rcases hpreamble with hp | hp
    · simp [cmdobjSetFlags, hp]
    · simp [cmdobjSetFlags, hswitch, hp]
  | done => exact hskip hleads

theorem Phase.Leads.queueCmds {p : Phase} (hleads : p.Leads x x') (hifh : x'.ifhNop = x.ifhNop)
    (hswitch : x'.ctxSwitch = x.ctxSwitch) (later : List Cmd) :
    p.RightFrom (queueCmds x later) (queueCmds x' later) := by
  induction later generalizing p x x' with
  | nil => trivial
  | cons c later ih =>
    obtain ⟨hright, hnext⟩ := hleads.setFlags hifh hswitch c
    exact ⟨hright, ih hnext hifh hswitch⟩

/-- A command without flags or marks. -/
def plainCmd : Cmd := ⟨0, 0, 0, false, false, false, false, false, ∅, ∅, []⟩

/-- A single command tells whether the flags lead on. -/
theorem Phase.leads_of_plainCmd {p : Phase} (hp : p ≠ .seek) (hifh : x'.ifhNop = x.ifhNop)
    (hswitch : x'.ctxSwitch = x.ctxSwitch)
    (h : p.RightFrom (queueCmds x [plainCmd]) (queueCmds x' [plainCmd])) : p.Leads x x' := by
  have hright : p.Right (cmdobjSetFlags x plainCmd).2 (cmdobjSetFlags x' plainCmd).2 := h.1
  have hskip (hs : (cmdobjSetFlags x' plainCmd).2.skip = (cmdobjSetFlags x plainCmd).2.skip) :
      x'.skipEof = x.skipEof ∨ x.ifhNop = true := by
    simp only [cmdobjSetFlags, plainCmd, Bool.false_or, hifh] at hs
    cases hx : x.ifhNop
    · rw [hx, Bool.false_or, Bool.false_or] at hs
      exact .inl hs
    · exact .inr rfl
  cases p with
  | seek => exact absurd rfl hp
  | preamble =>
    refine ⟨hskip hright.1, ?_⟩
    have hpreamble := hright.2
    simpa [cmdobjSetFlags, plainCmd, hswitch] using hpreamble
  | done => exact hskip hright

end Queue

/-- **The commands that wait in the queue of the context** need no more than they have: they
    carry the marks already that the rest of the frame takes, and the flags of the context are
    right after them. -/
structure Settled (x : Drawctxt) (p : Phase) (waiting : List Cmd) : Prop where
  marked : p.RightFrom waiting waiting
  skip : p = .seek → p.after waiting ≠ .seek → x.skipEof = true ∨ x.ifhNop = true
  preamble : p.after waiting = .preamble →
    p = .preamble ∨ x.forcePreamble = true ∨ x.ctxSwitch = true

theorem settled_nil (x : Drawctxt) (p : Phase) : Settled x p [] :=
  ⟨by cases p <;> trivial, fun hp hne => absurd hp hne, fun hp => .inl hp⟩

theorem settled_done (x : Drawctxt) (waiting : List Cmd) : Settled x .done waiting where
  marked := Phase.rightFrom_done waiting
  skip := nofun
  preamble hp := by
    rw [Phase.after_done] at hp
    cases hp

/-- Where no command that waits is skipped already. -/
theorem settled_iff_of_unskipped {x : Drawctxt} {p : Phase} {waiting : List Cmd}
    (h : ∀ c ∈ waiting, c.skip = false) : Settled x p waiting ↔
      waiting = [] ∨ p = .done ∨
        p = .preamble ∧ ∀ c, waiting.head? = some c → c.forcePreamble = true := by
  cases waiting with
  | nil => exact iff_of_true (settled_nil x p) (.inl rfl)
  | cons c waiting =>
    rw [or_iff_right (List.cons_ne_nil c waiting)]
    cases p with
    | seek =>
      have hnot : ¬ Settled x .seek (c :: waiting) := by
        intro hs
        have hskip : c.skip = true := hs.marked.1
        rw [h c List.mem_cons_self] at hskip
        cases hskip
      simp [hnot]
    | preamble =>
      have hdone : Phase.preamble.after (c :: waiting) = .done := Phase.after_done waiting
      constructor
      · intro hs
        have hpreamble : c.forcePreamble = true := hs.marked.1.2
        simpa using hpreamble
      · intro hs
        have hpreamble : c.forcePreamble = true := by simpa using hs
        exact ⟨⟨⟨rfl, hpreamble⟩, Phase.rightFrom_done waiting⟩, nofun, fun _ => .inl rfl⟩
    | done => exact iff_of_true (settled_done x _) (.inl rfl)

/-- The flags that `_skip_frame` leaves lead on from the phase in which it leaves them, unless
    commands that wait have gone through phases meanwhile. -/
theorem leads_skipFrame_iff {x : Drawctxt} {p q : Phase} (hq : p = .done → q = .done)
    (hqp : q = .seek → p = .seek) :
    q.Leads x { x with
        skipEof := x.skipEof || p.toSkip = some true
        forcePreamble := x.forcePreamble || p.toSkip = some false } ↔
      (p = .seek → q ≠ .seek → x.skipEof = true ∨ x.ifhNop = true) ∧
        (q = .preamble → p = .preamble ∨ x.forcePreamble = true ∨ x.ctxSwitch = true) := by
  cases p <;> cases q <;>
    simp_all [Phase.Leads, Phase.toSkip]

theorem Phase.after_eq_done_of_next {p : Phase} (hp : p ≠ .seek) (c : Cmd) : p.next c = .done := by
  cases p with
  | seek => exact absurd rfl hp
  | preamble => rfl
  | done => rfl

theorem Phase.eq_seek_of_after {p : Phase} {l : List Cmd} (h : p.after l = .seek) : p = .seek := by
  by_contra hp
  cases l with
  | nil => exact hp h
  | cons c l =>
    have hdone : (p.next c).after l = .seek := h
    rw [after_eq_done_of_next hp, after_done] at hdone
    cases hdone

/-- **When the frame is skipped whatever is queued later**: the commands that wait in the queue
    of the context need no more than they have. -/
theorem frameSkipped_iff (x : Drawctxt) (ctx : ℕ) (replay waiting : List Cmd) :
    (∀ later, FrameSkipped (ofCtx ctx replay ++ waiting ++ queueCmds x later)
      (ofCtx ctx (skipFrame x ctx replay).2 ++ waiting ++
        queueCmds (skipFrame x ctx replay).1 later)) ↔
      Settled x (Phase.seek.after (ofCtx ctx replay)) waiting := by
  have hright : Phase.seek.RightFrom (ofCtx ctx replay) (ofCtx ctx (skipFrame x ctx replay).2) :=
    (skipFrameFrom_right ctx true replay).1
  have hflag := (skipFrameFrom_right ctx true replay).2
  have hx : (skipFrame x ctx replay).1 = { x with
      skipEof := x.skipEof || (Phase.seek.after (ofCtx ctx replay)).toSkip = some true
      forcePreamble := x.forcePreamble ||
        (Phase.seek.after (ofCtx ctx replay)).toSkip = some false } := by
    unfold skipFrame
    dsimp only
    rw [hflag]
    rfl
  have hlength := (Phase.rightFrom_iff.mp hright).1
  have hsplit (later : List Cmd) : FrameSkipped (ofCtx ctx replay ++ waiting ++ queueCmds x later)
      (ofCtx ctx (skipFrame x ctx replay).2 ++ waiting ++
        queueCmds (skipFrame x ctx replay).1 later) ↔
      (Phase.seek.after (ofCtx ctx replay)).RightFrom waiting waiting ∧
        ((Phase.seek.after (ofCtx ctx replay)).after waiting).RightFrom (queueCmds x later)
          (queueCmds (skipFrame x ctx replay).1 later) := by
    rw [frameSkipped_iff_rightFrom, List.append_assoc, List.append_assoc,
      Phase.rightFrom_append hlength, Phase.rightFrom_append rfl]
    exact and_iff_right hright
  simp only [hsplit]
  generalize hp : Phase.seek.after (ofCtx ctx replay) = p at hx
  have hdone : p = .done → p.after waiting = .done := by
    rintro rfl
    exact Phase.after_done waiting
  have hleads := leads_skipFrame_iff (x := x) hdone Phase.eq_seek_of_after
  rw [← hx] at hleads
  have hifh : (skipFrame x ctx replay).1.ifhNop = x.ifhNop := by rw [hx]
  have hswitch : (skipFrame x ctx replay).1.ctxSwitch = x.ctxSwitch := by rw [hx]
  constructor
  · intro h
    have hlead : (p.after waiting).Leads x (skipFrame x ctx replay).1 := by
      by_cases hseek : p.after waiting = .seek
      · -- the flag is set, as no end of frame was replayed
        have hpseek := Phase.eq_seek_of_after hseek
        rw [hseek, hx, hpseek]
        simp [Phase.Leads, Phase.toSkip]
      · exact Phase.leads_of_plainCmd hseek hifh hswitch (h [plainCmd]).2
    obtain ⟨hskip, hpreamble⟩ := hleads.mp hlead
    exact ⟨(h []).1, hskip, hpreamble⟩
  · rintro ⟨hmarked, hskip, hpreamble⟩ later
    exact ⟨hmarked, (hleads.mpr ⟨hskip, hpreamble⟩).queueCmds hifh hswitch later⟩

/-! ## A fault whose frame is to be skipped -/

/-- What the phases look at of a command. -/
def Cmd.shape (c : Cmd) : Bool × Bool := (c.endOfFrame, c.skip)

/-- The flags of a context that queued commands get something of. -/
def Drawctxt.flags (x : Drawctxt) : Bool × Bool × Bool × Bool :=
  (x.skipEof, x.forcePreamble, x.ctxSwitch, x.ifhNop)

theorem Phase.next_congr {c c₁ : Cmd} (h : c₁.shape = c.shape) (p : Phase) :
    p.next c₁ = p.next c := by
  have heof : c₁.endOfFrame = c.endOfFrame := congrArg Prod.fst h
  cases p <;> simp [Phase.next, heof]

theorem Phase.right_congr {c c₁ : Cmd} (h : c₁.shape = c.shape) (p : Phase) (c' : Cmd) :
    p.Right c₁ c' ↔ p.Right c c' := by
  have hskip : c₁.skip = c.skip := congrArg Prod.snd h
  cases p <;> simp [Phase.Right, hskip]

/-- What becomes of the first command does not depend on its other marks. -/
theorem frameSkipped_cons_congr {c c₁ : Cmd} (h : c₁.shape = c.shape) (before now : List Cmd) :
    FrameSkipped (c₁ :: before) now ↔ FrameSkipped (c :: before) now := by
  rw [frameSkipped_iff_rightFrom, frameSkipped_iff_rightFrom]
  cases now with
  | nil => exact Iff.rfl
  | cons c' now =>
    unfold Phase.RightFrom
    rw [Phase.right_congr h, Phase.next_congr h]

theorem queueCmds_congr {x x₁ : Drawctxt} (h : x₁.flags = x.flags) (later : List Cmd) :
    queueCmds x₁ later = queueCmds x later := by
  induction later generalizing x x₁ with
  | nil => rfl
  | cons c later ih =>
    simp only [Drawctxt.flags, Prod.mk.injEq] at h
    obtain ⟨hskip, hpreamble, hswitch, hifh⟩ := h
    have hnext : (cmdobjSetFlags x₁ c).1.flags = (cmdobjSetFlags x c).1.flags := by
      simp [cmdobjSetFlags, Drawctxt.flags, hskip, hswitch, hifh]
    have hcmd : (cmdobjSetFlags x₁ c).2 = (cmdobjSetFlags x c).2 := by
      simp [cmdobjSetFlags, hskip, hpreamble, hswitch, hifh]
    unfold queueCmds
    rw [hcmd, ih hnext]

theorem throttle_flags (e : Fault) (x : Drawctxt) (c : Cmd) :
    (throttle e x c).1.flags = x.flags ∧ (throttle e x c).2.shape = c.shape := by
  unfold throttle
  dsimp only
  split_ifs <;> exact ⟨rfl, rfl⟩

theorem SkipsFrame.processCmdobjFault {e : Fault} {x : Drawctxt} {c : Cmd} (h : SkipsFrame e x c)
    (replay : List Cmd) : ∃ x₁ c₁, x₁.flags = x.flags ∧ c₁.key = c.key ∧ c₁.shape = c.shape ∧
      processCmdobjFault e x c replay =
        ((skipFrame x₁ c₁.ctx (c₁ :: replay)).1, (skipFrame x₁ c₁.ctx (c₁ :: replay)).2,
          false) := by
  obtain ⟨hflags, hshape⟩ := throttle_flags e x c
  obtain ⟨hreplay, hskipib, hskipcmd, hskipframe⟩ := h
  unfold Inflight.processCmdobjFault
  dsimp only
  rw [if_neg hreplay, if_neg hskipib, if_neg hskipcmd, if_pos hskipframe]
  refine ⟨_, _, ?_, ?_, ?_, rfl⟩
  · exact hflags
  · exact throttle_key e x c
  · exact hshape

/-- **When a fault skips the frame** of the command that faulted. -/
theorem SkipsFrame.frameSkipped_iff {e : Fault} {x : Drawctxt} {c : Cmd} (h : SkipsFrame e x c)
    (replay waiting : List Cmd) :
    (∀ later, FrameSkipped (ofCtx c.ctx (c :: replay) ++ waiting ++ queueCmds x later)
      (ofCtx c.ctx (Inflight.processCmdobjFault e x c replay).2.1 ++ waiting ++
        queueCmds (Inflight.processCmdobjFault e x c replay).1 later)) ↔
      Settled x (Phase.seek.after (ofCtx c.ctx (c :: replay))) waiting := by
  obtain ⟨x₁, c₁, hflags, hkey, hshape, hfault⟩ := h.processCmdobjFault replay
  have hctx : c₁.ctx = c.ctx := congrArg (·.2.1) hkey
  have hown (c' : Cmd) (hc' : c'.ctx = c.ctx) (l : List Cmd) :
      ofCtx c.ctx (c' :: l) = c' :: ofCtx c.ctx l :=
    List.filter_cons_of_pos (by simpa using hc')
  have hiff := Inflight.frameSkipped_iff x₁ c.ctx (c₁ :: replay) waiting
  have hphase : Phase.seek.after (c₁ :: ofCtx c.ctx replay) =
      Phase.seek.after (c :: ofCtx c.ctx replay) :=
    congrArg (Phase.after · (ofCtx c.ctx replay)) (Phase.next_congr hshape _)
  have hsettled (p : Phase) : Settled x₁ p waiting ↔ Settled x p waiting := by
    simp only [Drawctxt.flags, Prod.mk.injEq] at hflags
    obtain ⟨hskip, hpreamble, hswitch, hifh⟩ := hflags
    constructor <;> rintro ⟨h₁, h₂, h₃⟩
    · exact ⟨h₁, by rwa [hskip, hifh] at h₂, by rwa [hpreamble, hswitch] at h₃⟩
    · exact ⟨h₁, by rwa [hskip, hifh], by rwa [hpreamble, hswitch]⟩
  rw [hown c₁ hctx, hphase, hsettled] at hiff
  simp only [queueCmds_congr hflags, List.cons_append, frameSkipped_cons_congr hshape] at hiff
  rw [hfault, hctx, hown c rfl]
  exact hiff

end Sm8850.Kgsl.Inflight
