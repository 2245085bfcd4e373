/-
  The commands in flight over whole runs.

  * `Dispatcher.step`: a write to an attribute, what `dispatcher_context_sendcmds` does with
    one command, a retirement, the end of the dispatcher's work, a recovery.
  * `Dispatcher.Exact`: the counts are those of the rings, the vote is the power's, and the
    walk through a ring meets all its commands in flight.
  * **`exact_iff`**: a run keeps that as long as no drawqueue with all slots but one in use is
    given another command.  The attributes allow it.

  A ring is empty when its head is its tail, so one slot has to stay free.
-/
import Sm8850.Kgsl.Drawqueue
import Sm8850.Kgsl.InflightSpec

namespace Sm8850.Kgsl.Inflight

open Lib Dispatch

variable {n : ℕ} {d d' : Dispatcher n} {rb : Fin n} {c : Cmd} {o : Dispatcher.Outcome}

/-! ## Runs -/

/-- `dispatcher_attr_inflight`. -/
def storeInflight (val : ℕ) : Option ℕ := storeUint drawqueueSize val

/-- `dispatcher_attr_inflight_low_latency`. -/
def storeInflightLowLatency (val : ℕ) : Option ℕ := storeUint drawqueueSize val

/-- What the dispatcher and the others do. -/
inductive Act (n : ℕ) where
  | storeInflight (val : ℕ)
  | storeInflightLowLatency (val : ℕ)
  | storeContextBurstCount (val : ℕ)
  /-- `dispatcher_context_sendcmds` before its loop. -/
  | enter (rb : Fin n) (activeContextCount : ℕ)
  /-- A turn of the loop, with the command that it has popped. -/
  | send (c : Cmd) (o : Dispatcher.Outcome)
  /-- The loop is left. -/
  | leave
  | retire (rb : Fin n) (passed : Cmd → Bool)
  /-- `adreno_dispatcher_work` with nothing in flight. -/
  | powerDown
  | recover (hung : Option (Fin n)) (passed : Cmd → Bool) (r : Fin n → Replay)
  | invalidate (ctx : ℕ)

/-- The value leaves a slot free, if it is one for how many may be in flight. -/
def Act.LeavesSlot : Act n → Prop
  | .storeInflight val | .storeInflightLowLatency val => val < drawqueueSize
  | _ => True

namespace Dispatcher

/-- Once the module is loaded. -/
def init (n : ℕ) : Dispatcher n where
  q _ := ⟨fun _ => none, 0, 0, 0, []⟩
  inflight := 0
  power := false
  active := false
  votes := 0
  bad _ := false
  retired := []
  destroyed := []
  inflightHi := 15
  inflightLo := 4
  burst := 5
  sending := none

/-- One act; the dispatcher is in one place at a time. -/
def step (d : Dispatcher n) : Act n → Option (Dispatcher n)
  | .storeInflight val => some { d with inflightHi := (storeInflight val).getD d.inflightHi }
  | .storeInflightLowLatency val =>
    some { d with inflightLo := (storeInflightLowLatency val).getD d.inflightLo }
  | .storeContextBurstCount val =>
    some { d with burst := (storeContextBurstCount val).getD d.burst }
  | .enter rb activeContextCount =>
    let inflight := drawqueueInflight d activeContextCount
    if d.sending ≠ none then none
    else if (d.q rb).inflight ≥ inflight then some d
    else some { d with sending := some ⟨rb, inflight, 0⟩ }
  | .send c o =>
    match d.sending with
    | none => none
    | some b =>
      if b.count < d.burst ∧ (d.q b.rb).inflight < b.limit then
        let (d, success) := d.sendcmd b.rb c o
        some { d with sending := if success then some { b with count := b.count + 1 } else none }
      else none
  | .leave => some { d with sending := none }
  | .retire rb passed => if d.sending ≠ none then none else some (d.retireDrawqueue passed rb)
  | .powerDown => if d.sending ≠ none ∨ d.inflight > 0 then none else some d.dispatcherPowerDown
  | .recover hung passed r => if d.sending ≠ none then none else some (d.recover hung passed r)
  | .invalidate ctx => some (d.setGuilty ctx)

def run (d : Dispatcher n) (as : List (Act n)) : Option (Dispatcher n) := as.foldlM step d

theorem run_append (d : Dispatcher n) (as bs : List (Act n)) :
    d.run (as ++ bs) = (d.run as).bind (·.run bs) := List.foldlM_append

@[simp] theorem run_nil (d : Dispatcher n) : d.run [] = some d := rfl

theorem run_cons (d : Dispatcher n) (a : Act n) (as : List (Act n)) :
    d.run (a :: as) = (d.step a).bind (·.run as) := rfl

theorem run_concat (d : Dispatcher n) (as : List (Act n)) (a : Act n) :
    d.run (as ++ [a]) = (d.run as).bind (·.step a) := by
  rw [run_append]
  congr 1
  funext d'
  exact Option.bind_fun_some _

/-! ## What a run is to keep -/

/-- The counts are right, and no command in flight is lost from sight. -/
structure Exact (d : Dispatcher n) : Prop where
  inflight : ∀ rb, (d.q rb).inflight = (d.q rb).contents.length
  sum : d.inflight = ∑ rb, (d.q rb).inflight
  votes : d.votes = if d.power then 1 else 0
  visible : ∀ rb, (d.q rb).contents = (d.q rb).flying.map some

theorem Counted.exact (h : d.Counted Finset.univ) : d.Exact where
  inflight rb := by
    obtain ⟨pos, hq⟩ := h.good rb
    rw [(h.good rb).contents, List.length_map, hq.inflight]
  sum := h.sum
  votes := by
    rw [h.votes]
    cases d.power <;> rfl
  visible rb := (h.good rb).contents

/-- A command is given to a drawqueue that has all slots but one in use. -/
def Overfills (d : Dispatcher n) (a : Act n) : Prop :=
  ∃ c o b, a = .send c o ∧ d.sending = some b ∧ o.halted = false ∧ o.submitFails = false ∧
    (d.q b.rb).inflight + 1 = drawqueueSize

theorem counted_init : (init n).Counted Finset.univ :=
  ⟨fun _ => Drawqueue.good_empty _, Finset.sum_const_zero.symm, rfl⟩

/-! ## One act -/

theorem Counted.inflight_eq {S : Finset (Fin n)} (h : d.Counted S) (rb : Fin n) :
    (d.q rb).inflight = (d.q rb).flying.length := by
  obtain ⟨pos, hq⟩ := h.good rb
  exact hq.inflight

theorem Counted.powerDown {S : Finset (Fin n)} (h : d.Counted S) :
    d.dispatcherPowerDown.Counted S := by
  unfold dispatcherPowerDown
  dsimp only
  split_ifs with hp
  · refine ⟨h.good, h.sum, ?_⟩
    dsimp only
    rw [h.votes, hp]
    rfl
  · exact ⟨h.good, h.sum, h.votes⟩

/-- What a turn of the loop is. -/
theorem step_send (hstep : d.step (.send c o) = some d') :
    ∃ b s, d.sending = some b ∧ (d.q b.rb).inflight < b.limit ∧
      (s = none ∨ s = some { b with count := b.count + 1 }) ∧
      d' = { (d.sendcmd b.rb c o).1 with sending := s } := by
  unfold step at hstep
  cases hsending : d.sending with
  | none => simp [hsending] at hstep
  | some b =>
    simp only [hsending] at hstep
    by_cases hloop : b.count < d.burst ∧ (d.q b.rb).inflight < b.limit
    · rw [if_pos hloop, Option.some.injEq] at hstep
      refine ⟨b, _, rfl, hloop.2, ?_, hstep.symm⟩
      cases (d.sendcmd b.rb c o).2
      · exact .inl rfl
      · exact .inr rfl
    · rw [if_neg hloop] at hstep
      cases hstep

/-- A command that is sent has room, unless the drawqueue is filled up. -/
theorem Counted.send {b : Burst n} (h : d.Counted Finset.univ) (hsending : d.sending = some b)
    (hfree : ¬ d.Overfills (.send c o)) : (d.sendcmd b.rb c o).1.Counted Finset.univ := by
  obtain ⟨power, active, hsend⟩ := sendcmd_spec h.votes b.rb c o
  have h₀ : Counted { d with power, votes := power.toNat, active } Finset.univ :=
    ⟨h.good, h.sum, rfl⟩
  rcases hsend with hsend | ⟨hsend, hh, hs⟩
  · rw [hsend]
    exact h₀
  · rw [hsend]
    refine h₀.put (Finset.mem_univ b.rb) ?_ c
    have hlt := (h.good b.rb).lt
    have hne : (d.q b.rb).inflight + 1 ≠ drawqueueSize :=
      fun heq => hfree ⟨c, o, b, rfl, hsending, hh, hs, heq⟩
    rw [h.inflight_eq] at hne
    exact lt_of_le_of_ne hlt hne

theorem step_counted {a : Act n} (h : d.Counted Finset.univ) (hstep : d.step a = some d')
    (hfree : ¬ d.Overfills a) : d'.Counted Finset.univ := by
  cases a with
  | storeInflight val | storeInflightLowLatency val | storeContextBurstCount val | leave
  | invalidate ctx =>
    cases hstep
    exact ⟨h.good, h.sum, h.votes⟩
  | enter rb activeContextCount =>
    unfold step at hstep
    dsimp only at hstep
    split_ifs at hstep <;> cases hstep
    · exact h
    · exact ⟨h.good, h.sum, h.votes⟩
  | send c o =>
    obtain ⟨b, s, hsending, -, -, rfl⟩ := step_send hstep
    obtain ⟨hgood, hsum, hvotes⟩ := h.send hsending hfree
    exact ⟨hgood, hsum, hvotes⟩
  | retire rb passed =>
    unfold step at hstep
    dsimp only at hstep
    split_ifs at hstep
    cases hstep
    exact (retireDrawqueue_spec h (Finset.mem_univ rb) passed).1
  | powerDown =>
    unfold step at hstep
    dsimp only at hstep
    split_ifs at hstep
    cases hstep
    exact h.powerDown
  | recover hung passed r =>
    unfold step at hstep
    dsimp only at hstep
    split_ifs at hstep
    cases hstep
    exact (recover_spec h hung passed r).1

/-- The tail comes round to the head: the ring looks empty. -/
theorem contents_overfilled {q : Drawqueue} (h : q.Good)
    (hfull : q.flying.length + 1 = drawqueueSize) (cmdQ : ℕ → Option Cmd) (k : ℕ) (l : List Cmd) :
    Drawqueue.contents ⟨cmdQ, k, q.head, drawqueueNext q.tail, l⟩ = [] := by
  obtain ⟨pos, hq⟩ := h
  have htail : q.head = drawqueueNext q.tail := by
    rw [hq.head, hq.tail, drawqueueNext_mod, Nat.add_assoc, hfull, Nat.add_mod_right]
  exact if_pos htail

theorem step_overfills {a : Act n} (h : d.Counted Finset.univ) (hstep : d.step a = some d')
    (hover : d.Overfills a) : ¬ d'.Exact := by
  obtain ⟨c, o, b, rfl, hb, hh, hs, hfull⟩ := hover
  obtain ⟨b', s, hsending, -, -, rfl⟩ := step_send hstep
  obtain rfl : b' = b := Option.some.inj (hsending.symm.trans hb)
  have hflying : (d.q b'.rb).flying.length + 1 = drawqueueSize := by rwa [← h.inflight_eq]
  -- there are others in flight, so the submission needs no power
  have hsome : d.inflight ≠ 0 := by
    intro hzero
    rw [h.sum, total_eq_zero_iff] at hzero
    rw [hzero b'.rb (Finset.mem_univ _)] at hfull
    exact absurd hfull (by decide)
  obtain ⟨power, active, hsend⟩ := sendcmd_spec h.votes b'.rb c o
  rcases hsend with hsend | ⟨hsend, -⟩
  · have hok := sendcmd_succeeds hsome hh hs b'.rb c
    rw [hsend] at hok
    cases hok
  · intro hexact
    have hempty := hexact.inflight b'.rb
    simp only [hsend, Dispatcher.put, raise, Dispatcher.setQ, Function.update_self] at hempty
    rw [contents_overfilled (h.good b'.rb) hflying] at hempty
    exact absurd hempty (Nat.succ_ne_zero _)

/-! ## Whole runs -/

theorem run_counted {as : List (Act n)} (hrun : (init n).run as = some d)
    (hfree : ∀ bs a cs d', as = bs ++ a :: cs → (init n).run bs = some d' → ¬ d'.Overfills a) :
    d.Counted Finset.univ := by
  induction as using List.reverseRecOn generalizing d with
  | nil =>
    cases hrun
    exact counted_init
  | append_singleton as a ih =>
    rw [run_concat] at hrun
    obtain ⟨d₁, hrun₁, hstep⟩ := Option.bind_eq_some_iff.mp hrun
    have h₁ := ih hrun₁ fun bs a' cs d' has =>
      hfree bs a' (cs ++ [a]) d' (by rw [has, List.append_assoc, List.cons_append])
    exact step_counted h₁ hstep (hfree as a [] d₁ rfl hrun₁)

/-- **When every state of a run is exact**: no drawqueue is filled up. -/
theorem exact_iff {as : List (Act n)} (hrun : (init n).run as = some d) :
    (∀ bs cs d', as = bs ++ cs → (init n).run bs = some d' → d'.Exact) ↔
      ∀ bs a cs d', as = bs ++ a :: cs → (init n).run bs = some d' → ¬ d'.Overfills a := by
  constructor
  · intro hexact bs
    -- on the length of the run before the act
    induction hk : bs.length using Nat.strong_induction_on generalizing bs with
    | _ k ih =>
      intro a cs d' has hbs hover
      have hcounted : d'.Counted Finset.univ := run_counted hbs fun bs₁ a₁ cs₁ d₁ hbs₁ =>
        ih bs₁.length (by rw [← hk, hbs₁]; simp) bs₁ rfl a₁ (cs₁ ++ a :: cs) d₁
          (by rw [has, hbs₁, List.append_assoc, List.cons_append])
      have hrun' := hrun
      rw [has, run_append, hbs, Option.bind_some, run_cons] at hrun'
      obtain ⟨d₂, hstep, -⟩ := Option.bind_eq_some_iff.mp hrun'
      refine step_overfills hcounted hstep hover (hexact (bs ++ [a]) cs d₂ ?_ ?_)
      · rw [has, List.append_assoc, List.singleton_append]
      · rw [run_concat, hbs, Option.bind_some, hstep]
  · intro hfree bs cs d' has hbs
    refine (run_counted hbs fun bs₁ a₁ cs₁ d₁ hbs₁ => ?_).exact
    exact hfree bs₁ a₁ (cs₁ ++ cs) d₁ (by rw [has, hbs₁, List.append_assoc, List.cons_append])

/-- The attributes, and the loop that has read them, leave a slot free. -/
structure Limited (d : Dispatcher n) : Prop where
  hi : d.inflightHi < drawqueueSize
  lo : d.inflightLo < drawqueueSize
  sending : ∀ b, d.sending = some b → b.limit < drawqueueSize

theorem storeUint_getD_lt {max val old k : ℕ} (hval : val < k) (hold : old < k) :
    (storeUint max val).getD old < k := by
  unfold storeUint
  split
  · exact hold
  · exact hval

theorem Limited.keeps (h : d.Limited) (hkeeps : Keeps d d') : d'.Limited where
  hi := hkeeps.inflightHi ▸ h.hi
  lo := hkeeps.inflightLo ▸ h.lo
  sending := hkeeps.sending ▸ h.sending

theorem Keeps.sendcmd (hvotes : d.votes = d.power.toNat) (rb : Fin n) (c : Cmd) (o : Outcome) :
    Keeps d (d.sendcmd rb c o).1 := by
  obtain ⟨power, active, hsend | ⟨hsend, -⟩⟩ := sendcmd_spec hvotes rb c o
  · rw [hsend]
    exact ⟨rfl, rfl, rfl, rfl⟩
  · rw [hsend]
    exact ⟨rfl, rfl, rfl, rfl⟩

theorem step_limited {a : Act n} (h : d.Limited) (hd : d.Counted Finset.univ)
    (hstep : d.step a = some d') (ha : a.LeavesSlot) : d'.Limited := by
  cases a with
  | storeInflight val =>
    cases hstep
    exact ⟨storeUint_getD_lt ha h.hi, h.lo, h.sending⟩
  | storeInflightLowLatency val =>
    cases hstep
    exact ⟨h.hi, storeUint_getD_lt ha h.lo, h.sending⟩
  | storeContextBurstCount val | invalidate ctx =>
    cases hstep
    exact ⟨h.hi, h.lo, h.sending⟩
  | leave =>
    cases hstep
    exact ⟨h.hi, h.lo, by intros; contradiction⟩
  | enter rb activeContextCount =>
    unfold step at hstep
    dsimp only at hstep
    split_ifs at hstep <;> cases hstep
    · exact h
    · refine ⟨h.hi, h.lo, fun b hb => ?_⟩
      cases hb
      change drawqueueInflight d activeContextCount < drawqueueSize
      unfold drawqueueInflight
      split
      · exact h.lo
      · exact h.hi
  | send c o =>
    obtain ⟨b, s, hsending, -, hs, rfl⟩ := step_send hstep
    obtain ⟨hhi, hlo, -⟩ := h.keeps (Keeps.sendcmd hd.votes b.rb c o)
    refine ⟨hhi, hlo, fun b' hb' => ?_⟩
    rcases hs with rfl | rfl
    · cases hb'
    · cases hb'
      exact h.sending b hsending
  | retire rb passed =>
    unfold step at hstep
    dsimp only at hstep
    split_ifs at hstep
    cases hstep
    exact h.keeps (retireDrawqueue_spec hd (Finset.mem_univ rb) passed).2.keeps
  | powerDown =>
    unfold step dispatcherPowerDown at hstep
    dsimp only at hstep
    split_ifs at hstep <;>
    · cases hstep
      exact ⟨h.hi, h.lo, h.sending⟩
  | recover hung passed r =>
    unfold step at hstep
    dsimp only at hstep
    split_ifs at hstep
    cases hstep
    obtain ⟨-, d₁, sent, dead, htakes, hreplays⟩ := recover_spec hd hung passed r
    exact (h.keeps htakes.keeps).keeps hreplays.keeps

theorem Limited.not_overfills (h : d.Limited) {a : Act n} (hstep : d.step a = some d') :
    ¬ d.Overfills a := by
  rintro ⟨c, o, b, rfl, hb, -, -, hfull⟩
  obtain ⟨b', s, hsending, hlimit, -⟩ := step_send hstep
  obtain rfl : b' = b := Option.some.inj (hsending.symm.trans hb)
  have hlt := h.sending b' hb
  omega

/-- **Attributes that leave a slot free keep every state exact**, as those of the contexts'
    queues do. -/
theorem exact_of_leavesSlot {as : List (Act n)} (hrun : (init n).run as = some d)
    (has : ∀ a ∈ as, a.LeavesSlot) : d.Exact := by
  suffices h : d.Counted Finset.univ ∧ d.Limited from h.1.exact
  induction as using List.reverseRecOn generalizing d with
  | nil =>
    cases hrun
    exact ⟨counted_init, (by decide : 15 < 128), (by decide : 4 < 128), nofun⟩
  | append_singleton as a ih =>
    rw [run_concat] at hrun
    obtain ⟨d₁, hrun₁, hstep⟩ := Option.bind_eq_some_iff.mp hrun
    obtain ⟨h₁, hlimited⟩ := ih hrun₁ fun a' ha' => has a' (List.mem_append_left _ ha')
    refine ⟨step_counted h₁ hstep (hlimited.not_overfills hstep), ?_⟩
    exact step_limited hlimited h₁ hstep
      (has a (List.mem_append_right _ (List.mem_singleton_self a)))

/-- The command of a run that fills a drawqueue. -/
def fillCmd : Cmd := ⟨0, 1, 1, false, false, false, false, false, ∅, ∅, []⟩

/-- A burst of commands to a single ringbuffer, once the attributes allow that many. -/
def fillRun (k : ℕ) : List (Act 1) :=
  [.storeInflight drawqueueSize, .storeContextBurstCount drawqueueSize, .enter ⟨0, Nat.one_pos⟩ 1] ++
    List.replicate k (.send fillCmd ⟨false, false, false⟩)

theorem fillRun_succ (k : ℕ) :
    fillRun (k + 1) = fillRun k ++ [.send fillCmd ⟨false, false, false⟩] := by
  unfold fillRun
  rw [List.replicate_succ', ← List.append_assoc]

theorem run_fillRun {k : ℕ} (hk : k ≤ drawqueueSize) : ∃ d, (init 1).run (fillRun k) = some d ∧
    (d.q 0).inflight = k ∧ (d.q 0).flying.length = k ∧ (d.q 0).head = 0 ∧
      (d.q 0).tail = k % drawqueueSize ∧ d.burst = drawqueueSize ∧
        d.sending = some ⟨0, drawqueueSize, k⟩ := by
  induction k with
  | zero => exact ⟨_, rfl, rfl, rfl, rfl, rfl, rfl, rfl⟩
  | succ k ih =>
    obtain ⟨d, hrun, hinflight, hflying, hhead, htail, hburst, hsending⟩ :=
      ih (Nat.le_of_succ_le hk)
    obtain ⟨power, votes, active, hsend⟩ := sendcmd_ok d 0 fillCmd
    have hloop : k < d.burst ∧ (d.q 0).inflight < drawqueueSize := by
      rw [hburst, hinflight]
      exact ⟨hk, hk⟩
    have hstep : d.step (.send fillCmd ⟨false, false, false⟩) =
        some { (Dispatcher.raise { d with power, votes, active } 0).put 0 fillCmd with
          sending := some ⟨0, drawqueueSize, k + 1⟩ } := by
      unfold step
      simp only [hsending]
      rw [if_pos hloop, hsend]
      rfl
    have hrun' : (init 1).run (fillRun (k + 1)) =
        d.step (.send fillCmd ⟨false, false, false⟩) := by
      rw [fillRun_succ, run_concat, hrun, Option.bind_some]
    refine ⟨_, hrun'.trans hstep, ?_⟩
    simp only [Dispatcher.put, raise, Dispatcher.setQ, Function.update_self]
    refine ⟨by rw [hinflight], by simp [hflying], hhead, ?_, hburst, trivial⟩
    rw [htail, drawqueueNext_mod]

theorem exact_iff_fillRun :
    ¬ ∀ bs cs d', fillRun drawqueueSize = bs ++ cs → (init 1).run bs = some d' → d'.Exact := by
  obtain ⟨d, hrun, -⟩ := run_fillRun le_rfl
  obtain ⟨d', hrun', hinflight, -, -, -, -, hsending⟩ :=
    run_fillRun (Nat.le_succ 127 : 127 ≤ drawqueueSize)
  rw [exact_iff hrun]
  intro hfree
  refine hfree (fillRun 127) _ [] d' (fillRun_succ 127) hrun' ⟨_, _, _, rfl, hsending, rfl, rfl, ?_⟩
  rw [hinflight]

/-- With as many commands in flight as there are slots, the ring looks empty. -/
theorem full_drawqueue_looks_empty : ∃ d, (init 1).run (fillRun drawqueueSize) = some d ∧
    (d.q 0).isEmpty = true ∧ (d.q 0).inflight = drawqueueSize ∧
      (d.q 0).flying.length = drawqueueSize ∧ ¬ d.Exact := by
  obtain ⟨d, hrun, hinflight, hflying, hhead, htail, -, -⟩ := run_fillRun le_rfl
  rw [Nat.mod_self] at htail
  have hempty : (d.q 0).contents = [] := if_pos (hhead.trans htail.symm)
  refine ⟨d, hrun, ?_, hinflight, hflying, fun hexact => ?_⟩
  · exact decide_eq_true (hhead.trans htail.symm)
  · have hcount := hexact.inflight 0
    rw [hempty, hinflight] at hcount
    exact absurd hcount (Nat.succ_ne_zero _)

end Dispatcher

end Sm8850.Kgsl.Inflight
