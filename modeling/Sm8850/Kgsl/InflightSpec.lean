/-
  What the sections on the drawqueues do with the commands in flight.

  * `Drawqueue.Good`: the ring holds the commands in flight, in order, with a slot to spare,
    and the count is theirs.
  * `Dispatcher.Counted`: every ring does, the sum is that of some of the ringbuffers (of
    all, but while the recovery goes through them), and the vote is the power's.
  * `sendcmd_spec`, `retireDrawqueue_spec`, `recoverDispatchQ_spec`: one rule a function; the
    last two also say where each command went.
-/
import Mathlib.Algebra.BigOperators.Fin
import Mathlib.Algebra.Order.BigOperators.Group.Finset
import Mathlib.Data.List.ReduceOption
import Sm8850.Kgsl.Inflight
import Sm8850.Lib.Ring

namespace Sm8850.Kgsl.Inflight

open Lib

variable {n : ℕ} {q : Drawqueue} {d d' : Dispatcher n} {rb : Fin n} {S : Finset (Fin n)}
  {c : Cmd} {o : Dispatcher.Outcome} {l : List Cmd}

/-! ## Commands -/

/-- A command that was submitted once more. -/
def Cmd.Resubmitted (c c' : Cmd) : Prop := ∃ first, c' = c.resubmit first

theorem Cmd.resubmit_key (first : Bool) (c : Cmd) : (c.resubmit first).key = c.key := rfl

theorem Cmd.map_key_of_resubmitted {kept sent : List Cmd}
    (h : List.Forall₂ Cmd.Resubmitted kept sent) : sent.map Cmd.key = kept.map Cmd.key := by
  induction h with
  | nil => rfl
  | cons hc _ ih =>
    obtain ⟨first, rfl⟩ := hc
    rw [List.map_cons, List.map_cons, ih, Cmd.resubmit_key]

/-- A list split by what is bad. -/
theorem filter_key_perm (bad : Cmd → Bool) (l : List Cmd) :
    ((l.filter bad).map Cmd.key ++ (l.filter fun c => !bad c).map Cmd.key).Perm
      (l.map Cmd.key) := by
  rw [← List.map_append]
  exact (List.filter_append_perm bad l).map Cmd.key

/-- What `recover_dispatch_q` makes of the commands before it submits any. -/
def Replay.todo (r : Replay) (l : List Cmd) : List Cmd := if r.alloc then r.edit l else l

theorem Replay.todo_key (r : Replay) (l : List Cmd) :
    (r.todo l).map Cmd.key = l.map Cmd.key := by
  unfold Replay.todo
  split
  · exact r.edit_key l
  · rfl

/-! ## Rings -/

/-- The ring holds the commands in flight. -/
structure Drawqueue.GoodAt (q : Drawqueue) (pos : ℕ) : Prop where
  head : q.head = pos % drawqueueSize
  tail : q.tail = (pos + q.flying.length) % drawqueueSize
  inflight : q.inflight = q.flying.length
  holds : Ring.Holds drawqueueSize q.cmdQ pos (q.flying.map some)

def Drawqueue.Good (q : Drawqueue) : Prop := ∃ pos, q.GoodAt pos

theorem Drawqueue.GoodAt.lt {pos : ℕ} (h : q.GoodAt pos) : q.flying.length < drawqueueSize := by
  simpa using h.holds.lt

theorem Drawqueue.Good.lt (h : q.Good) : q.flying.length < drawqueueSize := by
  obtain ⟨pos, h⟩ := h
  exact h.lt

theorem drawqueueNext_mod (i : ℕ) :
    drawqueueNext (i % drawqueueSize) = (i + 1) % drawqueueSize :=
  Nat.mod_add_mod i drawqueueSize 1

theorem Drawqueue.copyFrom_eq {s : List (Option Cmd)} {pos fuel : ℕ}
    (h : Ring.Holds drawqueueSize q.cmdQ pos s)
    (htail : q.tail = (pos + s.length) % drawqueueSize) (hfuel : s.length ≤ fuel) :
    q.copyFrom fuel (pos % drawqueueSize) = s := by
  induction fuel generalizing pos s with
  | zero =>
    obtain rfl := List.length_eq_zero_iff.mp (Nat.le_zero.mp hfuel)
    rfl
  | succ fuel ih =>
    unfold Drawqueue.copyFrom
    cases s with
    | nil => exact if_pos htail.symm
    | cons x s =>
      have hne : pos % drawqueueSize ≠ q.tail := by
        rw [htail]
        exact fun heq => Nat.succ_ne_zero _ ((Ring.mod_eq_iff h.lt).mp heq)
      have hcell := h.cell 0 (Nat.succ_pos _)
      rw [if_neg hne, drawqueueNext_mod]
      rw [Nat.add_zero, List.getElem_cons_zero] at hcell
      have hrest : Ring.Holds drawqueueSize q.cmdQ (pos + 1) s := h.drop (s := [x])
      have htail' : q.tail = (pos + 1 + s.length) % drawqueueSize := by
        rw [htail, List.length_cons, Nat.add_assoc, Nat.add_comm 1]
      rw [hcell, ih hrest htail' (Nat.le_of_succ_le_succ hfuel)]

/-- **What the walk from head to tail finds** are the commands in flight. -/
theorem Drawqueue.Good.contents (h : q.Good) : q.contents = q.flying.map some := by
  obtain ⟨pos, h⟩ := h
  unfold Drawqueue.contents
  rw [h.head]
  refine Drawqueue.copyFrom_eq h.holds ?_ ?_
  · rw [h.tail, List.length_map]
  · rw [List.length_map]
    exact h.lt.le

theorem Drawqueue.copyFrom_length_le (q : Drawqueue) (fuel ptr : ℕ) :
    (q.copyFrom fuel ptr).length ≤ fuel := by
  induction fuel generalizing ptr with
  | zero => exact le_rfl
  | succ fuel ih =>
    unfold Drawqueue.copyFrom
    split
    · exact Nat.zero_le _
    · exact Nat.succ_le_succ (ih _)

theorem Drawqueue.good_empty (cmdQ : ℕ → Option Cmd) : Drawqueue.Good ⟨cmdQ, 0, 0, 0, []⟩ :=
  ⟨0, rfl, rfl, rfl, Ring.Holds.nil (by decide)⟩

/-- A ring with room takes one more command. -/
theorem Drawqueue.Good.push (h : q.Good) (hroom : q.flying.length + 1 < drawqueueSize) (c : Cmd) :
    Drawqueue.Good { q with
      inflight := q.inflight + 1
      cmdQ := Function.update q.cmdQ q.tail (some c)
      tail := drawqueueNext q.tail
      flying := q.flying ++ [c] } := by
  obtain ⟨pos, hq⟩ := h
  refine ⟨pos, hq.head, ?_, ?_, ?_⟩
  · dsimp only
    rw [hq.tail, drawqueueNext_mod, List.length_append]
    rfl
  · dsimp only
    rw [hq.inflight, List.length_append]
    rfl
  · have hpush := hq.holds.push (by rwa [List.length_map]) (some c)
    rw [List.length_map, ← hq.tail] at hpush
    rwa [List.map_append]

/-- The command at the head of a ring is taken from it. -/
theorem Drawqueue.Good.pop (h : q.Good) (hl : q.flying = c :: l) :
    Drawqueue.Good { q with
      inflight := q.inflight - 1
      cmdQ := Function.update q.cmdQ q.head none
      head := drawqueueNext q.head
      flying := l } := by
  obtain ⟨pos, hq⟩ := h
  have hlt := hq.lt
  rw [hl, List.length_cons] at hlt
  have hholds : Ring.Holds drawqueueSize q.cmdQ pos ([some c] ++ l.map some) := by
    have hh := hq.holds
    rwa [hl] at hh
  refine ⟨pos + 1, ?_, ?_, ?_, ?_⟩
  · dsimp only
    rw [hq.head, drawqueueNext_mod]
  · dsimp only
    rw [hq.tail, hl, List.length_cons, Nat.add_assoc, Nat.add_comm 1]
  · dsimp only
    rw [hq.inflight, hl]
    rfl
  · -- the slot of the head is the one after the tail now
    have hdrop := hholds.drop
    refine ⟨hdrop.lt, fun j hj => ?_⟩
    dsimp only at hj ⊢
    rw [List.length_map] at hj
    have hne : (pos + 1 + j) % drawqueueSize ≠ pos % drawqueueSize :=
      (Ring.mod_ne_mod (by omega) (by omega)).symm
    rw [hq.head, Function.update_of_ne hne]
    exact hdrop.cell j (by rwa [List.length_map])

/-! ## Counts -/

namespace Dispatcher

/-- The counts of some of the ringbuffers. -/
def total (d : Dispatcher n) (S : Finset (Fin n)) : ℕ := ∑ rb ∈ S, (d.q rb).inflight

/-- The rings are good, and so are the sum over these ringbuffers and the vote. -/
structure Counted (d : Dispatcher n) (S : Finset (Fin n)) : Prop where
  good : ∀ rb, (d.q rb).Good
  sum : d.inflight = d.total S
  votes : d.votes = d.power.toNat

/-- Everything but the drawqueues, the counts and the power is as it was. -/
structure Keeps (d d' : Dispatcher n) : Prop where
  inflightHi : d'.inflightHi = d.inflightHi
  inflightLo : d'.inflightLo = d.inflightLo
  burst : d'.burst = d.burst
  sending : d'.sending = d.sending

theorem Keeps.refl (d : Dispatcher n) : Keeps d d := ⟨rfl, rfl, rfl, rfl⟩

theorem Keeps.trans {d₁ : Dispatcher n} (h : Keeps d d₁) (h' : Keeps d₁ d') : Keeps d d' :=
  ⟨h'.1.trans h.1, h'.2.trans h.2, h'.3.trans h.3, h'.4.trans h.4⟩

@[simp] theorem setQ_q_self (d : Dispatcher n) (rb : Fin n) (q : Drawqueue) :
    (d.setQ rb q).q rb = q := Function.update_self ..

theorem setQ_q_of_ne {rb' : Fin n} (h : rb' ≠ rb) (d : Dispatcher n) (q : Drawqueue) :
    (d.setQ rb q).q rb' = d.q rb' := Function.update_of_ne h ..

theorem total_setQ (hrb : rb ∈ S) (d : Dispatcher n) (q : Drawqueue) :
    (d.setQ rb q).total S + (d.q rb).inflight = d.total S + q.inflight := by
  unfold total
  rw [← Finset.add_sum_erase S _ hrb, ← Finset.add_sum_erase S (fun rb => (d.q rb).inflight) hrb]
  have hrest : ∑ x ∈ S.erase rb, ((d.setQ rb q).q x).inflight =
      ∑ x ∈ S.erase rb, (d.q x).inflight :=
    Finset.sum_congr rfl fun x hx => by rw [setQ_q_of_ne (Finset.ne_of_mem_erase hx)]
  rw [hrest, setQ_q_self]
  omega

theorem setQ_setQ (d : Dispatcher n) (rb : Fin n) (q q' : Drawqueue) :
    (d.setQ rb q).setQ rb q' = d.setQ rb q' := by
  unfold setQ
  dsimp only
  rw [Function.update_idem]

theorem setQ_self (d : Dispatcher n) (rb : Fin n) : d.setQ rb (d.q rb) = d := by
  unfold setQ
  rw [Function.update_eq_self]

/-- A count raised and lowered. -/
theorem lower_raise (d : Dispatcher n) (rb : Fin n) : (d.raise rb).lower rb = d := by
  have hq : ({ d.q rb with inflight := (d.q rb).inflight + 1 - 1 } : Drawqueue) = d.q rb := rfl
  unfold raise lower
  simp only [setQ, Function.update_self, Function.update_idem, Nat.add_sub_cancel]
  rw [Function.update_eq_self]

theorem total_eq_zero_iff : d.total S = 0 ↔ ∀ rb ∈ S, (d.q rb).inflight = 0 :=
  Finset.sum_eq_zero_iff

/-! ## Submission -/

theorem submitted_raise (d : Dispatcher n) (rb : Fin n) (o : Outcome) :
    (d.raise rb).submitted o =
      if d.inflight + 1 = 1 then
        if o.submitFails then { d with power := false, votes := d.votes - 1 }.raise rb
        else { d with active := true }.raise rb
      else d.raise rb := rfl

/-- **What a submission does**: it fails and leaves all but the power as it was, or it puts
    the command into the ring.  The vote follows the power in any case. -/
theorem sendcmd_spec (hvotes : d.votes = d.power.toNat) (rb : Fin n) (c : Cmd) (o : Outcome) :
    ∃ power active, let d₀ := { d with power, votes := power.toNat, active }
      d.sendcmd rb c o = (d₀, false) ∨
        (d.sendcmd rb c o = ((d₀.raise rb).put rb c, true) ∧ o.halted = false ∧
          o.submitFails = false) := by
  unfold sendcmd
  by_cases hh : o.halted
  · refine ⟨d.power, d.active, .inl ?_⟩
    rw [if_pos hh, ← hvotes]
  rw [if_neg hh]
  rw [Bool.not_eq_true] at hh
  -- the power after `turnOn`, and whether this is the first command in flight
  have hon : (d.raise rb).turnOn o = none ∨ ∃ power, (power = true ∨ d.inflight + 1 ≠ 1) ∧
      (d.raise rb).turnOn o = some ({ d with power, votes := power.toNat }.raise rb) := by
    unfold turnOn
    split
    · rename_i hfirst
      split
      · exact .inl rfl
      · refine .inr ⟨true, .inl rfl, ?_⟩
        have hpower : d.power = false := hfirst.2
        simp [raise, setQ, hvotes, hpower]
    · rename_i hnot
      refine .inr ⟨d.power, ?_, ?_⟩
      · by_cases hp : d.power = true
        · exact .inl hp
        · exact .inr fun h1 => hnot ⟨h1, Bool.eq_false_iff.mpr hp⟩
      · rw [← hvotes]
  rcases hon with hon | ⟨power, hpower, hon⟩
  · refine ⟨d.power, d.active, .inl ?_⟩
    rw [hon, ← hvotes]
    exact congrArg (·, false) (lower_raise d rb)
  rw [hon]
  dsimp only
  by_cases hs : o.submitFails
  · rw [if_pos hs]
    by_cases h1 : d.inflight + 1 = 1
    · refine ⟨false, d.active, .inl ?_⟩
      obtain rfl := hpower.resolve_right (absurd h1)
      rw [submitted_raise, if_pos h1, if_pos hs]
      exact congrArg (·, false) (lower_raise { d with power := false, votes := 0 } rb)
    · refine ⟨power, d.active, .inl ?_⟩
      rw [submitted_raise, if_neg h1]
      exact congrArg (·, false) (lower_raise { d with power, votes := power.toNat } rb)
  · rw [if_neg hs]
    rw [Bool.not_eq_true] at hs
    by_cases h1 : d.inflight + 1 = 1
    · refine ⟨power, true, .inr ⟨?_, hh, hs⟩⟩
      rw [submitted_raise, if_pos h1, if_neg (by simp [hs])]
    · refine ⟨power, d.active, .inr ⟨?_, hh, hs⟩⟩
      rw [submitted_raise, if_neg h1]

/-- A submission that nothing stops succeeds when other commands keep the GPU on. -/
theorem sendcmd_succeeds (hne : d.inflight ≠ 0) (hh : o.halted = false)
    (hs : o.submitFails = false) (rb : Fin n) (c : Cmd) : (d.sendcmd rb c o).2 = true := by
  have hnot : ¬ ((d.raise rb).inflight = 1 ∧ (d.raise rb).power = false) :=
    fun h => hne (Nat.succ.inj h.1)
  unfold sendcmd turnOn
  rw [hh, if_neg Bool.false_ne_true, if_neg hnot]
  dsimp only
  rw [hs]
  rfl

/-- A submission that nothing stops. -/
theorem sendcmd_ok (d : Dispatcher n) (rb : Fin n) (c : Cmd) :
    ∃ power votes active, d.sendcmd rb c ⟨false, false, false⟩ =
      ((Dispatcher.raise { d with power, votes, active } rb).put rb c, true) := by
  unfold sendcmd turnOn submitted
  by_cases hfirst : d.inflight = 0
  · cases hp : d.power
    · exact ⟨true, d.votes + 1, true, by simp [hfirst, hp, raise, Dispatcher.setQ]⟩
    · exact ⟨true, d.votes, true, by simp [hfirst, hp, raise, Dispatcher.setQ]⟩
  · exact ⟨d.power, d.votes, d.active, by simp [hfirst, raise, Dispatcher.setQ]⟩

/-- One ring and the sum change by the same number. -/
theorem Counted.setQ (h : d.Counted S) (hrb : rb ∈ S) {q : Drawqueue} (hq : q.Good) {k : ℕ}
    (hk : k + (d.q rb).inflight = d.inflight + q.inflight) :
    Counted { d.setQ rb q with inflight := k } S := by
  refine ⟨fun rb' => ?_, ?_, h.votes⟩
  · by_cases hne : rb' = rb
    · subst hne
      exact (setQ_q_self d rb' q).symm ▸ hq
    · exact (setQ_q_of_ne hne d q).symm ▸ h.good rb'
  · have htotal := total_setQ hrb d q
    have hsum := h.sum
    change k = (d.setQ rb q).total S
    omega

theorem Counted.put (h : d.Counted S) (hrb : rb ∈ S)
    (hroom : (d.q rb).flying.length + 1 < drawqueueSize) (c : Cmd) :
    ((d.raise rb).put rb c).Counted S := by
  have hput : (d.raise rb).put rb c = { d.setQ rb { d.q rb with
      inflight := (d.q rb).inflight + 1
      cmdQ := Function.update (d.q rb).cmdQ (d.q rb).tail (some c)
      tail := drawqueueNext (d.q rb).tail
      flying := (d.q rb).flying ++ [c] } with inflight := d.inflight + 1 } := by
    simp [Dispatcher.put, raise, Dispatcher.setQ]
  rw [hput]
  refine h.setQ hrb ((h.good rb).push hroom c) ?_
  dsimp only
  omega

/-! ## Retirement -/

theorem Counted.take (h : d.Counted S) (hrb : rb ∈ S) (hl : (d.q rb).flying = c :: l) :
    ((d.lower rb).take rb c).Counted S ∧ (((d.lower rb).take rb c).q rb).flying = l := by
  have htake : (d.lower rb).take rb c = { d.setQ rb { d.q rb with
      inflight := (d.q rb).inflight - 1
      cmdQ := Function.update (d.q rb).cmdQ (d.q rb).head none
      head := drawqueueNext (d.q rb).head
      flying := l } with inflight := d.inflight - 1 } := by
    simp [Dispatcher.take, lower, Dispatcher.setQ, hl]
  rw [htake]
  refine ⟨h.setQ hrb ((h.good rb).pop hl) ?_, by simp [Dispatcher.setQ]⟩
  obtain ⟨pos, hq⟩ := h.good rb
  have hpos : (d.q rb).inflight = l.length + 1 := by
    rw [hq.inflight, hl]
    rfl
  have hsum := h.sum
  have hle : (d.q rb).inflight ≤ d.total S :=
    Finset.single_le_sum (f := fun rb => (d.q rb).inflight) (fun _ _ => Nat.zero_le _) hrb
  dsimp only
  omega

/-- **Where the commands go that are taken from a ring**: those taken went to `gone`, and all
    else is as it was, but the counts. -/
structure Takes (d : Dispatcher n) (rb : Fin n) (gone : List Cmd) (d' : Dispatcher n) : Prop where
  flying : (d.q rb).flying = gone ++ (d'.q rb).flying
  others : ∀ rb' ≠ rb, d'.q rb' = d.q rb'
  retired : d'.retired = d.retired ++ gone
  destroyed : d'.destroyed = d.destroyed
  bad : d'.bad = d.bad
  keeps : Keeps d d'

theorem Takes.nil (d : Dispatcher n) (rb : Fin n) : Takes d rb [] d :=
  ⟨rfl, fun _ _ => rfl, (List.append_nil _).symm, rfl, rfl, .refl d⟩

/-- The commands are taken up to the first whose timestamp has not passed. -/
theorem retireFrom_spec (h : d.Counted S) (hrb : rb ∈ S) (passed : Cmd → Bool) {fuel : ℕ}
    (hfuel : (d.q rb).flying.length ≤ fuel) :
    (d.retireFrom rb passed fuel).Counted S ∧
      Takes d rb ((d.q rb).flying.takeWhile passed) (d.retireFrom rb passed fuel) := by
  induction fuel generalizing d with
  | zero =>
    rw [List.length_eq_zero_iff.mp (Nat.le_zero.mp hfuel)]
    exact ⟨h, .nil d rb⟩
  | succ fuel ih =>
    obtain ⟨pos, hq⟩ := h.good rb
    unfold retireFrom
    cases hl : (d.q rb).flying with
    | nil =>
      have hempty : (d.q rb).isEmpty = true := by
        rw [Drawqueue.isEmpty, hq.head, hq.tail, hl]
        simp
      rw [if_pos hempty]
      exact ⟨h, .nil d rb⟩
    | cons c l =>
      have hcell := hq.holds.cell 0 (by simp [hl])
      have hne : pos % drawqueueSize ≠ (pos + (d.q rb).flying.length) % drawqueueSize := by
        rw [hl]
        have hlt := hq.lt
        rw [hl] at hlt
        exact fun heq => Nat.succ_ne_zero _ ((Ring.mod_eq_iff hlt).mp heq)
      have hempty : ¬ (d.q rb).isEmpty = true := by
        rw [Drawqueue.isEmpty, hq.head, hq.tail]
        simpa using hne
      have hc : (d.q rb).cmdQ (d.q rb).head = some c := by
        rw [Nat.add_zero, ← hq.head] at hcell
        rw [hcell]
        simp [hl]
      rw [if_neg hempty, hc]
      dsimp only
      cases hp : passed c with
      | false =>
        rw [List.takeWhile_cons_of_neg (by simp [hp])]
        exact ⟨h, .nil d rb⟩
      | true =>
        obtain ⟨hcounted, hflying⟩ := h.take hrb hl
        have hnext : Counted { (d.lower rb).take rb c with retired := d.retired ++ [c] } S :=
          ⟨hcounted.good, hcounted.sum, hcounted.votes⟩
        rw [if_pos rfl, List.takeWhile_cons_of_pos hp]
        rw [hl, List.length_cons] at hfuel
        obtain ⟨hend, htakes⟩ := ih hnext (by
          dsimp only
          rw [hflying]
          exact Nat.le_of_succ_le_succ hfuel)
        dsimp only at htakes
        rw [hflying] at htakes
        refine ⟨hend, ?_, fun rb' hne => ?_, ?_, ?_, ?_, ?_⟩
        · rw [hl, List.cons_append, ← htakes.flying]
          exact congrArg (c :: ·) hflying.symm
        · rw [htakes.others rb' hne]
          change (((d.lower rb).take rb c).q rb') = d.q rb'
          unfold Dispatcher.take lower
          rw [setQ_q_of_ne hne]
          exact setQ_q_of_ne hne _ _
        · rw [htakes.retired]
          simp
        · rw [htakes.destroyed]
          rfl
        · rw [htakes.bad]
          rfl
        · obtain ⟨h₁, h₂, h₃, h₄⟩ := htakes.keeps
          exact ⟨h₁, h₂, h₃, h₄⟩

theorem retireDrawqueue_spec (h : d.Counted S) (hrb : rb ∈ S) (passed : Cmd → Bool) :
    (d.retireDrawqueue passed rb).Counted S ∧
      Takes d rb ((d.q rb).flying.takeWhile passed) (d.retireDrawqueue passed rb) :=
  retireFrom_spec h hrb passed (h.good rb).lt.le

/-! ## Recovery -/

theorem reduceOption_map_some (l : List Cmd) : (l.map some).reduceOption = l := by
  induction l with
  | nil => rfl
  | cons c l ih => rw [List.map_cons, List.reduceOption_cons_of_some, ih]

theorem reduceOption_map_filter (p : Cmd → Bool) (replay : List (Option Cmd)) :
    (replay.map (Option.filter p)).reduceOption = replay.reduceOption.filter p := by
  induction replay with
  | nil => rfl
  | cons x replay ih =>
    cases x with
    | none => exact ih
    | some c =>
      rw [List.map_cons, Option.filter_some, List.reduceOption_cons_of_some, List.filter_cons]
      split
      · rw [List.reduceOption_cons_of_some, ih]
      · exact ih

/-- The commands of bad contexts are destroyed, the others stay where they are. -/
theorem removeInvalidated_eq (d : Dispatcher n) (replay : List (Option Cmd)) :
    d.removeInvalidated replay =
      ({ d with destroyed := d.destroyed ++ replay.reduceOption.filter fun c => d.bad c.ctx },
        replay.map (Option.filter fun c => !d.bad c.ctx)) := by
  induction replay generalizing d with
  | nil => simp [removeInvalidated]
  | cons x replay ih =>
    cases x with
    | none =>
      simp only [removeInvalidated, ih]
      rfl
    | some c =>
      unfold removeInvalidated
      split_ifs with hbad
      · simp only [ih]
        simp [destroy, hbad, Option.filter_some]
      · simp only [ih]
        simp [hbad, Option.filter_some]

/-- **Where the commands go that are to be replayed**: those sent are in the ring, in the
    order they had, the dead are destroyed and their contexts bad, and these are all. -/
structure Replays (d : Dispatcher n) (rb : Fin n) (todo sent dead : List Cmd)
    (d' : Dispatcher n) : Prop where
  flying : (d'.q rb).flying = (d.q rb).flying ++ sent
  order : ∃ kept, kept.Sublist todo ∧ List.Forall₂ Cmd.Resubmitted kept sent
  all : (sent.map Cmd.key ++ dead.map Cmd.key).Perm (todo.map Cmd.key)
  destroyed : d'.destroyed = d.destroyed ++ dead
  dead_bad : ∀ c ∈ dead, d'.bad c.ctx = true
  bad_mono : ∀ ctx, d.bad ctx = true → d'.bad ctx = true
  others : ∀ rb' ≠ rb, d'.q rb' = d.q rb'
  retired : d'.retired = d.retired
  keeps : Keeps d d'

theorem Replays.nil (d : Dispatcher n) (rb : Fin n) : Replays d rb [] [] [] d :=
  ⟨(List.append_nil _).symm, ⟨[], .slnil, .nil⟩, .refl _, (List.append_nil _).symm,
    by intros; contradiction, fun _ => id, fun _ _ => rfl, rfl, .refl d⟩

/-- A command that is sent, before the others. -/
theorem Replays.sent_first {d₁ : Dispatcher n} {c' : Cmd} {todo sent dead : List Cmd}
    (hr : Replays d₁ rb todo sent dead d') (hc' : c.Resubmitted c')
    (hflying : (d₁.q rb).flying = (d.q rb).flying ++ [c'])
    (hothers : ∀ rb' ≠ rb, d₁.q rb' = d.q rb') (hdestroyed : d₁.destroyed = d.destroyed)
    (hbad : d₁.bad = d.bad) (hretired : d₁.retired = d.retired) (hkeeps : Keeps d d₁) :
    Replays d rb (c :: todo) (c' :: sent) dead d' where
  flying := by rw [hr.flying, hflying, List.append_assoc, List.singleton_append]
  order := by
    obtain ⟨kept, hkept, hsent⟩ := hr.order
    exact ⟨c :: kept, hkept.cons_cons c, .cons hc' hsent⟩
  all := by
    obtain ⟨first, rfl⟩ := hc'
    rw [List.map_cons, List.map_cons, Cmd.resubmit_key]
    exact hr.all.cons _
  destroyed := by rw [hr.destroyed, hdestroyed]
  dead_bad := hr.dead_bad
  bad_mono ctx hctx := hr.bad_mono ctx (by rw [hbad, hctx])
  others rb' hne := (hr.others rb' hne).trans (hothers rb' hne)
  retired := hr.retired.trans hretired
  keeps := hkeeps.trans hr.keeps

/-- Commands of bad contexts that are destroyed, before the others. -/
theorem Replays.purged_first {d₁ : Dispatcher n} {todo left purged sent dead : List Cmd}
    (hr : Replays d₁ rb left sent dead d') (hq : d₁.q = d.q) (hleft : left.Sublist todo)
    (hall : (purged.map Cmd.key ++ left.map Cmd.key).Perm (todo.map Cmd.key))
    (hdestroyed : d₁.destroyed = d.destroyed ++ purged)
    (hbad : ∀ c ∈ purged, d₁.bad c.ctx = true)
    (hmono : ∀ ctx, d.bad ctx = true → d₁.bad ctx = true) (hretired : d₁.retired = d.retired)
    (hkeeps : Keeps d d₁) : Replays d rb todo sent (purged ++ dead) d' where
  flying := by rw [hr.flying, hq]
  order := by
    obtain ⟨kept, hkept, hsent⟩ := hr.order
    exact ⟨kept, hkept.trans hleft, hsent⟩
  all := by
    rw [List.map_append]
    refine .trans List.perm_append_comm (.trans ?_ hall)
    rw [List.append_assoc]
    exact (List.perm_append_comm.trans hr.all).append_left _
  destroyed := by rw [hr.destroyed, hdestroyed, List.append_assoc]
  dead_bad c hc := by
    rcases List.mem_append.mp hc with hc | hc
    · exact hr.bad_mono _ (hbad c hc)
    · exact hr.dead_bad c hc
  bad_mono ctx hctx := hr.bad_mono ctx (hmono ctx hctx)
  others rb' hne := by rw [hr.others rb' hne, hq]
  retired := hr.retired.trans hretired
  keeps := hkeeps.trans hr.keeps

theorem replayFrom_spec (h : d.Counted S) (hrb : rb ∈ S) (outcome : ℕ → Outcome)
    {replay : List (Option Cmd)} {fuel : ℕ} (hfuel : replay.length ≤ fuel)
    (hroom : (d.q rb).flying.length + replay.length < drawqueueSize) (i : ℕ) (first : Bool) :
    (replayFrom rb outcome fuel i first d replay).Counted S ∧
      ∃ sent dead, Replays d rb replay.reduceOption sent dead
        (replayFrom rb outcome fuel i first d replay) := by
  induction fuel generalizing d replay i first with
  | zero =>
    obtain rfl := List.length_eq_zero_iff.mp (Nat.le_zero.mp hfuel)
    exact ⟨h, [], [], .nil d rb⟩
  | succ fuel ih =>
    cases replay with
    | nil => exact ⟨h, [], [], .nil d rb⟩
    | cons x replay =>
      rw [List.length_cons] at hfuel hroom
      have hfuel := Nat.le_of_succ_le_succ hfuel
      cases x with
      | none =>
        unfold replayFrom
        exact ih h hfuel (by omega) (i + 1) first
      | some c =>
        unfold replayFrom
        dsimp only
        generalize hc' : c.resubmit first = c'
        have hres : c.Resubmitted c' := ⟨first, hc'.symm⟩
        have hkey : c'.key = c.key := by rw [← hc', Cmd.resubmit_key]
        have hctx : c'.ctx = c.ctx := congrArg (·.2.1) hkey
        obtain ⟨power, active, hsend⟩ := sendcmd_spec h.votes rb c' (outcome i)
        have h₀ : Counted { d with power, votes := power.toNat, active } S :=
          ⟨h.good, h.sum, rfl⟩
        rcases hsend with hsend | ⟨hsend, -⟩
        · -- the context is guilty, and what is left of it destroyed
          rw [hsend]
          dsimp only
          rw [if_neg Bool.false_ne_true, removeInvalidated_eq, List.map_cons, List.tail_cons,
            List.reduceOption_cons_of_some]
          let bad : Cmd → Bool := fun x => Function.update d.bad c'.ctx true x.ctx
          have hself : bad c' = true := by simp [bad]
          let d₁ : Dispatcher n := { d with
            power
            votes := power.toNat
            active
            bad := Function.update d.bad c'.ctx true
            destroyed := d.destroyed ++ (c' :: replay.reduceOption).filter bad }
          have h₁ : d₁.Counted S := ⟨h.good, h.sum, rfl⟩
          change (replayFrom rb outcome fuel (i + 1) false d₁
            (replay.map (Option.filter fun x => !bad x))).Counted S ∧ ∃ sent dead,
              Replays d rb _ sent dead (replayFrom rb outcome fuel (i + 1) false d₁
                (replay.map (Option.filter fun x => !bad x)))
          obtain ⟨hend, sent, dead, hr⟩ := @ih d₁ h₁ (replay.map (Option.filter fun x => !bad x))
            (by rwa [List.length_map]) (by rw [List.length_map]; exact Nat.lt_of_succ_lt hroom)
            (i + 1) false
          refine ⟨hend, sent, (c' :: replay.reduceOption).filter bad ++ dead, ?_⟩
          rw [reduceOption_map_filter] at hr
          refine hr.purged_first rfl (List.filter_sublist.trans (List.sublist_cons_self _ _)) ?_ rfl
            (fun x hx => (List.mem_filter.mp hx).2) (fun ctx hbad => ?_) rfl ⟨rfl, rfl, rfl, rfl⟩
          · rw [List.filter_cons_of_pos hself, List.map_cons, List.cons_append,
              List.reduceOption_cons_of_some, List.map_cons, hkey]
            exact (filter_key_perm bad _).cons _
          · by_cases hne : ctx = c'.ctx
            · subst hne
              exact Function.update_self ..
            · exact (Function.update_of_ne hne ..).trans hbad
        · rw [hsend]
          dsimp only
          rw [if_pos rfl]
          have hroom₀ : (d.q rb).flying.length + 1 < drawqueueSize := by omega
          have h₁ := h₀.put hrb hroom₀ c'
          generalize hd₁ : ((Dispatcher.raise { d with power, votes := power.toNat, active }
            rb).put rb c') = d₁ at h₁ ⊢
          have hflying : (d₁.q rb).flying = (d.q rb).flying ++ [c'] := by
            rw [← hd₁]
            simp [Dispatcher.put, raise]
          have hothers : ∀ rb' ≠ rb, d₁.q rb' = d.q rb' := by
            intro rb' hne
            rw [← hd₁]
            exact (setQ_q_of_ne hne _ _).trans (setQ_q_of_ne hne _ _)
          obtain ⟨hend, sent, dead, hr⟩ := ih h₁ hfuel
            (by rw [hflying, List.length_append, List.length_singleton]; omega) (i + 1) false
          refine ⟨hend, c' :: sent, dead, ?_⟩
          rw [List.reduceOption_cons_of_some]
          refine hr.sent_first hres hflying hothers ?_ ?_ ?_ ?_ <;> subst hd₁
          · rfl
          · rfl
          · rfl
          · exact ⟨rfl, rfl, rfl, rfl⟩

/-- A ring that is reset joins those that are counted. -/
theorem Counted.resetQ (h : d.Counted S) (hrb : rb ∉ S) :
    (d.resetQ rb).Counted (insert rb S) ∧ ((d.resetQ rb).q rb).flying = [] ∧
      ∀ rb' ≠ rb, (d.resetQ rb).q rb' = d.q rb' := by
  have hflying : ((d.resetQ rb).q rb).flying = [] := by
    simp only [Dispatcher.resetQ, setQ_q_self, (h.good rb).contents]
    refine List.filter_eq_nil_iff.mpr fun c hc => ?_
    simpa using hc
  have hothers : ∀ rb' ≠ rb, (d.resetQ rb).q rb' = d.q rb' := fun rb' hne => setQ_q_of_ne hne _ _
  refine ⟨⟨fun rb' => ?_, ?_, h.votes⟩, hflying, hothers⟩
  · by_cases hne : rb' = rb
    · subst hne
      have hempty : (d.resetQ rb').q rb' = ⟨(d.q rb').cmdQ, 0, 0, 0, []⟩ := by
        rw [← hflying]
        simp [Dispatcher.resetQ]
      rw [hempty]
      exact Drawqueue.good_empty _
    · rw [hothers rb' hne]
      exact h.good rb'
  · have hzero : ((d.resetQ rb).q rb).inflight = 0 := by simp [Dispatcher.resetQ]
    have hrest : (d.resetQ rb).total S = d.total S :=
      Finset.sum_congr rfl fun x hx => by rw [hothers x fun heq => hrb (heq ▸ hx)]
    rw [total, Finset.sum_insert hrb, hzero, Nat.zero_add]
    exact h.sum.trans hrest.symm

/-- Every command is destroyed, its context guilty. -/
theorem foldl_guilty (d : Dispatcher n) (l : List Cmd) :
    l.foldl (fun d c => (d.setGuilty c.ctx).destroy c) d =
      { d with
        bad := fun ctx => d.bad ctx || l.any fun c => c.ctx == ctx
        destroyed := d.destroyed ++ l } := by
  induction l generalizing d with
  | nil => simp
  | cons c l ih =>
    rw [List.foldl_cons, ih]
    have hbad :
        (fun ctx => (Function.update d.bad c.ctx true) ctx || l.any fun x => x.ctx == ctx) =
          fun ctx => d.bad ctx || (c :: l).any fun x => x.ctx == ctx := by
      funext ctx
      by_cases hne : ctx = c.ctx
      · simp [hne]
      · have hbeq : (c.ctx == ctx) = false := beq_eq_false_iff_ne.mpr (Ne.symm hne)
        rw [Function.update_of_ne hne, List.any_cons, hbeq, Bool.false_or]
    simp [setGuilty, destroy, hbad]

/-- **What the recovery of a ring does**: its commands are replayed or destroyed, and the ring
    is counted again. -/
theorem recoverDispatchQ_spec (h : d.Counted S) (hrb : rb ∉ S) (r : Replay) :
    (d.recoverDispatchQ rb r).Counted (insert rb S) ∧
      ∃ sent dead, ((d.recoverDispatchQ rb r).q rb).flying = sent ∧
        Replays (d.resetQ rb) rb (r.todo (d.q rb).flying) sent dead (d.recoverDispatchQ rb r) := by
  have hcontents : (d.q rb).contents.reduceOption = (d.q rb).flying := by
    rw [(h.good rb).contents, reduceOption_map_some]
  obtain ⟨hcounted, hflying, -⟩ := h.resetQ hrb
  unfold recoverDispatchQ
  dsimp only
  rw [hcontents]
  split_ifs with halloc
  · rw [foldl_guilty]
    have htodo : r.todo (d.q rb).flying = (d.q rb).flying := if_neg (by simp [halloc])
    rw [htodo]
    refine ⟨⟨hcounted.good, hcounted.sum, hcounted.votes⟩, [], (d.q rb).flying, hflying,
      (List.append_nil _).symm, ⟨[], List.nil_sublist _, .nil⟩, .refl _, rfl, fun c hc => ?_,
      fun ctx hctx => ?_, fun _ _ => rfl, rfl, ⟨rfl, rfl, rfl, rfl⟩⟩
    · have hany : (d.q rb).flying.any (fun x => x.ctx == c.ctx) = true :=
        List.any_eq_true.mpr ⟨c, hc, beq_self_eq_true _⟩
      change (d.bad c.ctx || _) = true
      rw [hany, Bool.or_true]
    · change (d.bad ctx || _) = true
      have hctx : d.bad ctx = true := hctx
      rw [hctx, Bool.true_or]
  · have htodo : r.todo (d.q rb).flying = r.edit (d.q rb).flying := if_pos (by simpa using halloc)
    rw [removeInvalidated_eq, reduceOption_map_some, htodo]
    have hlength : (r.edit (d.q rb).flying).length = (d.q rb).flying.length := by
      simpa using congrArg List.length (r.edit_key (d.q rb).flying)
    generalize r.edit (d.q rb).flying = todo at hlength ⊢
    let bad : Cmd → Bool := fun c => d.bad c.ctx || r.bad (d.q rb).flying c.ctx
    let d₁ : Dispatcher n := { d.resetQ rb with
      bad := fun ctx => d.bad ctx || r.bad (d.q rb).flying ctx
      destroyed := d.destroyed ++ todo.filter bad }
    have h₁ : d₁.Counted (insert rb S) := ⟨hcounted.good, hcounted.sum, hcounted.votes⟩
    have hroom : (d₁.q rb).flying.length +
        ((todo.map some).map (Option.filter fun c => !bad c)).length < drawqueueSize := by
      have hnil : (d₁.q rb).flying = [] := hflying
      rw [hnil, List.length_map, List.length_map, hlength, List.length_nil, Nat.zero_add]
      exact (h.good rb).lt
    obtain ⟨hend, sent, dead, hr⟩ := replayFrom_spec h₁ (Finset.mem_insert_self rb S) r.outcome
      le_rfl hroom 0 true
    rw [reduceOption_map_filter, reduceOption_map_some] at hr
    refine ⟨hend, sent, todo.filter bad ++ dead, ?_, ?_⟩
    · refine hr.flying.trans ?_
      change ((d.resetQ rb).q rb).flying ++ sent = sent
      rw [hflying, List.nil_append]
    · refine hr.purged_first rfl List.filter_sublist (filter_key_perm bad todo)
        rfl (fun c hc => (List.mem_filter.mp hc).2) (fun ctx hctx => ?_) rfl ⟨rfl, rfl, rfl, rfl⟩
      change (d.bad ctx || r.bad (d.q rb).flying ctx) = true
      have hctx : d.bad ctx = true := hctx
      rw [hctx, Bool.true_or]

/-! ## All ringbuffers -/

/-- What the retirement of several drawqueues took from each. -/
structure TakesAll (d : Dispatcher n) (rbs : List (Fin n)) (gone : Fin n → List Cmd)
    (d' : Dispatcher n) : Prop where
  flying : ∀ rb ∈ rbs, (d.q rb).flying = gone rb ++ (d'.q rb).flying
  others : ∀ rb ∉ rbs, d'.q rb = d.q rb
  retired : d'.retired = d.retired ++ rbs.flatMap gone
  destroyed : d'.destroyed = d.destroyed
  bad : d'.bad = d.bad
  keeps : Keeps d d'

theorem foldl_retireDrawqueue (h : d.Counted S) (passed : Cmd → Bool) {rbs : List (Fin n)}
    (hrbs : ∀ rb ∈ rbs, rb ∈ S) (hnodup : rbs.Nodup) :
    (rbs.foldl (retireDrawqueue · passed) d).Counted S ∧
      TakesAll d rbs (fun rb => (d.q rb).flying.takeWhile passed)
        (rbs.foldl (retireDrawqueue · passed) d) := by
  induction rbs generalizing d with
  | nil =>
    exact ⟨h, nofun, fun _ _ => rfl, (List.append_nil _).symm, rfl, rfl, .refl d⟩
  | cons rb rbs ih =>
    obtain ⟨hnot, hnodup⟩ := List.nodup_cons.mp hnodup
    obtain ⟨h₁, ht⟩ := retireDrawqueue_spec h (hrbs rb List.mem_cons_self) passed
    obtain ⟨hend, hts⟩ :=
      ih h₁ (fun rb' hrb' => hrbs rb' (List.mem_cons_of_mem _ hrb')) hnodup
    have hsame : ∀ rb' ∈ rbs, (d.retireDrawqueue passed rb).q rb' = d.q rb' :=
      fun rb' hrb' => ht.others rb' fun heq => hnot (heq ▸ hrb')
    refine ⟨hend, ?_, fun rb' hrb' => ?_, ?_, ?_, ?_, ?_⟩
    · rintro rb' (_ | ⟨_, hrb'⟩)
      · rw [List.foldl_cons, hts.others rb hnot]
        exact ht.flying
      · have hflying := hts.flying rb' hrb'
        rwa [hsame rb' hrb'] at hflying
    · rw [List.mem_cons, not_or] at hrb'
      exact (hts.others rb' hrb'.2).trans (ht.others rb' hrb'.1)
    · rw [List.foldl_cons, hts.retired, List.flatMap_cons, ht.retired, List.append_assoc]
      congr 2
      exact List.flatMap_congr fun rb' hrb' => by rw [hsame rb' hrb']
    · exact hts.destroyed.trans ht.destroyed
    · exact hts.bad.trans ht.bad
    · exact ht.keeps.trans hts.keeps

/-- What the recovery of several drawqueues made of the commands of each. -/
structure ReplaysAll (d : Dispatcher n) (r : Fin n → Replay) (rbs : List (Fin n))
    (sent dead : Fin n → List Cmd) (d' : Dispatcher n) : Prop where
  flying : ∀ rb ∈ rbs, (d'.q rb).flying = sent rb
  order : ∀ rb ∈ rbs, ∃ kept, kept.Sublist ((r rb).todo (d.q rb).flying) ∧
    List.Forall₂ Cmd.Resubmitted kept (sent rb)
  all : ∀ rb ∈ rbs,
    ((sent rb).map Cmd.key ++ (dead rb).map Cmd.key).Perm ((d.q rb).flying.map Cmd.key)
  destroyed : d'.destroyed = d.destroyed ++ rbs.flatMap dead
  dead_bad : ∀ rb ∈ rbs, ∀ c ∈ dead rb, d'.bad c.ctx = true
  bad_mono : ∀ ctx, d.bad ctx = true → d'.bad ctx = true
  others : ∀ rb ∉ rbs, d'.q rb = d.q rb
  retired : d'.retired = d.retired
  keeps : Keeps d d'

theorem foldl_recoverDispatchQ (h : d.Counted S) (r : Fin n → Replay) {rbs : List (Fin n)}
    (hrbs : ∀ rb ∈ rbs, rb ∉ S) (hnodup : rbs.Nodup) :
    (rbs.foldl (fun d rb => d.recoverDispatchQ rb (r rb)) d).Counted (S ∪ rbs.toFinset) ∧
      ∃ sent dead, ReplaysAll d r rbs sent dead
        (rbs.foldl (fun d rb => d.recoverDispatchQ rb (r rb)) d) := by
  induction rbs generalizing d S with
  | nil =>
    refine ⟨by simpa using h, fun _ => [], fun _ => [], nofun, nofun, nofun,
      (List.append_nil _).symm, nofun, fun _ => id, fun _ _ => rfl, rfl, .refl d⟩
  | cons rb rbs ih =>
    obtain ⟨hnot, hnodup⟩ := List.nodup_cons.mp hnodup
    have hne : ∀ rb' ∈ rbs, rb' ≠ rb := fun rb' hrb' heq => hnot (heq ▸ hrb')
    obtain ⟨h₁, sent, dead, hsent, hr⟩ :=
      recoverDispatchQ_spec h (hrbs rb List.mem_cons_self) (r rb)
    have hothers : ∀ rb' ≠ rb, (d.recoverDispatchQ rb (r rb)).q rb' = d.q rb' :=
      fun rb' hrb' => (hr.others rb' hrb').trans (setQ_q_of_ne hrb' ..)
    obtain ⟨hend, sents, deads, hrs⟩ := ih h₁ (fun rb' hrb' hmem => by
      rcases Finset.mem_insert.mp hmem with heq | hmem
      · exact hne rb' hrb' heq
      · exact hrbs rb' (List.mem_cons_of_mem _ hrb') hmem) hnodup
    have hsame {l : List Cmd} {ls : Fin n → List Cmd} :
        ∀ rb' ∈ rbs, Function.update ls rb l rb' = ls rb' :=
      fun rb' hrb' => Function.update_of_ne (hne rb' hrb') ..
    refine ⟨?_, Function.update sents rb sent, Function.update deads rb dead, ?_, ?_, ?_, ?_, ?_,
      fun ctx hctx => ?_, fun rb' hrb' => ?_, ?_, ?_⟩
    · rwa [List.toFinset_cons, Finset.union_insert, ← Finset.insert_union]
    · rintro rb' (_ | ⟨_, hrb'⟩)
      · rw [Function.update_self, List.foldl_cons, hrs.others rb hnot, hsent]
      · rw [hsame rb' hrb']
        exact hrs.flying rb' hrb'
    · rintro rb' (_ | ⟨_, hrb'⟩)
      · rw [Function.update_self]
        exact hr.order
      · rw [hsame rb' hrb', ← hothers rb' (hne rb' hrb')]
        exact hrs.order rb' hrb'
    · rintro rb' (_ | ⟨_, hrb'⟩)
      · have hall := hr.all
        rw [Replay.todo_key] at hall
        rwa [Function.update_self, Function.update_self]
      · rw [hsame rb' hrb', hsame rb' hrb', ← hothers rb' (hne rb' hrb')]
        exact hrs.all rb' hrb'
    · rw [List.foldl_cons, hrs.destroyed, hr.destroyed, List.flatMap_cons, Function.update_self,
        List.append_assoc]
      exact congrArg (fun l => d.destroyed ++ (dead ++ l))
        (List.flatMap_congr fun x hx => (hsame x hx).symm)
    · rintro rb' (_ | ⟨_, hrb'⟩) c hc
      · rw [Function.update_self] at hc
        exact hrs.bad_mono _ (hr.dead_bad c hc)
      · rw [hsame rb' hrb'] at hc
        exact hrs.dead_bad rb' hrb' c hc
    · exact hrs.bad_mono ctx (hr.bad_mono ctx hctx)
    · rw [List.mem_cons, not_or] at hrb'
      exact (hrs.others rb' hrb'.2).trans (hothers rb' hrb'.1)
    · exact hrs.retired.trans hr.retired
    · have hreset : Keeps d (d.resetQ rb) := ⟨rfl, rfl, rfl, rfl⟩
      exact (hreset.trans hr.keeps).trans hrs.keeps

theorem nodup_recoverOrder (hung : Option (Fin n)) : (recoverOrder hung).Nodup := by
  unfold recoverOrder
  refine List.Nodup.append ?_ ((List.nodup_finRange n).filter _) fun rb hrb hrb' => ?_
  · cases hung with
    | none => exact List.nodup_nil
    | some rb => exact List.nodup_singleton rb
  · have hhung := Option.mem_toList.mp hrb
    have hne := of_decide_eq_true (List.mem_filter.mp hrb').2
    exact hne hhung

theorem mem_recoverOrder (hung : Option (Fin n)) (rb : Fin n) : rb ∈ recoverOrder hung := by
  unfold recoverOrder
  by_cases heq : hung = some rb
  · exact List.mem_append_left _ (Option.mem_toList.mpr heq)
  · exact List.mem_append_right _ (List.mem_filter.mpr ⟨List.mem_finRange rb, by simpa using heq⟩)

/-- **What the recovery does with the commands in flight** of each ringbuffer: those whose
    timestamp has passed are retired, and the others replayed or destroyed. -/
theorem recover_spec (h : d.Counted Finset.univ) (hung : Option (Fin n)) (passed : Cmd → Bool)
    (r : Fin n → Replay) :
    (d.recover hung passed r).Counted Finset.univ ∧ ∃ d₁ sent dead,
      TakesAll d (List.finRange n) (fun rb => (d.q rb).flying.takeWhile passed) d₁ ∧
        ReplaysAll d₁ r (recoverOrder hung) sent dead (d.recover hung passed r) := by
  obtain ⟨h₁, ht⟩ :=
    foldl_retireDrawqueue h passed (fun rb _ => Finset.mem_univ rb) (List.nodup_finRange n)
  have hzero :
      Counted { (List.finRange n).foldl (retireDrawqueue · passed) d with inflight := 0 } ∅ :=
    ⟨h₁.good, Finset.sum_empty.symm, h₁.votes⟩
  obtain ⟨hend, sent, dead, hr⟩ := foldl_recoverDispatchQ hzero r
    (fun rb _ hmem => absurd hmem (Finset.notMem_empty rb)) (nodup_recoverOrder hung)
  have huniv : (∅ ∪ (recoverOrder hung).toFinset : Finset (Fin n)) = Finset.univ :=
    Finset.eq_univ_iff_forall.mpr fun rb =>
      Finset.mem_union_right _ (List.mem_toFinset.mpr (mem_recoverOrder hung rb))
  rw [huniv] at hend
  refine ⟨hend, _, sent, dead, ?_, hr⟩
  exact ⟨ht.flying, ht.others, ht.retired, ht.destroyed, ht.bad, ht.keeps.1, ht.keeps.2,
    ht.keeps.3, ht.keeps.4⟩

end Dispatcher

end Sm8850.Kgsl.Inflight
