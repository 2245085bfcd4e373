/-
  Where the commands are after a fault.

  * `Accounted`: every command that was in flight is retired, back in its drawqueue, or
    destroyed with its context bad.
  * `Drawqueue.Full`: a ring whose tail has come round to its head.  `blind` forgets what only
    the reader knows, and the recovery does not look at that: a full ring is an empty one.
  * **`recovery_iff`**: when all commands are accounted for and a frame that is to be skipped
    is skipped, whatever fails on the way.
-/
import Sm8850.Kgsl.Recovery

namespace Sm8850.Kgsl.Inflight

variable {n : ℕ} {d d' : Dispatcher n} {rb : Fin n}

/-! ## What the recovery sees -/

/-- The ring without its count and the commands it was given. -/
def Drawqueue.blind (q : Drawqueue) : Drawqueue := { q with inflight := 0, flying := [] }

theorem Drawqueue.copyFrom_blind (q : Drawqueue) (fuel ptr : ℕ) :
    q.blind.copyFrom fuel ptr = q.copyFrom fuel ptr := by
  induction fuel generalizing ptr with
  | zero => rfl
  | succ fuel ih =>
    unfold Drawqueue.copyFrom
    rw [ih]
    rfl

theorem Drawqueue.contents_blind {q q' : Drawqueue} (h : q.blind = q'.blind) :
    q.contents = q'.contents := by
  have hblind (q : Drawqueue) : q.contents = q.blind.copyFrom drawqueueSize q.blind.head :=
    (q.copyFrom_blind drawqueueSize q.head).symm
  rw [hblind, hblind q', h]

namespace Dispatcher

/-- The dispatcher with its rings blind. -/
def blind (d : Dispatcher n) : Dispatcher n := { d with q := fun rb => (d.q rb).blind }

theorem blind_setQ (d : Dispatcher n) (rb : Fin n) (q : Drawqueue) :
    (d.setQ rb q).blind = d.blind.setQ rb q.blind := by
  unfold blind setQ
  congr 1
  funext rb'
  dsimp only
  by_cases h : rb' = rb
  · subst h
    rw [Function.update_self, Function.update_self]
  · rw [Function.update_of_ne h, Function.update_of_ne h]

theorem blind_put {e : Dispatcher n} (h : d.blind = e.blind) (rb : Fin n) (c : Cmd) :
    (d.put rb c).blind = (e.put rb c).blind := by
  have hput (d : Dispatcher n) : (d.put rb c).blind = (d.blind.put rb c).blind := by
    unfold put
    rw [blind_setQ, blind_setQ]
    rfl
  rw [hput, hput e, h]

theorem blind_take {e : Dispatcher n} (h : d.blind = e.blind) (rb : Fin n) (c : Cmd) :
    (d.take rb c).blind = (e.take rb c).blind := by
  have htake (d : Dispatcher n) : (d.take rb c).blind = (d.blind.take rb c).blind := by
    unfold take
    rw [blind_setQ, blind_setQ]
    rfl
  rw [htake, htake e, h]

/-- A count of a ring is not seen. -/
theorem blind_setQ_inflight (d : Dispatcher n) (rb : Fin n) (k : ℕ) :
    (d.setQ rb { d.q rb with inflight := k }).blind = d.blind := by
  rw [blind_setQ]
  exact setQ_self d.blind rb

theorem blind_raise {e : Dispatcher n} (h : d.blind = e.blind) (rb : Fin n) :
    (d.raise rb).blind = (e.raise rb).blind := by
  have hraise (d : Dispatcher n) :
      (d.raise rb).blind = { d.blind with inflight := d.blind.inflight + 1 } :=
    congrArg (fun x : Dispatcher n => { x with inflight := d.inflight + 1 })
      (blind_setQ_inflight d rb _)
  rw [hraise, hraise e, h]

/-- Whether a submission succeeds, and what becomes of the power, is the same whatever the
    rings. -/
theorem sendcmd_frame (d : Dispatcher n) (o : Outcome) :
    ∃ (power : Bool) (votes : ℕ) (active success : Bool), ∀ q rb c, sendcmd { d with q } rb c o =
      if success then ((raise { d with q, power, votes, active } rb).put rb c, true)
      else ({ d with q, power, votes, active }, false) := by
  obtain ⟨halted, getFails, submitFails⟩ := o
  cases halted with
  | true => exact ⟨d.power, d.votes, d.active, false, fun q rb c => rfl⟩
  | false =>
    by_cases hfirst : d.inflight = 0
    · -- the first command in flight takes the power with it
      cases hp : d.power <;> cases submitFails
      · cases getFails
        · exact ⟨true, d.votes + 1, true, true, fun q rb c => by
            simp [sendcmd, turnOn, submitted, raise, setQ, hfirst]⟩
        · exact ⟨false, d.votes, d.active, false, fun q rb c => by
            simp [sendcmd, turnOn, raise, lower, setQ, hfirst]⟩
      · cases getFails <;>
        exact ⟨false, d.votes, d.active, false, fun q rb c => by
          simp [sendcmd, turnOn, submitted, raise, lower, setQ, hfirst]⟩
      · exact ⟨true, d.votes, true, true, fun q rb c => by
          simp [sendcmd, turnOn, submitted, raise, setQ, hfirst]⟩
      · exact ⟨false, d.votes - 1, d.active, false, fun q rb c => by
          simp [sendcmd, turnOn, submitted, raise, lower, setQ, hfirst]⟩
    · cases submitFails with
      | true =>
        exact ⟨d.power, d.votes, d.active, false, fun q rb c => by
          simp [sendcmd, turnOn, submitted, raise, lower, setQ, hfirst]⟩
      | false =>
        exact ⟨d.power, d.votes, d.active, true, fun q rb c => by
          simp [sendcmd, turnOn, submitted, raise, setQ, hfirst]⟩

theorem blind_eq_iff {e : Dispatcher n} : d.blind = e.blind ↔
    ∃ q, e = { d with q } ∧ ∀ rb, (q rb).blind = (d.q rb).blind := by
  constructor
  · intro h
    refine ⟨e.q, ?_, fun rb => (congrFun (congrArg Dispatcher.q h) rb).symm⟩
    cases d
    cases e
    simp only [blind, Dispatcher.mk.injEq] at h
    obtain ⟨-, rfl, rfl, rfl, rfl, rfl, rfl, rfl, rfl, rfl, rfl, rfl⟩ := h
    rfl
  · rintro ⟨q, rfl, hq⟩
    unfold blind
    dsimp only
    rw [funext hq]

/-- **A submission does not look at what is blind.** -/
theorem blind_sendcmd {e : Dispatcher n} (h : d.blind = e.blind) (rb : Fin n) (c : Cmd)
    (o : Outcome) :
    (d.sendcmd rb c o).1.blind = (e.sendcmd rb c o).1.blind ∧
      (d.sendcmd rb c o).2 = (e.sendcmd rb c o).2 := by
  obtain ⟨q, rfl, hq⟩ := blind_eq_iff.mp h
  obtain ⟨power, votes, active, success, hsend⟩ := sendcmd_frame d o
  rw [hsend q rb c]
  have hsend' := hsend d.q rb c
  rw [show ({ d with q := d.q } : Dispatcher n) = d from rfl] at hsend'
  rw [hsend']
  have h₀ : blind { d with power, votes, active } = blind { d with q, power, votes, active } :=
    blind_eq_iff.mpr ⟨q, rfl, hq⟩
  cases success with
  | false => exact ⟨h₀, rfl⟩
  | true =>
    refine ⟨?_, rfl⟩
    exact blind_put (blind_raise h₀ rb) rb c

theorem blind_removeInvalidated {e : Dispatcher n} (h : d.blind = e.blind)
    (replay : List (Option Cmd)) :
    (d.removeInvalidated replay).1.blind = (e.removeInvalidated replay).1.blind ∧
      (d.removeInvalidated replay).2 = (e.removeInvalidated replay).2 := by
  obtain ⟨q, rfl, hq⟩ := blind_eq_iff.mp h
  rw [removeInvalidated_eq, removeInvalidated_eq]
  exact ⟨blind_eq_iff.mpr ⟨q, rfl, hq⟩, rfl⟩

theorem blind_setGuilty {e : Dispatcher n} (h : d.blind = e.blind) (ctx : ℕ) :
    (d.setGuilty ctx).blind = (e.setGuilty ctx).blind := by
  obtain ⟨q, rfl, hq⟩ := blind_eq_iff.mp h
  exact blind_eq_iff.mpr ⟨q, rfl, hq⟩

theorem blind_replayFrom {e : Dispatcher n} (h : d.blind = e.blind) (rb : Fin n)
    (outcome : ℕ → Outcome) (fuel i : ℕ) (first : Bool) (replay : List (Option Cmd)) :
    (replayFrom rb outcome fuel i first d replay).blind =
      (replayFrom rb outcome fuel i first e replay).blind := by
  induction fuel generalizing d e i first replay with
  | zero => exact h
  | succ fuel ih =>
    cases replay with
    | nil => exact h
    | cons x replay =>
      cases x with
      | none => exact ih h (i + 1) first replay
      | some c =>
        unfold replayFrom
        dsimp only
        obtain ⟨hsend, hsuccess⟩ := blind_sendcmd h rb (c.resubmit first) (outcome i)
        rw [hsuccess]
        split_ifs
        · exact ih hsend (i + 1) false replay
        · obtain ⟨hremove, hreplay⟩ := blind_removeInvalidated
            (blind_setGuilty hsend (c.resubmit first).ctx) (some (c.resubmit first) :: replay)
          rw [hreplay]
          exact ih hremove (i + 1) false _

theorem blind_resetQ {e : Dispatcher n} (h : d.blind = e.blind) (rb : Fin n) :
    (d.resetQ rb).blind = (e.resetQ rb).blind := by
  have hq : (d.q rb).blind = (e.q rb).blind := congrFun (congrArg Dispatcher.q h) rb
  have hcmdQ : (d.q rb).cmdQ = (e.q rb).cmdQ := (congrArg Drawqueue.cmdQ hq :)
  unfold resetQ
  rw [blind_setQ, blind_setQ, h]
  unfold Drawqueue.blind
  rw [hcmdQ]

/-- **The recovery of a ring does not look at what is blind.** -/
theorem blind_recoverDispatchQ {e : Dispatcher n} (h : d.blind = e.blind) (rb : Fin n)
    (r : Replay) : (d.recoverDispatchQ rb r).blind = (e.recoverDispatchQ rb r).blind := by
  have hcontents : (d.q rb).contents = (e.q rb).contents :=
    Drawqueue.contents_blind (congrFun (congrArg Dispatcher.q h) rb)
  have hbad : d.bad = e.bad := (congrArg Dispatcher.bad h :)
  unfold recoverDispatchQ
  dsimp only
  rw [hcontents]
  split_ifs
  · rw [foldl_guilty, foldl_guilty]
    refine blind_resetQ ?_ rb
    obtain ⟨q, rfl, hq⟩ := blind_eq_iff.mp h
    exact blind_eq_iff.mpr ⟨q, rfl, hq⟩
  · have hreset : blind { d.resetQ rb with
          bad := fun ctx => d.bad ctx || r.bad (e.q rb).contents.reduceOption ctx } =
        blind { e.resetQ rb with
          bad := fun ctx => e.bad ctx || r.bad (e.q rb).contents.reduceOption ctx } := by
      rw [hbad]
      obtain ⟨q, hd, hq⟩ := blind_eq_iff.mp (blind_resetQ h rb)
      rw [hd]
      exact blind_eq_iff.mpr ⟨q, rfl, hq⟩
    obtain ⟨hremove, hreplay⟩ := blind_removeInvalidated hreset
      ((r.edit (e.q rb).contents.reduceOption).map some)
    rw [hreplay]
    exact blind_replayFrom hremove rb r.outcome _ 0 true _

/-- The dispatcher without the sum of its counts, too. -/
def blind₀ (d : Dispatcher n) : Dispatcher n := blind { d with inflight := 0 }

/-- **A retirement does not look at any count.** -/
theorem blind₀_retireFrom {e : Dispatcher n} (h : d.blind₀ = e.blind₀) (rb : Fin n)
    (passed : Cmd → Bool) (fuel : ℕ) :
    (d.retireFrom rb passed fuel).blind₀ = (e.retireFrom rb passed fuel).blind₀ := by
  induction fuel generalizing d e with
  | zero => exact h
  | succ fuel ih =>
    have hq : (d.q rb).blind = (e.q rb).blind := congrFun (congrArg Dispatcher.q h) rb
    have hempty : (d.q rb).isEmpty = (e.q rb).isEmpty := (congrArg Drawqueue.isEmpty hq :)
    have hcmd : (d.q rb).cmdQ (d.q rb).head = (e.q rb).cmdQ (e.q rb).head :=
      (congrArg (fun q : Drawqueue => q.cmdQ q.head) hq :)
    unfold retireFrom
    rw [hempty, hcmd]
    split_ifs
    · exact h
    cases (e.q rb).cmdQ (e.q rb).head with
    | none => exact h
    | some c =>
      dsimp only
      split_ifs
      · refine ih ?_
        have hlower (d : Dispatcher n) : (d.lower rb).blind₀ = d.blind₀ :=
          blind_setQ_inflight { d with inflight := 0 } rb _
        have hretired : d.retired = e.retired := (congrArg Dispatcher.retired h :)
        have htake : ((d.lower rb).take rb c).blind₀ = ((e.lower rb).take rb c).blind₀ :=
          blind_take (d := { d.lower rb with inflight := 0 })
            (e := { e.lower rb with inflight := 0 })
            (by rw [← blind₀, ← blind₀, hlower, hlower, h]) rb c
        rw [hretired]
        exact congrArg (fun x : Dispatcher n => { x with retired := e.retired ++ [c] }) htake
      · exact h

/-- **The recovery does not look at what is blind**, nor at the sum of the counts. -/
theorem blind_recover {e : Dispatcher n} (h : d.blind₀ = e.blind₀) (hung : Option (Fin n))
    (passed : Cmd → Bool) (r : Fin n → Replay) :
    (d.recover hung passed r).blind = (e.recover hung passed r).blind := by
  have hretire (rbs : List (Fin n)) : ∀ {d e : Dispatcher n}, d.blind₀ = e.blind₀ →
      (rbs.foldl (retireDrawqueue · passed) d).blind₀ =
        (rbs.foldl (retireDrawqueue · passed) e).blind₀ := by
    induction rbs with
    | nil => exact id
    | cons rb rbs ih => exact fun h => ih (blind₀_retireFrom h rb passed drawqueueSize)
  have hrecover (rbs : List (Fin n)) : ∀ {d e : Dispatcher n}, d.blind = e.blind →
      (rbs.foldl (fun d rb => d.recoverDispatchQ rb (r rb)) d).blind =
        (rbs.foldl (fun d rb => d.recoverDispatchQ rb (r rb)) e).blind := by
    induction rbs with
    | nil => exact id
    | cons rb rbs ih => exact fun h => ih (blind_recoverDispatchQ h rb (r rb))
  exact hrecover _ (hretire _ h)

end Dispatcher

/-! ## Full rings -/

/-- Every slot holds a command, so the tail is the head. -/
structure Drawqueue.Full (q : Drawqueue) : Prop where
  tail : q.tail = q.head
  head_lt : q.head < drawqueueSize
  inflight : q.inflight = drawqueueSize
  flying : q.flying.length = drawqueueSize

namespace Dispatcher

/-- The rings are good or full, and the counts and the vote are right. -/
structure Stocked (d : Dispatcher n) : Prop where
  ring : ∀ rb, (d.q rb).Good ∨ (d.q rb).Full
  sum : d.inflight = d.total Finset.univ
  votes : d.votes = d.power.toNat

theorem Counted.stocked (h : d.Counted Finset.univ) : d.Stocked :=
  ⟨fun rb => .inl (h.good rb), h.sum, h.votes⟩

theorem Stocked.counted (h : d.Stocked) (hroom : ∀ rb, (d.q rb).flying.length < drawqueueSize) :
    d.Counted Finset.univ where
  good rb := (h.ring rb).resolve_right fun hfull => (hroom rb).ne hfull.flying
  sum := h.sum
  votes := h.votes

/-- The ring as the code takes it: a full one is empty. -/
def seen (q : Drawqueue) : Drawqueue :=
  if q.flying.length < drawqueueSize then q else { q with inflight := 0, flying := [] }

/-- The dispatcher as the code takes it. -/
def asSeen (d : Dispatcher n) : Dispatcher n :=
  { d with
    q := fun rb => seen (d.q rb)
    inflight := ∑ rb, (seen (d.q rb)).inflight }

theorem blind₀_asSeen (d : Dispatcher n) : d.blind₀ = d.asSeen.blind₀ := by
  have hq (q : Drawqueue) : (seen q).blind = q.blind := by
    unfold seen
    split <;> rfl
  exact blind_eq_iff.mpr ⟨fun rb => seen (d.q rb), rfl, fun rb => hq (d.q rb)⟩

theorem Stocked.asSeen (h : d.Stocked) : d.asSeen.Counted Finset.univ where
  good rb := by
    change (seen (d.q rb)).Good
    unfold seen
    split_ifs with hlt
    · exact (h.ring rb).resolve_right fun hfull => hlt.ne hfull.flying
    · obtain hfull := (h.ring rb).resolve_left fun hgood => hlt hgood.lt
      refine ⟨(d.q rb).head, (Nat.mod_eq_of_lt hfull.head_lt).symm, ?_, rfl,
        Lib.Ring.Holds.nil (by decide)⟩
      exact hfull.tail.trans (Nat.mod_eq_of_lt hfull.head_lt).symm
  sum := rfl
  votes := h.votes

/-! ## Where the commands are -/

/-- **Every command that was in flight is in one place**: the first ones of its drawqueue are
    retired, of those left some are back in it, in the order they had, and the others are
    destroyed, each with its context bad. -/
structure Accounted (d d' : Dispatcher n) (r : Fin n → Replay)
    (gone left sent dead : Fin n → List Cmd) : Prop where
  flying : ∀ rb, (d.q rb).flying = gone rb ++ left rb
  contents : ∀ rb, (d'.q rb).contents = (sent rb).map some
  order : ∀ rb, ∃ kept, kept.Sublist ((r rb).todo (left rb)) ∧
    List.Forall₂ Cmd.Resubmitted kept (sent rb)
  all : ∀ rb, ((sent rb).map Cmd.key ++ (dead rb).map Cmd.key).Perm ((left rb).map Cmd.key)
  retired : d'.retired = d.retired ++ (List.finRange n).flatMap gone
  destroyed : d'.destroyed.Perm (d.destroyed ++ (List.finRange n).flatMap dead)
  dead_bad : ∀ rb, ∀ c ∈ dead rb, d'.bad c.ctx = true

theorem length_flatMap_finRange (f : Fin n → List Cmd) :
    ((List.finRange n).flatMap f).length = ∑ rb, (f rb).length := by
  rw [List.length_flatMap, Fin.sum_univ_def]

/-- The commands that were in flight are as many as those that are now in one of the places. -/
theorem Accounted.length {r : Fin n → Replay} {gone left sent dead : Fin n → List Cmd}
    (h : Accounted d d' r gone left sent dead) :
    d'.retired.length + d'.destroyed.length + ∑ rb, (d'.q rb).contents.length =
      d.retired.length + d.destroyed.length + ∑ rb, (d.q rb).flying.length := by
  have hring (rb : Fin n) : (d.q rb).flying.length =
      (gone rb).length + ((d'.q rb).contents.length + (dead rb).length) := by
    have hall := (h.all rb).length_eq
    rw [List.length_append, List.length_map, List.length_map, List.length_map] at hall
    rw [h.flying rb, List.length_append, h.contents rb, List.length_map, hall]
  simp only [hring, Finset.sum_add_distrib]
  rw [h.retired, h.destroyed.length_eq, List.length_append, List.length_append,
    length_flatMap_finRange, length_flatMap_finRange]
  omega

theorem recoverOrder_perm (hung : Option (Fin n)) :
    (recoverOrder hung).Perm (List.finRange n) :=
  (List.perm_ext_iff_of_nodup (nodup_recoverOrder hung) (List.nodup_finRange n)).mpr fun rb =>
    iff_of_true (mem_recoverOrder hung rb) (List.mem_finRange rb)

theorem TakesAll.left {passed : Cmd → Bool}
    (ht : TakesAll d (List.finRange n) (fun rb => (d.q rb).flying.takeWhile passed) d')
    (rb : Fin n) : (d'.q rb).flying = (d.q rb).flying.dropWhile passed :=
  List.append_cancel_left ((ht.flying rb (List.mem_finRange rb)).symm.trans
    List.takeWhile_append_dropWhile.symm)

theorem Counted.accounted (h : d.Counted Finset.univ) (hung : Option (Fin n))
    (passed : Cmd → Bool) (r : Fin n → Replay) : ∃ sent dead,
      Accounted d (d.recover hung passed r) r (fun rb => (d.q rb).flying.takeWhile passed)
        (fun rb => (d.q rb).flying.dropWhile passed) sent dead := by
  obtain ⟨hend, d₁, sent, dead, ht, hr⟩ := recover_spec h hung passed r
  refine ⟨sent, dead, fun rb => List.takeWhile_append_dropWhile.symm, fun rb => ?_, fun rb => ?_,
    fun rb => ?_, ?_, ?_, fun rb => hr.dead_bad rb (mem_recoverOrder hung rb)⟩
  · rw [(hend.good rb).contents, hr.flying rb (mem_recoverOrder hung rb)]
  · have horder := hr.order rb (mem_recoverOrder hung rb)
    rwa [ht.left] at horder
  · have hall := hr.all rb (mem_recoverOrder hung rb)
    rwa [ht.left] at hall
  · rw [hr.retired, ht.retired]
  · rw [hr.destroyed, ht.destroyed]
    exact ((recoverOrder_perm hung).flatMap_right dead).append_left _

/-- **A full ring is lost**: its commands are in none of the places. -/
theorem Stocked.accounted_iff (h : d.Stocked) (hung : Option (Fin n)) (passed : Cmd → Bool)
    (r : Fin n → Replay) :
    (∃ gone left sent dead, Accounted d (d.recover hung passed r) r gone left sent dead) ↔
      ∀ rb, (d.q rb).flying.length < drawqueueSize := by
  constructor
  · rintro ⟨gone, left, sent, dead, hd⟩ rb
    obtain ⟨sent', dead', he⟩ := h.asSeen.accounted hung passed r
    have hblind := blind_recover (blind₀_asSeen d) hung passed r
    have hretired : (d.recover hung passed r).retired = (d.asSeen.recover hung passed r).retired :=
      (congrArg Dispatcher.retired hblind :)
    have hdestroyed :
        (d.recover hung passed r).destroyed = (d.asSeen.recover hung passed r).destroyed :=
      (congrArg Dispatcher.destroyed hblind :)
    have hcontents (rb : Fin n) : ((d.recover hung passed r).q rb).contents =
        ((d.asSeen.recover hung passed r).q rb).contents :=
      Drawqueue.contents_blind (congrFun (congrArg Dispatcher.q hblind) rb)
    have hlength := hd.length
    simp only [hretired, hdestroyed, hcontents] at hlength
    rw [he.length] at hlength
    have hsum : ∑ rb, (seen (d.q rb)).flying.length = ∑ rb, (d.q rb).flying.length :=
      Nat.add_left_cancel hlength
    by_contra hfull
    have hseen (rb : Fin n) : (seen (d.q rb)).flying.length ≤ (d.q rb).flying.length := by
      unfold seen
      split
      · exact le_rfl
      · exact Nat.zero_le _
    refine hsum.not_lt (Finset.sum_lt_sum (fun rb _ => hseen rb) ⟨rb, Finset.mem_univ rb, ?_⟩)
    unfold seen
    rw [if_neg hfull]
    exact lt_of_lt_of_le (by decide : 0 < 128) (Nat.le_of_not_lt hfull)
  · intro hroom
    obtain ⟨sent, dead, haccounted⟩ := (h.counted hroom).accounted hung passed r
    exact ⟨_, _, sent, dead, haccounted⟩

/-! ## A fault -/

/-- What is not known of a recovery: whether there is memory for the commands of a ring, which
    contexts others make bad, and how the submissions end. -/
structure World (n : ℕ) where
  alloc : Fin n → Bool
  bad : Fin n → ℕ → Bool
  outcome : Fin n → ℕ → Outcome

/-- `process_cmdobj_fault` of the commands of a ring, and the contexts that are guilty then. -/
def faulted (e : Fault) (ctxs : ℕ → Drawctxt) : List Cmd → List Cmd
  | [] => []
  | c :: replay => (processCmdobjFault e (ctxs c.ctx) c replay).2.1

def guilty (e : Fault) (ctxs : ℕ → Drawctxt) : List Cmd → ℕ → Bool
  | [], _ => false
  | c :: replay, ctx => (processCmdobjFault e (ctxs c.ctx) c replay).2.2 && ctx == c.ctx

theorem faulted_key (e : Fault) (ctxs : ℕ → Drawctxt) (l : List Cmd) :
    (faulted e ctxs l).map Cmd.key = l.map Cmd.key := by
  cases l with
  | nil => rfl
  | cons c replay => exact processCmdobjFault_key e (ctxs c.ctx) c replay

/-- The recovery of the rings, of which one may have hung. -/
def replays (e : Fault) (ctxs : ℕ → Drawctxt) (hung : Option (Fin n)) (w : World n)
    (rb : Fin n) : Replay where
  alloc := w.alloc rb
  edit l := if hung = some rb then faulted e ctxs l else l
  edit_key l := by
    split
    · exact faulted_key e ctxs l
    · rfl
  bad l ctx := w.bad rb ctx || (decide (hung = some rb) && guilty e ctxs l ctx)
  outcome := w.outcome rb

/-- `dispatcher_do_fault`, as far as it is about the commands. -/
def doFault (d : Dispatcher n) (e : Fault) (ctxs : ℕ → Drawctxt) (hung : Option (Fin n))
    (passed : Cmd → Bool) (w : World n) : Dispatcher n :=
  d.recover hung passed (replays e ctxs hung w)

/-- The commands of the ring that hung, but those that are retired. -/
def faulting (d : Dispatcher n) (hung : Option (Fin n)) (passed : Cmd → Bool) : List Cmd :=
  match hung with
  | some rb => (d.q rb).contents.reduceOption.dropWhile passed
  | none => []

/-- **A frame that is to be skipped is**, in the commands of the context that are replayed, wait
    in its queue or are queued later, unless the context is bad by then. -/
def FrameRight (d : Dispatcher n) (e : Fault) (ctxs : ℕ → Drawctxt) (waiting : ℕ → List Cmd)
    (hung : Option (Fin n)) (passed : Cmd → Bool) (w : World n) : Prop :=
  ∀ rb c replay, hung = some rb → w.alloc rb = true → d.faulting hung passed = c :: replay →
    SkipsFrame e (ctxs c.ctx) c → (d.doFault e ctxs hung passed w).bad c.ctx = false →
    ∀ later, let out := processCmdobjFault e (ctxs c.ctx) c replay
      FrameSkipped (ofCtx c.ctx (c :: replay) ++ waiting c.ctx ++ queueCmds (ctxs c.ctx) later)
        (ofCtx c.ctx out.2.1 ++ waiting c.ctx ++ queueCmds out.1 later)

/-! ### Nothing fails -/

/-- There is memory, and every submission succeeds. -/
def World.ok : World n := ⟨fun _ => true, fun _ _ => false, fun _ _ => ⟨false, false, false⟩⟩

theorem replayFrom_ok_bad (rb : Fin n) (fuel i : ℕ) (first : Bool) (d : Dispatcher n)
    (replay : List (Option Cmd)) :
    (replayFrom rb (fun _ => ⟨false, false, false⟩) fuel i first d replay).bad = d.bad := by
  induction fuel generalizing i first d replay with
  | zero => rfl
  | succ fuel ih =>
    cases replay with
    | nil => rfl
    | cons x replay =>
      cases x with
      | none => exact ih (i + 1) first d replay
      | some c =>
        unfold replayFrom
        dsimp only
        obtain ⟨power, votes, active, hsend⟩ := sendcmd_ok d rb (c.resubmit first)
        rw [hsend, if_pos rfl, ih]
        rfl

theorem recoverDispatchQ_ok_bad {e : Fault} {ctxs : ℕ → Drawctxt} {hung : Option (Fin n)}
    {ctx : ℕ} (hguilty : hung = some rb →
      guilty e ctxs (d.q rb).contents.reduceOption ctx = false) :
    (d.recoverDispatchQ rb (replays e ctxs hung .ok rb)).bad ctx = d.bad ctx := by
  have hbad : (replays e ctxs hung World.ok rb).bad (d.q rb).contents.reduceOption ctx = false := by
    unfold replays World.ok
    dsimp only
    by_cases h : hung = some rb
    · simp [hguilty h]
    · simp [h]
  unfold recoverDispatchQ
  dsimp only
  rw [if_neg (by simp [replays, World.ok]), removeInvalidated_eq]
  refine (congrFun (replayFrom_ok_bad ..) ctx).trans ?_
  change (d.bad ctx || _) = d.bad ctx
  rw [hbad, Bool.or_false]

theorem foldl_recoverDispatchQ_ok_bad {e : Fault} {ctxs : ℕ → Drawctxt} {hung : Option (Fin n)}
    (ctx : ℕ) {rbs : List (Fin n)} (hrbs : ∀ rb ∈ rbs, hung ≠ some rb) :
    (rbs.foldl (fun d rb => d.recoverDispatchQ rb (replays e ctxs hung .ok rb)) d).bad ctx =
      d.bad ctx := by
  induction rbs generalizing d with
  | nil => rfl
  | cons rb rbs ih =>
    rw [List.foldl_cons, ih fun rb' hrb' => hrbs rb' (List.mem_cons_of_mem _ hrb')]
    exact recoverDispatchQ_ok_bad fun h => absurd h (hrbs rb List.mem_cons_self)

theorem Counted.faulting_eq (h : d.Counted Finset.univ) (rb : Fin n) (passed : Cmd → Bool) :
    d.faulting (some rb) passed = (d.q rb).flying.dropWhile passed := by
  unfold faulting
  dsimp only
  rw [(h.good rb).contents, reduceOption_map_some]

/-- With nothing failing, a context stays good whose frame is skipped. -/
theorem Counted.doFault_ok_bad (h : d.Counted Finset.univ) {e : Fault} {ctxs : ℕ → Drawctxt}
    {passed : Cmd → Bool} {c : Cmd} {replay : List Cmd}
    (hfaulting : d.faulting (some rb) passed = c :: replay) (hskips : SkipsFrame e (ctxs c.ctx) c) :
    (d.doFault e ctxs (some rb) passed .ok).bad c.ctx = d.bad c.ctx := by
  obtain ⟨h₁, ht⟩ :=
    foldl_retireDrawqueue h passed (fun rb _ => Finset.mem_univ rb) (List.nodup_finRange n)
  have hleft : (((List.finRange n).foldl (retireDrawqueue · passed) d).q rb).contents.reduceOption =
      c :: replay := by
    rw [← hfaulting, (h₁.good rb).contents, reduceOption_map_some, ht.left, h.faulting_eq]
  have horder : recoverOrder (some rb) =
      rb :: (List.finRange n).filter fun rb' => some rb ≠ some rb' := rfl
  unfold doFault recover
  dsimp only
  rw [horder, List.foldl_cons, foldl_recoverDispatchQ_ok_bad c.ctx fun rb' hrb' => by
    simpa using (List.mem_filter.mp hrb').2]
  refine (recoverDispatchQ_ok_bad fun _ => ?_).trans (congrFun ht.bad c.ctx)
  dsimp only
  rw [hleft]
  obtain ⟨x₁, c₁, -, -, -, hfault⟩ := hskips.processCmdobjFault replay
  change ((processCmdobjFault e (ctxs c.ctx) c replay).2.2 && _) = false
  rw [hfault]
  rfl

/-- **What a recovery does**, whatever fails on the way: it accounts for all commands and skips
    the frame that is to be skipped, if and only if no ring is full and, where a frame is to be
    skipped, the commands that wait in the queue of the context need no more than they have. -/
theorem recovery_iff (h : d.Stocked) (e : Fault) (ctxs : ℕ → Drawctxt) (waiting : ℕ → List Cmd)
    (hung : Option (Fin n)) (passed : Cmd → Bool) :
    (∀ w : World n,
      (∃ gone left sent dead, Accounted d (d.doFault e ctxs hung passed w)
        (replays e ctxs hung w) gone left sent dead) ∧
      d.FrameRight e ctxs waiting hung passed w) ↔
    (∀ rb, (d.q rb).flying.length < drawqueueSize) ∧
      ∀ c replay, d.faulting hung passed = c :: replay → SkipsFrame e (ctxs c.ctx) c →
        d.bad c.ctx = true ∨
          Settled (ctxs c.ctx) (Phase.seek.after (ofCtx c.ctx (c :: replay))) (waiting c.ctx) := by
  constructor
  · intro hall
    have hroom := (h.accounted_iff hung passed _).mp (hall .ok).1
    refine ⟨hroom, fun c replay hfaulting hskips => ?_⟩
    cases hung with
    | none => cases hfaulting
    | some rb =>
      cases hbad : d.bad c.ctx with
      | true => exact .inl rfl
      | false =>
        have hgood := ((h.counted hroom).doFault_ok_bad hfaulting hskips).trans hbad
        exact .inr ((hskips.frameSkipped_iff replay (waiting c.ctx)).mp
          ((hall .ok).2 rb c replay rfl rfl hfaulting hskips hgood))
  · rintro ⟨hroom, hsettled⟩ w
    refine ⟨(h.accounted_iff hung passed _).mpr hroom, ?_⟩
    rintro rb c replay - - hfaulting hskips hgood
    refine (hskips.frameSkipped_iff replay (waiting c.ctx)).mpr
      ((hsettled c replay hfaulting hskips).resolve_left fun hbad => ?_)
    obtain ⟨-, d₁, sent, dead, ht, hr⟩ :=
      recover_spec (h.counted hroom) hung passed (replays e ctxs hung w)
    have hstill := hr.bad_mono c.ctx (by rw [ht.bad, hbad])
    rw [doFault, hstill] at hgood
    cases hgood

/-- A command in flight that is to be skipped with its frame, and the one that ends the frame. -/
def frameCmd : Cmd := ⟨0, 1, 1, false, false, false, false, false, {.skipframe}, ∅, []⟩

def endCmd : Cmd := ⟨1, 1, 2, true, false, false, false, false, {.skipframe}, ∅, []⟩

/-- A ring with the first of them. -/
def lone : Dispatcher 1 where
  q _ := ⟨Function.update (fun _ => none) 0 (some frameCmd), 1, 0, 1, [frameCmd]⟩
  inflight := 1
  power := true
  active := true
  votes := 1
  bad _ := false
  retired := []
  destroyed := []
  inflightHi := 15
  inflightLo := 4
  burst := 5
  sending := none

theorem counted_lone : lone.Counted Finset.univ where
  good _ := (Drawqueue.good_empty fun _ => none).push (by decide) frameCmd
  sum := rfl
  votes := rfl

def freshCtxt : Drawctxt := ⟨false, false, 0, 0, ∅, false, false, false, false, false⟩

/-- `ADRENO_HARD_FAULT`. -/
def hardFault : Fault := ⟨2, 0, 0, 3000, 3⟩

theorem skipsFrame_lone : SkipsFrame hardFault freshCtxt frameCmd := by decide

theorem recovery_iff_lone :
    (∃ gone left sent dead, Accounted lone (lone.doFault hardFault (fun _ => freshCtxt) (some 0)
      (fun _ => false) .ok) (replays hardFault (fun _ => freshCtxt) (some 0) .ok) gone left sent
        dead) ∧
    lone.FrameRight hardFault (fun _ => freshCtxt) (fun _ => []) (some 0) (fun _ => false) .ok := by
  refine (recovery_iff counted_lone.stocked hardFault (fun _ => freshCtxt) (fun _ => []) (some 0)
    fun _ => false).mpr ⟨fun rb => ?_, fun c replay _ _ => .inr (settled_nil _ _)⟩ .ok
  exact (by decide : 1 < 128)

/-- The command that waits is not skipped, the next one is. -/
theorem waiting_not_skipped : lone.Stocked ∧
    ¬ lone.FrameRight hardFault (fun _ => freshCtxt) (fun _ => [endCmd]) (some 0)
      (fun _ => false) .ok ∧
    queueCmds (processCmdobjFault hardFault freshCtxt frameCmd []).1 [plainCmd] =
      [{ plainCmd with skip := true }] := by
  have hfaulting : lone.faulting (some 0) (fun _ => false) = [frameCmd] := by
    rw [counted_lone.faulting_eq]
    rfl
  refine ⟨counted_lone.stocked, fun hright => ?_, by decide⟩
  have hframe := hright 0 frameCmd [] rfl rfl hfaulting skipsFrame_lone
    (counted_lone.doFault_ok_bad hfaulting skipsFrame_lone) []
  have hin : InFrame [frameCmd, endCmd] 1 := by
    rintro c (_ | ⟨_, _ | _⟩)
    rfl
  have hskip := (hframe.skip 1 endCmd endCmd rfl rfl).mpr (.inr hin)
  cases hskip

end Dispatcher

end Sm8850.Kgsl.Inflight
