/-
  Runs of the Driver State Management calls, and the exclusion of overlapping
  transitions.

  * A `World` is the tree and, for each node, the waits for operations of the
    call that holds its transition.  `Op` are the calls, `Op.Allowed` what
    their callers keep to, `Op.exec` their effect: any thread may take the
    next step, each step being one section under `driver->lock`.
  * A stop is called by the holder of the transition it ends, which for
    `dsc_psoc_trans_stop` is the psoc's or else the driver's.  An operation is
    stopped by a call that started it.
  * `Exclusive` is the invariant: a node has the one holder `active_desc`
    names, and no two related nodes are active.  `Exclusive.step` keeps it over
    every step, whatever the stop triggers, and **`no_overlap`** is its
    consequence for every run.
-/
import Sm8850.Dsc.Fired
import Mathlib.Logic.Relation

namespace Sm8850.Dsc

variable {P V : Type}

/-! ## Exclusion -/

section
variable {T : DscTree P V} {s s' : State P V} {n m : Node P V}

/-- The active nodes. -/
def activeSet (s : State P V) : Set (Node P V) := {n | s.active n = true}

/-- A node has the one holder `active_desc` names, and no two related nodes are
    active. -/
structure Exclusive (T : DscTree P V) (s : State P V) : Prop where
  holders : ∀ n, (s n).trans.holders = (s n).trans.activeDesc.toList
  antichain : IsAntichain T.Related (activeSet s)

theorem Exclusive.idle_of_active (h : Exclusive T s) (hn : s.active n = true)
    (hr : T.Related n m) : s.active m = false := by
  rw [Bool.eq_false_iff]
  exact fun hm => h.antichain hn hm (fun e => T.not_related_self m (e ▸ hr)) hr

/-- A change that keeps holders and activity. -/
theorem Exclusive.congr (h : Exclusive T s)
    (ha : ∀ n, (s' n).trans.activeDesc = (s n).trans.activeDesc)
    (hh : ∀ n, (s' n).trans.holders = (s n).trans.holders) : Exclusive T s' where
  holders n := by rw [ha, hh, h.holders]
  antichain := by
    refine h.antichain.subset fun n hn => ?_
    simpa [activeSet, State.active, dscTransActive, ha] using hn

/-- Starting waiters of unrelated idle nodes. -/
theorem Exclusive.fired {A : Set (Node P V)} (h : Exclusive T s) (hf : Fired A s s')
    (hidle : ∀ n ∈ A, Idle T s n) (hA : IsAntichain T.Related A) : Exclusive T s' where
  holders n := by
    by_cases hn : n ∈ A
    · obtain ⟨tran, queue, hq⟩ :=
        List.exists_cons_of_ne_nil (dscTransQueued_iff.1 (hf.queued n hn))
      rw [hf.fires n hn]
      simp [dscTransTrigger_snd_of_queue hq, h.holders n, not_active_iff.1 (hidle n hn).1]
    · rw [hf.keeps n hn, h.holders n]
  antichain := by
    have hset : activeSet s' ⊆ A ∪ activeSet s := fun n hn => hf.active_iff.1 hn
    refine IsAntichain.subset ?_ hset
    rintro n (hn | hn) m (hm | hm) hne hr
    · exact hA hn hm hne hr
    · exact Bool.false_ne_true (((hidle n hn).2 m hr).symm.trans hm)
    · exact Bool.false_ne_true (((hidle m hm).2 n hr.symm).symm.trans hn)
    · exact h.antichain hn hm hne hr

/-- With nothing active at the driver, at `p` or below `p`, the fired set of the subtree
    of `p` is idle. -/
theorem idle_subtreeFires {p : P} (hd : s.active .driver = false)
    (hp : s.active (.psoc p) = false) (hv : ∀ v, T.psocOf v = p → s.active (.vdev v) = false) :
    ∀ n ∈ subtreeFires T s p, Idle T s n := by
  rintro n ⟨-, rfl | ⟨-, v, rfl, rfl⟩⟩
  · exact idle_psoc_iff.2 ⟨hd, hp, dscPsocTransActiveDownTree_eq_false.2 hv⟩
  · exact idle_vdev_iff.2 ⟨hd, hp, hv v rfl⟩

/-- The fired set of a subtree is an antichain. -/
theorem isAntichain_subtreeFires (s : State P V) (p : P) :
    IsAntichain T.Related (subtreeFires T s p) := by
  rintro n ⟨hqn, hn⟩ m ⟨hqm, hm⟩ hne hr
  rcases hn with rfl | ⟨hq, v, -, rfl⟩ <;> rcases hm with rfl | ⟨hq', w, -, rfl⟩
  · exact hne rfl
  · exact Bool.false_ne_true (hq'.symm.trans hqn)
  · exact Bool.false_ne_true (hq.symm.trans hqm)
  · simp [related_vdev_iff] at hr

theorem exclusive_init : Exclusive T (State.init P V) where
  holders _ := rfl
  antichain := by
    intro n hn
    cases hn

end

/-! ## Steps -/

section
variable [DecidableEq P] [DecidableEq V]


/-- The waits of the call that holds the transition of a node: the nodes of the
    wait functions it called, those still to wait for, those whose wait is
    over, and whether it sleeps on the event of the next one. -/
structure HolderWait (P V : Type) where
  called : List (Node P V)
  todo : List (Node P V)
  done : List (Node P V)
  asleep : Bool

/-- No wait function has been called. -/
def HolderWait.none : HolderWait P V := ⟨[], [], [], false⟩

/-- The tree and the waits of the holders. -/
structure World (P V : Type) where
  st : State P V
  waitOf : Node P V → HolderWait P V

/-- The tree just created. -/
def World.init (P V : Type) : World P V := ⟨State.init P V, fun _ => .none⟩

/-- The wait functions. -/
inductive WaitFn (P V : Type) where
  | driverOps
  | psocOps (p : P)
  | vdevOps (v : V)
  | vdevUptreeOps (v : V)

/-- The nodes a wait function waits for, in order. -/
def WaitFn.nodes (T : DscTree P V) : WaitFn P V → List (Node P V)
  | .driverOps => dscDriverWaitForOps T
  | .psocOps p => dscPsocWaitForOps T p
  | .vdevOps v => dscVdevWaitForOps v
  | .vdevUptreeOps v => dscVdevWaitForUptreeOps T v

/-- The steps of a run. -/
inductive Op (P V : Type) where
  | transStart (pl : Platform) (n : Node P V) (desc : String)
  | transStartWait (pl : Platform) (n : Node P V) (tran : DscTran)
  | transStop (n : Node P V)
  | opStart (pl : Platform) (n : Node P V) (dbgOk : Bool)
  | opStop (n : Node P V)
  /-- the holder of `h` calls a wait function -/
  | waitCall (h : Node P V) (f : WaitFn P V)
  /-- it looks at the count of the next node, under the lock -/
  | waitLook (h : Node P V)
  /-- it wakes up from the event of that node -/
  | waitWake (h : Node P V)

/-- `dsc_{driver,psoc,vdev}_trans_start` -/
def transStart (T : DscTree P V) (pl : Platform) (s : State P V) :
    Node P V → String → QdfStatus × State P V
  | .driver, desc => dscDriverTransStart T pl s desc
  | .psoc p, desc => dscPsocTransStart T pl s p desc
  | .vdev v, desc => dscVdevTransStart T pl s v desc

/-- `dsc_{driver,psoc,vdev}_trans_start_wait`, up to the wait -/
def transStartWait (T : DscTree P V) (pl : Platform) (s : State P V) :
    Node P V → DscTran → QdfStatus × State P V
  | .driver, tran => dscDriverTransStartWait T pl s tran
  | .psoc p, tran => dscPsocTransStartWait T pl s p tran
  | .vdev v, tran => dscVdevTransStartWait T pl s v tran

/-- The next node of the wait of `h` is over. -/
def HolderWait.next (w : HolderWait P V) : HolderWait P V :=
  match w.todo with
  | [] => w
  | n :: rest => { w with todo := rest, done := n :: w.done, asleep := false }

/-- What the callers keep to. -/
def Op.Allowed (w : World P V) : Op P V → Prop
  | .transStart .. | .transStartWait .. | .opStart .. => True
  | .transStop n => w.st.active (stopped w.st n) = true
  | .opStop n => (w.st n).ops.stopped < (w.st n).ops.started
  | .waitCall h _ => w.st.active h = true ∧ (w.waitOf h).todo = []
  | .waitLook h => (w.waitOf h).todo ≠ [] ∧ (w.waitOf h).asleep = false
  | .waitWake h => (w.waitOf h).asleep = true ∧
      ∃ n rest, (w.waitOf h).todo = n :: rest ∧ (w.st n).ops.event = true

/-- The effect of a step. -/
def Op.exec (T : DscTree P V) (w : World P V) : Op P V → World P V
  | .transStart pl n desc => { w with st := (Dsc.transStart T pl w.st n desc).2 }
  | .transStartWait pl n tran => { w with st := (Dsc.transStartWait T pl w.st n tran).2 }
  | .transStop n =>
    { st := Dsc.transStop T w.st n, waitOf := Function.update w.waitOf (stopped w.st n) .none }
  | .opStart pl n dbgOk => { w with st := (Dsc.opStart T pl w.st n dbgOk).2 }
  | .opStop n => { w with st := Dsc.opStop w.st n }
  | .waitCall h f =>
    let hw := { w.waitOf h with
      called := f.nodes T ++ (w.waitOf h).called, todo := f.nodes T }
    { w with waitOf := Function.update w.waitOf h hw }
  | .waitLook h =>
    match (w.waitOf h).todo with
    | [] => w
    | n :: _ =>
      let r := Dsc.waitLook w.st n
      let hw := w.waitOf h
      { st := r.2, waitOf := Function.update w.waitOf h
          (if r.1 then { hw with asleep := true } else hw.next) }
  | .waitWake h => { w with waitOf := Function.update w.waitOf h (w.waitOf h).next }

/-- One step of some thread. -/
def Step (T : DscTree P V) (w w' : World P V) : Prop :=
  ∃ op : Op P V, op.Allowed w ∧ w' = op.exec T w

/-- The worlds a run from the fresh tree reaches. -/
def Reachable (T : DscTree P V) (w : World P V) : Prop :=
  Relation.ReflTransGen (Step T) (World.init P V) w

/-- Run a list of steps. -/
def execAll (T : DscTree P V) (w : World P V) (ops : List (Op P V)) : World P V :=
  ops.foldl (fun w op => op.exec T w) w

/-- Each step of the list is allowed where it is taken. -/
def AllAllowed (T : DscTree P V) : World P V → List (Op P V) → Prop
  | _, [] => True
  | w, op :: ops => op.Allowed w ∧ AllAllowed T (op.exec T w) ops

theorem Reachable.execAll {T : DscTree P V} {w : World P V} {ops : List (Op P V)}
    (h : Reachable T w) (hops : AllAllowed T w ops) : Reachable T (Dsc.execAll T w ops) := by
  induction ops generalizing w with
  | nil => exact h
  | cons op ops ih => exact ih (.tail h ⟨op, hops.1, rfl⟩) hops.2

/-! ## What a step does to the transitions -/

/-- The three things a step that stops no transition can do to them. -/
inductive Quiet (T : DscTree P V) (s : State P V) : State P V → Prop
  /-- nothing -/
  | same {s'} (h : ∀ n, (s' n).trans = (s n).trans) : Quiet T s s'
  /-- a granted start -/
  | start (n : Node P V) (desc : String) (hi : Idle T s n) :
      Quiet T s (s.setTrans n (dscTransStart (s n).trans desc))
  /-- a refused start that waits -/
  | queue (n : Node P V) (tran : DscTran)
      (h : ¬ Idle T s n ∨ s.queued n = true ∨ ∃ a, T.Above a n ∧ s.queued a = true) :
      Quiet T s (s.setTrans n (dscTransQueue (s n).trans tran))

theorem startAt_eq (can : QdfStatus) (s : State P V) (n : Node P V) (desc : String) :
    startAt can s n desc = if can = .success
      then (.success, s.setTrans n (dscTransStart (s n).trans desc)) else (can, s) := by
  cases can <;> rfl

theorem transStart_eq (T : DscTree P V) (pl : Platform) (s : State P V) (n : Node P V)
    (desc : String) : transStart T pl s n desc = startAt (canTrans T pl s n) s n desc := by
  cases n <;> rfl

theorem quiet_startWaitAt {T : DscTree P V} {pl : Platform} {s : State P V} {n : Node P V}
    {waits : QdfStatus → Bool} (tran : DscTran) (hs : waits .success = false)
    (hw : n = .driver ∨ waits .eInval = false) :
    Quiet T s (startWaitAt (canTrans T pl s n) waits s n tran).2 := by
  rw [startWaitAt, startAt_eq]
  by_cases hc : canTrans T pl s n = .success
  · simpa [hc, hs] using .start n tran.desc (canTrans_success hc).1
  · by_cases hwait : waits (canTrans T pl s n) = true
    · simp only [if_neg hc, hwait, if_true]
      refine .queue n tran (canTrans_refused hc (hw.imp_right fun h heq => ?_))
      rw [heq, h] at hwait
      cases hwait
    · simp only [if_neg hc, if_neg hwait]
      exact .same fun _ => rfl

/-- A step that is not a stop is quiet. -/
theorem quiet_of_ne_stop (T : DscTree P V) (w : World P V) {op : Op P V}
    (hop : ∀ n, op ≠ .transStop n) : Quiet T w.st (op.exec T w).st := by
  cases op with
  | transStart pl n desc =>
    simp only [Op.exec, transStart_eq, startAt_eq]
    by_cases hc : canTrans T pl w.st n = .success
    · simpa only [if_pos hc] using .start n desc (canTrans_success hc).1
    · simpa only [if_neg hc] using .same fun _ => rfl
  | transStartWait pl n tran =>
    cases n with
    | driver => exact quiet_startWaitAt tran rfl (.inl rfl)
    | psoc p => exact quiet_startWaitAt tran rfl (.inr rfl)
    | vdev v => exact quiet_startWaitAt tran rfl (.inr rfl)
  | transStop n => exact absurd rfl (hop n)
  | opStart pl n dbgOk =>
    refine .same fun m => ?_
    simp only [Op.exec, opStart, opStartAt]
    split <;> simp
  | opStop n => exact .same fun m => by simp [Op.exec, opStop]
  | waitCall h f => exact .same fun _ => rfl
  | waitLook h =>
    refine .same fun m => ?_
    cases ht : (w.waitOf h).todo with
    | nil => simp only [Op.exec, ht]
    | cons n rest =>
      simp only [Op.exec, ht, Dsc.waitLook]
      split <;> simp
  | waitWake h => exact .same fun _ => rfl

/-! ## Every step keeps the exclusion -/

section
variable {T : DscTree P V} {s s' : State P V} {n m : Node P V}

theorem Exclusive.start (h : Exclusive T s) (hi : Idle T s n) (desc : String) :
    Exclusive T (s.setTrans n (dscTransStart (s n).trans desc)) where
  holders m := by
    by_cases hm : m = n
    · subst hm
      simp [dscTransStart, h.holders m, not_active_iff.1 hi.1]
    · rw [State.setTrans_of_ne _ _ hm, h.holders m]
  antichain := by
    have hset : activeSet (s.setTrans n (dscTransStart (s n).trans desc)) ⊆
        insert n (activeSet s) := by
      intro m hm
      by_cases hmn : m = n
      · exact .inl hmn
      · simp only [activeSet, Set.mem_ofPred_eq, State.active_setTrans, if_neg hmn] at hm
        exact .inr hm
    refine IsAntichain.subset ?_ hset
    refine isAntichain_insert.2 ⟨h.antichain, fun m hm _ => ⟨fun hr => ?_, fun hr => ?_⟩⟩
    · exact Bool.false_ne_true ((hi.2 m hr).symm.trans hm)
    · exact Bool.false_ne_true ((hi.2 m hr.symm).symm.trans hm)

theorem Exclusive.stop (h : Exclusive T s) (n : Node P V) : Exclusive T (s.stop n) where
  holders m := by
    by_cases hm : m = n
    · subst hm
      cases hd : (s m).trans.activeDesc <;> simp [State.stop, dscTransStop, h.holders m, hd]
    · rw [State.stop, State.setTrans_of_ne _ _ hm, h.holders m]
  antichain := by
    refine h.antichain.subset fun m hm => ?_
    simp only [activeSet, Set.mem_ofPred_eq, State.active_stop] at hm
    split_ifs at hm
    exact hm

/-! ## What a stop fires is free to run -/

/-- After a stop no node of the stopped subtree is active. -/
theorem Exclusive.stopped_related (h : Exclusive T s) (hn : s.active n = true)
    (hm : m = n ∨ T.Related n m) : (s.stop n).active m = false := by
  rw [State.active_stop]
  rcases hm with rfl | hm
  · simp
  · split
    · rfl
    · exact h.idle_of_active hn hm

/-- **What a stop fires is idle and unrelated.** -/
theorem Exclusive.stopFires (h : Exclusive T s) (n : Node P V)
    (ha : s.active (stopped s n) = true) :
    (∀ m ∈ stopFires T (s.stop (stopped s n)) n, Idle T (s.stop (stopped s n)) m) ∧
    IsAntichain T.Related (Dsc.stopFires T (s.stop (stopped s n)) n) := by
  have hfree := fun m hm => h.stopped_related (m := m) ha hm
  generalize hs : s.stop (stopped s n) = s₁ at hfree ⊢
  -- at most one node is fired, or one antichain below an idle node
  have single : ∀ {A : Set (Node P V)} {k : Node P V}, (∀ m ∈ A, m = k ∧ Idle T s₁ k) →
      (∀ m ∈ A, Idle T s₁ m) ∧ IsAntichain T.Related A := by
    intro A k hA
    refine ⟨fun m hm => (hA m hm).1 ▸ (hA m hm).2, fun m hm m' hm' hne => ?_⟩
    exact absurd ((hA m hm).1.trans (hA m' hm').1.symm) hne
  cases n with
  | driver =>
    have hall : ∀ m, s₁.active m = false := by
      intro m
      refine hfree m ?_
      by_cases hm : m = .driver
      · exact .inl hm
      · exact .inr (related_driver_iff.2 hm)
    cases hq : s₁.queued .driver with
    | true =>
      refine single (k := .driver) fun m hm => ?_
      simp only [Dsc.stopFires, Set.mem_ofPred_eq, hq, if_true] at hm
      exact ⟨hm, idle_of_forall fun m _ => hall m⟩
    | false =>
      simp only [Dsc.stopFires, hq, Bool.false_eq_true, if_false]
      refine ⟨?_, ?_⟩
      · rintro m ⟨p, hm⟩
        exact idle_of_forall fun m _ => hall m
      · rintro m ⟨p, hm⟩ m' ⟨q, hm'⟩ hne hr
        by_cases hpq : p = q
        · subst hpq
          exact isAntichain_subtreeFires s₁ p hm hm' hne hr
        · obtain ⟨-, hm⟩ := hm
          obtain ⟨-, hm'⟩ := hm'
          rcases hm with rfl | ⟨-, v, hv, rfl⟩ <;> rcases hm' with rfl | ⟨-, w, hw, rfl⟩ <;>
            simp [related_psoc_iff, related_vdev_iff] at hr
          · exact hpq (hr.symm.trans hw)
          · exact hpq (hv.symm.trans hr.symm)
  | psoc p =>
    have hd : s₁.active .driver = false := by
      refine hfree _ ?_
      rw [stopped]
      split
      · exact .inr (.inr trivial)
      · exact .inl rfl
    have hp : s₁.active (.psoc p) = false := by
      refine hfree _ ?_
      rw [stopped]
      split
      · exact .inl rfl
      · exact .inr (.inl trivial)
    have hv : ∀ v, T.psocOf v = p → s₁.active (.vdev v) = false := by
      intro v hv
      refine hfree _ (.inr ?_)
      rw [stopped]
      split
      · exact .inl hv
      · exact .inl trivial
    cases hq : s₁.queued .driver with
    | true =>
      refine single (k := .driver) fun m hm => ?_
      simpa [Dsc.stopFires, hq] using hm
    | false =>
      simp only [Dsc.stopFires, hq, Bool.false_eq_true, if_false]
      exact ⟨idle_subtreeFires hd hp hv, isAntichain_subtreeFires s₁ p⟩
  | vdev v =>
    cases hq : s₁.queued .driver with
    | true =>
      refine single (k := .driver) fun m hm => ?_
      simpa [Dsc.stopFires, hq] using hm
    | false =>
      cases hp : s₁.queued (.psoc (T.psocOf v)) with
      | true =>
        refine single (k := .psoc (T.psocOf v)) fun m hm => ?_
        simp only [Dsc.stopFires, Set.mem_ofPred_eq, hq, hp, Bool.false_eq_true, if_false,
          if_true] at hm
        exact ⟨hm.1, hm.1 ▸ hm.2⟩
      | false =>
        refine single (k := .vdev v) fun m hm => ?_
        simp only [Dsc.stopFires, Set.mem_ofPred_eq, hq, hp, Bool.false_eq_true, if_false] at hm
        exact ⟨hm.1, idle_of_forall fun m hm => hfree m hm⟩

theorem Exclusive.quiet (h : Exclusive T s) (hq : Quiet T s s') : Exclusive T s' := by
  cases hq with
  | same hs => exact h.congr (fun n => by rw [hs n]) fun n => by rw [hs n]
  | start n desc hi => exact h.start hi desc
  | queue n tran _ =>
    refine h.congr (fun m => ?_) fun m => ?_
    all_goals
      by_cases hm : m = n
      · subst hm; simp [dscTransQueue]
      · rw [State.setTrans_of_ne _ _ hm]

theorem Exclusive.transStop (h : Exclusive T s) (ha : s.active (stopped s n) = true) :
    Exclusive T (Dsc.transStop T s n) := by
  obtain ⟨hidle, hanti⟩ := h.stopFires n ha
  exact (h.stop _).fired (fired_transStop s n) hidle hanti

/-- Every step keeps the exclusion. -/
theorem Exclusive.step {w : World P V} {op : Op P V} (h : Exclusive T w.st) (hop : op.Allowed w) :
    Exclusive T (op.exec T w).st := by
  by_cases hs : ∃ n, op = .transStop n
  · obtain ⟨n, rfl⟩ := hs
    exact h.transStop hop
  · exact h.quiet (quiet_of_ne_stop T w (not_exists.1 hs))

theorem Reachable.state_exclusive {w : World P V} (h : Reachable T w) : Exclusive T w.st := by
  induction h with
  | refl => exact exclusive_init
  | tail _ hst ih =>
    obtain ⟨op, hop, rfl⟩ := hst
    exact ih.step hop

/-- **No two transitions overlap.**  In every world a run reaches, a node has at
    most one transition in progress, and when a node has one, no ancestor and no
    descendant has. -/
theorem no_overlap (T : DscTree P V) {w : World P V} (h : Reachable T w) :
    (∀ n, (w.st n).trans.holders.length ≤ 1) ∧
    ∀ n m, T.Related n m → (w.st n).trans.holders ≠ [] → (w.st m).trans.holders = [] := by
  have hex := h.state_exclusive
  refine ⟨fun n => ?_, fun n m hr hn => ?_⟩
  · rw [hex.holders n]
    cases (w.st n).trans.activeDesc <;> simp
  · have hact : w.st.active n = true := by
      rw [hex.holders n] at hn
      cases hd : (w.st n).trans.activeDesc with
      | none => simp [hd] at hn
      | some desc => exact active_iff.2 ⟨desc, hd⟩
    rw [hex.holders m, not_active_iff.1 (hex.idle_of_active hact hr)]
    rfl

end

end

/-- Two psocs without vdevs. -/
def twoPsocs : DscTree Bool Empty where
  psocs := [false, true]
  vdevs _ := []
  psocOf v := v.elim
  psocs_nodup := by decide
  vdevs_nodup _ := List.nodup_nil
  mem_psocs := by decide
  mem_vdevs v := v.elim

/-- Nothing is recovering or unloading. -/
def calmPlatform : Platform := ⟨false, false⟩

/-- Two psocs in transition at once. -/
def twoTrans : List (Op Bool Empty) :=
  [.transStart calmPlatform (.psoc false) "probe", .transStart calmPlatform (.psoc true) "ssr"]

theorem no_overlap_twoTrans :
    ((execAll twoPsocs (World.init Bool Empty) twoTrans).st .driver).trans.holders = [] :=
  have hops : AllAllowed twoPsocs (World.init Bool Empty) twoTrans := ⟨trivial, trivial, trivial⟩
  (no_overlap twoPsocs (Reachable.execAll .refl hops)).2 (.psoc true) .driver (.inr trivial)
    (by decide)

end Sm8850.Dsc
