/-
  Operations in flight while a transition is active.

  * `opsChange` says once what a step does to the operations of a node: it may
    admit one, only where nothing related is active; take one out; or reset the
    event of a node with operations in flight.
  * `CountInv`: the count of a node is the number of operations started there
    and not yet stopped.  `WaitInv`: what a holder has waited for stays empty,
    and an event that is set under a sleeping holder means the last operation
    has gone.
  * **`op_counts`**: under an active transition the counts of its node, of its
    ancestors and of its descendants only fall, and once its holder has waited
    for them they stay at zero until the transition stops.
-/
import Sm8850.Dsc.Runs

namespace Sm8850.Dsc

variable {P V : Type} [DecidableEq P] [DecidableEq V]

section
variable {T : DscTree P V} {w w' : World P V} {op : Op P V} {h n m : Node P V}

/-! ## What a step does to the operations -/

/-- The four things a step can do to the operations of a node. -/
inductive OpsChange (T : DscTree P V) (w : World P V) (op : Op P V) (m : Node P V) :
    DscOps → Prop
  | same : OpsChange T w op m (w.st m).ops
  | insert (hi : Idle T w.st m) :
      OpsChange T w op m
        { (w.st m).ops with count := (w.st m).ops.count + 1, started := (w.st m).ops.started + 1 }
  | remove (hop : op = .opStop m) (event : Bool)
      (he : event = true → (w.st m).ops.event = true ∨ (w.st m).ops.count - 1 = 0) :
      OpsChange T w op m
        { (w.st m).ops with
          count := (w.st m).ops.count - 1, event := event, stopped := (w.st m).ops.stopped + 1 }
  | reset (hc : 0 < (w.st m).ops.count) :
      OpsChange T w op m { (w.st m).ops with event := false }

omit [DecidableEq P] [DecidableEq V] in
theorem Fired.ops_eq {A : Set (Node P V)} {s s' : State P V} (hf : Fired A s s') (m : Node P V) :
    (s' m).ops = (s m).ops := by
  by_cases hm : m ∈ A
  · rw [hf.fires m hm]
  · rw [hf.keeps m hm]

theorem startAt_ops (can : QdfStatus) (s : State P V) (n m : Node P V) (desc : String) :
    ((startAt can s n desc).2 m).ops = (s m).ops := by
  rw [startAt_eq]
  split <;> simp

theorem startWaitAt_ops (can : QdfStatus) (waits : QdfStatus → Bool) (s : State P V)
    (n m : Node P V) (tran : DscTran) :
    ((startWaitAt can waits s n tran).2 m).ops = (s m).ops := by
  rw [startWaitAt]
  split <;> simp [startAt_ops]

theorem opsChange (T : DscTree P V) (w : World P V) (op : Op P V) (m : Node P V) :
    OpsChange T w op m ((op.exec T w).st m).ops := by
  -- the start and stop functions leave the operations alone
  have same : ((op.exec T w).st m).ops = (w.st m).ops →
      OpsChange T w op m ((op.exec T w).st m).ops := fun h => h ▸ .same
  cases op with
  | transStart pl n desc => exact same (by simp only [Op.exec, transStart_eq, startAt_ops])
  | transStartWait pl n tran =>
    refine same ?_
    cases n <;> exact startWaitAt_ops ..
  | transStop n =>
    refine same ?_
    rw [Op.exec, (fired_transStop w.st n).ops_eq m, State.stop, State.setTrans_ops]
  | opStart pl n dbgOk =>
    by_cases hc : canTrans T pl w.st n = .success
    · cases dbgOk with
      | false => exact same (by simp [Op.exec, Dsc.opStart, opStartAt, hc, dscOpsInsert,
          State.setOps])
      | true =>
        by_cases hm : m = n
        · subst hm
          have h : OpsChange T w (.opStart pl m true) m _ := .insert (canTrans_success hc).1
          simpa [Op.exec, Dsc.opStart, opStartAt, hc, dscOpsInsert] using h
        · refine same ?_
          simp [Op.exec, Dsc.opStart, opStartAt, hc, State.setOps_of_ne _ _ hm]
    · refine same ?_
      simp only [Op.exec, Dsc.opStart, opStartAt]
  | opStop n =>
    by_cases hm : m = n
    · subst hm
      by_cases hz : (w.st m).ops.count - 1 = 0
      · have h : OpsChange T w (.opStop m) m _ := .remove rfl true fun _ => .inr hz
        simpa [Op.exec, Dsc.opStop, dscOpsRemove, hz] using h
      · have h : OpsChange T w (.opStop m) m _ := .remove rfl (w.st m).ops.event .inl
        simpa [Op.exec, Dsc.opStop, dscOpsRemove, hz] using h
    · exact same (by simp [Op.exec, Dsc.opStop, State.setOps_of_ne _ _ hm])
  | waitCall h f => exact .same
  | waitLook h =>
    cases ht : (w.waitOf h).todo with
    | nil => exact same (by simp only [Op.exec, ht])
    | cons n rest =>
      by_cases hc : 0 < (w.st n).ops.count
      · by_cases hm : m = n
        · subst hm
          have h : OpsChange T w (.waitLook h) m _ := .reset hc
          simpa [Op.exec, ht, Dsc.waitLook, hc] using h
        · exact same (by simp [Op.exec, ht, Dsc.waitLook, hc, State.setOps_of_ne _ _ hm])
      · exact same (by simp [Op.exec, ht, Dsc.waitLook, hc])
  | waitWake h => exact .same

/-! ## Activity under a step -/

/-- The step stops the transition of `h`. -/
def Op.Ends (w : World P V) (op : Op P V) (h : Node P V) : Prop :=
  ∃ n, op = .transStop n ∧ stopped w.st n = h

/-- A transition stays active until it is stopped. -/
theorem active_exec (ha : w.st.active h = true) (hend : ¬ op.Ends w h) :
    (op.exec T w).st.active h = true := by
  by_cases hs : ∃ n, op = .transStop n
  · obtain ⟨n, rfl⟩ := hs
    refine (fired_transStop w.st n).active_iff.2 (.inr ?_)
    rw [State.active_stop, if_neg fun he => hend ⟨n, rfl, he.symm⟩, ha]
  · have hq := quiet_of_ne_stop T w (not_exists.1 hs)
    generalize (op.exec T w).st = s' at hq ⊢
    cases hq with
    | same hs => rw [State.active, hs h]; exact ha
    | start n desc hi =>
      rw [State.active_setTrans]
      split_ifs
      · rfl
      · exact ha
    | queue n tran _ =>
      rw [State.active_setTrans]
      split_ifs with hn
      · subst hn; exact ha
      · exact ha

/-- The node itself, its ancestors and its descendants. -/
def Affected (T : DscTree P V) (h m : Node P V) : Prop := m = h ∨ T.Related h m

omit [DecidableEq P] [DecidableEq V] in
/-- Nothing is admitted where an active transition reaches. -/
theorem not_idle_of_affected (ha : w.st.active h = true) (hm : Affected T h m) :
    ¬ Idle T w.st m := by
  rintro ⟨hm', hidle⟩
  rcases hm with rfl | hr
  · exact Bool.false_ne_true (hm'.symm.trans ha)
  · exact Bool.false_ne_true ((hidle h hr.symm).symm.trans ha)

/-- **The counts only fall** where an active transition reaches. -/
theorem count_exec_le (ha : w.st.active h = true) (hm : Affected T h m) (op : Op P V) :
    ((op.exec T w).st m).ops.count ≤ (w.st m).ops.count := by
  have hc := opsChange T w op m
  generalize ((op.exec T w).st m).ops = ops at hc
  cases hc with
  | same => exact le_rfl
  | insert hi => exact absurd hi (not_idle_of_affected ha hm)
  | remove => exact Nat.sub_le _ _
  | reset => exact le_rfl

/-! ## The counts -/

/-- A count is the number of operations started and not yet stopped. -/
def CountInv (s : State P V) : Prop :=
  ∀ m, (s m).ops.count + (s m).ops.stopped = (s m).ops.started

theorem CountInv.exec (hc : CountInv w.st) (hop : op.Allowed w) : CountInv (op.exec T w).st := by
  intro m
  have hch := opsChange T w op m
  have hm := hc m
  generalize ((op.exec T w).st m).ops = ops at hch
  cases hch with
  | same => exact hm
  | insert => simp only; omega
  | remove hop' =>
    subst hop'
    simp only [Op.Allowed] at hop
    simp only
    omega
  | reset => exact hm

/-! ## What has been waited for -/

/-- What the waits of the holder of `h` have reached. -/
structure WaitInv (T : DscTree P V) (w : World P V) (h : Node P V) : Prop where
  /-- only the holder of an active transition waits -/
  holder : w.st.active h = false → w.waitOf h = .none
  /-- every node of a wait function called is waited for or still to come -/
  called : ∀ m ∈ (w.waitOf h).called, m ∈ (w.waitOf h).done ∨ m ∈ (w.waitOf h).todo
  /-- nothing is in flight at a node waited for -/
  done : ∀ m ∈ (w.waitOf h).done, Affected T h m → (w.st m).ops.count = 0
  /-- the event of the node slept on is set by its last operation -/
  asleep : (w.waitOf h).asleep = true → ∃ m rest, (w.waitOf h).todo = m :: rest ∧
    (Affected T h m → (w.st m).ops.event = true → (w.st m).ops.count = 0)

omit [DecidableEq P] [DecidableEq V] in
theorem WaitInv.init (h : Node P V) : WaitInv T (World.init P V) h :=
  ⟨fun _ => rfl, fun _ hm => (List.not_mem_nil hm).elim, fun _ hm => (List.not_mem_nil hm).elim,
    fun hs => (Bool.false_ne_true hs).elim⟩

/-- A node that an event says is empty stays so where the transition reaches. -/
theorem event_exec (ha : w.st.active h = true) (hm : Affected T h m)
    (he : (w.st m).ops.event = true → (w.st m).ops.count = 0)
    (he' : ((op.exec T w).st m).ops.event = true) : ((op.exec T w).st m).ops.count = 0 := by
  have hch := opsChange T w op m
  generalize ((op.exec T w).st m).ops = ops at hch he' ⊢
  cases hch with
  | same => exact he he'
  | insert hi => exact absurd hi (not_idle_of_affected ha hm)
  | remove _ event hev =>
    rcases hev he' with h | h
    · simp [he h]
    · exact h
  | reset => cases he'

/-- A step that leaves the waits of `h` alone and does not stop its transition. -/
theorem WaitInv.exec_of_waitOf_eq (hi : WaitInv T w h) (hend : ¬ op.Ends w h)
    (hw : (op.exec T w).waitOf h = w.waitOf h) : WaitInv T (op.exec T w) h := by
  by_cases ha : w.st.active h = true
  · refine ⟨fun hna => ?_, hw ▸ hi.called, ?_, ?_⟩
    · rw [active_exec ha hend] at hna
      cases hna
    · rw [hw]
      intro m hm haff
      exact Nat.le_zero.1 (hi.done m hm haff ▸ count_exec_le ha haff op)
    · rw [hw]
      intro hs
      obtain ⟨m, rest, ht, he⟩ := hi.asleep hs
      exact ⟨m, rest, ht, fun haff => event_exec ha haff (he haff)⟩
  · rw [Bool.not_eq_true] at ha
    have hn := hi.holder ha
    refine ⟨fun _ => hw.trans hn, ?_, ?_, ?_⟩ <;> rw [hw, hn]
    · exact fun _ hm => by cases hm
    · exact fun _ hm => by cases hm
    · exact fun hs => by cases hs

omit [DecidableEq P] [DecidableEq V] in
theorem HolderWait.next_of_todo {hw : HolderWait P V} {rest : List (Node P V)}
    (ht : hw.todo = m :: rest) :
    hw.next = { hw with todo := rest, done := m :: hw.done, asleep := false } := by
  simp [HolderWait.next, ht]

omit [DecidableEq P] [DecidableEq V] in
/-- The wait at the next node ends with nothing in flight there. -/
theorem WaitInv.next {w' : World P V} {rest : List (Node P V)} (hi : WaitInv T w h)
    (hst : w'.st = w.st) (ht : (w.waitOf h).todo = m :: rest)
    (hz : Affected T h m → (w.st m).ops.count = 0)
    (hw : w'.waitOf h = (w.waitOf h).next) : WaitInv T w' h := by
  rw [HolderWait.next_of_todo ht] at hw
  refine ⟨fun hna => ?_, ?_, ?_, ?_⟩
  · rw [hst] at hna
    rw [hi.holder hna] at ht
    cases ht
  · rw [hw]
    intro k hk
    rcases hi.called k hk with hd | hd
    · exact .inl (List.mem_cons_of_mem _ hd)
    · rw [ht] at hd
      rcases List.mem_cons.1 hd with rfl | hd
      · exact .inl List.mem_cons_self
      · exact .inr hd
  · rw [hw, hst]
    intro k hk haff
    rcases List.mem_cons.1 hk with rfl | hk
    · exact hz haff
    · exact hi.done k hk haff
  · rw [hw]
    exact fun hs => by cases hs

theorem WaitInv.exec (hi : WaitInv T w h) (hop : op.Allowed w) : WaitInv T (op.exec T w) h := by
  cases op with
  | transStart pl n desc => exact hi.exec_of_waitOf_eq (by rintro ⟨_, he, -⟩; cases he) rfl
  | transStartWait pl n tran => exact hi.exec_of_waitOf_eq (by rintro ⟨_, he, -⟩; cases he) rfl
  | transStop n =>
    by_cases hn : stopped w.st n = h
    · have hw : (Op.exec T w (.transStop n)).waitOf h = .none := by
        simp [Op.exec, hn]
      refine ⟨fun _ => hw, ?_, ?_, ?_⟩ <;> rw [hw]
      · exact fun _ hm => by cases hm
      · exact fun _ hm => by cases hm
      · exact fun hs => by cases hs
    · refine hi.exec_of_waitOf_eq ?_ ?_
      · rintro ⟨k, he, hk⟩
        cases he
        exact hn hk
      · exact Function.update_of_ne (Ne.symm hn) _ _
  | opStart pl n dbgOk => exact hi.exec_of_waitOf_eq (by rintro ⟨_, he, -⟩; cases he) rfl
  | opStop n => exact hi.exec_of_waitOf_eq (by rintro ⟨_, he, -⟩; cases he) rfl
  | waitCall k f =>
    by_cases hk : k = h
    · subst hk
      obtain ⟨ha, ht⟩ := hop
      have hs : (w.waitOf k).asleep = false := by
        rw [Bool.eq_false_iff]
        intro hs
        obtain ⟨m, rest, ht', -⟩ := hi.asleep hs
        rw [ht] at ht'
        cases ht'
      refine ⟨fun hna => ?_, ?_, ?_, ?_⟩
      · exact absurd (hna.symm.trans ha) Bool.false_ne_true
      · simp only [Op.exec, Function.update_self]
        intro m hm
        rcases List.mem_append.1 hm with hm | hm
        · exact .inr hm
        · rcases hi.called m hm with hd | hd
          · exact .inl hd
          · rw [ht] at hd
            cases hd
      · simpa only [Op.exec, Function.update_self] using hi.done
      · simp [Op.exec, hs]
    · refine hi.exec_of_waitOf_eq (by rintro ⟨_, he, -⟩; cases he) ?_
      exact Function.update_of_ne (Ne.symm hk) _ _
  | waitLook k =>
    obtain ⟨hne, hs⟩ := hop
    obtain ⟨m, rest, ht⟩ := List.exists_cons_of_ne_nil hne
    by_cases hk : k = h
    · subst hk
      by_cases hc : 0 < (w.st m).ops.count
      · have ha : w.st.active k = true := by
          by_contra hna
          rw [hi.holder (Bool.not_eq_true _ ▸ hna)] at ht
          cases ht
        have hw : (Op.exec T w (.waitLook k)).waitOf k = { w.waitOf k with asleep := true } := by
          simp [Op.exec, ht, Dsc.waitLook, hc]
        have he : ((Op.exec T w (.waitLook k)).st m).ops.event = false := by
          simp [Op.exec, ht, Dsc.waitLook, hc]
        refine ⟨fun hna => ?_, ?_, ?_, ?_⟩
        · rw [active_exec ha (by rintro ⟨_, he, -⟩; cases he)] at hna
          cases hna
        · rw [hw]
          exact hi.called
        · rw [hw]
          intro j hj haff
          exact Nat.le_zero.1 (hi.done j hj haff ▸ count_exec_le ha haff _)
        · rw [hw]
          refine fun _ => ⟨m, rest, ht, fun _ he' => ?_⟩
          rw [he] at he'
          cases he'
      · refine hi.next ?_ ht (fun _ => Nat.eq_zero_of_not_pos hc) ?_ <;>
          simp [Op.exec, ht, Dsc.waitLook, hc]
    · refine hi.exec_of_waitOf_eq (by rintro ⟨_, he, -⟩; cases he) ?_
      simp only [Op.exec, ht]
      exact Function.update_of_ne (Ne.symm hk) _ _
  | waitWake k =>
    obtain ⟨hs, m, rest, ht, he⟩ := hop
    by_cases hk : k = h
    · subst hk
      obtain ⟨m', rest', ht', hz⟩ := hi.asleep hs
      rw [ht] at ht'
      cases ht'
      exact hi.next rfl ht (fun haff => hz haff he) (by simp [Op.exec])
    · refine hi.exec_of_waitOf_eq (by rintro ⟨_, he, -⟩; cases he) ?_
      exact Function.update_of_ne (Ne.symm hk) _ _

/-! ## Runs -/

theorem Reachable.countInv (hw : Reachable T w) : CountInv w.st := by
  induction hw with
  | refl => exact fun _ => rfl
  | tail _ hst ih =>
    obtain ⟨op, hop, rfl⟩ := hst
    exact ih.exec hop

theorem Reachable.waitInv (hw : Reachable T w) (h : Node P V) : WaitInv T w h := by
  induction hw with
  | refl => exact WaitInv.init h
  | tail _ hst ih =>
    obtain ⟨op, hop, rfl⟩ := hst
    exact ih.exec hop

/-- A run that does not stop the transition of `h`. -/
def RunUnder (T : DscTree P V) (h : Node P V) : World P V → World P V → Prop :=
  Relation.ReflTransGen fun w w' => ∃ op : Op P V, op.Allowed w ∧ ¬ op.Ends w h ∧ w' = op.exec T w

theorem RunUnder.count_le (hr : RunUnder T h w w') (ha : w.st.active h = true)
    (hm : Affected T h m) :
    w'.st.active h = true ∧ (w'.st m).ops.count ≤ (w.st m).ops.count := by
  induction hr with
  | refl => exact ⟨ha, le_rfl⟩
  | tail _ hst ih =>
    obtain ⟨op, -, hend, rfl⟩ := hst
    exact ⟨active_exec ih.1 hend, (count_exec_le ih.1 hm op).trans ih.2⟩

end

/-- **No operation runs under a transition that has waited.**  In every world a run
    reaches, each count is the number of operations started there and not yet
    stopped.  While a transition stays active, the counts of its node, of its
    ancestors and of its descendants never increase; once its holder's calls of
    the wait functions have returned, nothing is in flight at the affected nodes
    they waited for, until the transition stops. -/
theorem op_counts (T : DscTree P V) {w : World P V} (hw : Reachable T w) :
    (∀ m, (w.st m).ops.started = (w.st m).ops.count + (w.st m).ops.stopped) ∧
    ∀ h, w.st.active h = true → ∀ w', RunUnder T h w w' → ∀ m, Affected T h m →
      (w'.st m).ops.count ≤ (w.st m).ops.count ∧
      (m ∈ (w.waitOf h).called → (w.waitOf h).todo = [] → (w'.st m).ops.count = 0) := by
  refine ⟨fun m => (hw.countInv m).symm, fun h ha w' hr m hm => ?_⟩
  have hle := (hr.count_le ha hm).2
  refine ⟨hle, fun hc ht => ?_⟩
  have hi := hw.waitInv h
  rcases hi.called m hc with hd | hd
  · exact Nat.le_zero.1 (hi.done m hd hm ▸ hle)
  · rw [ht] at hd
    cases hd

/-- An unload waits for an operation of the second psoc. -/
def waitedUnload : List (Op Bool Empty) :=
  [.opStart calmPlatform (.psoc true) true, .transStart calmPlatform .driver "unload",
   .waitCall .driver .driverOps, .waitLook .driver, .waitLook .driver, .waitLook .driver,
   .opStop (.psoc true), .waitWake .driver]

theorem op_counts_waitedUnload :
    ((execAll twoPsocs (World.init Bool Empty) waitedUnload).st (.psoc true)).ops.count = 0 :=
  have hops : AllAllowed twoPsocs (World.init Bool Empty) waitedUnload :=
    ⟨trivial, trivial, ⟨rfl, rfl⟩, ⟨List.cons_ne_nil _ _, rfl⟩, ⟨List.cons_ne_nil _ _, rfl⟩,
      ⟨List.cons_ne_nil _ _, rfl⟩, Nat.one_pos, ⟨rfl, .psoc true, [], rfl, rfl⟩, trivial⟩
  ((op_counts twoPsocs (Reachable.execAll .refl hops)).2 .driver rfl _ .refl (.psoc true)
    (.inr (.inl trivial))).2 (by decide) rfl

end Sm8850.Dsc
