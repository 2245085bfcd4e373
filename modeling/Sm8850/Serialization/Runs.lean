/-
  Runs of the serialization engine.

  * `ReachableUnder`: the states of the runs whose steps meet a condition.
  * `Guard` is what a condition of the steps says about their effects, and
    `Kept.reachable` the induction: what every guarded effect keeps holds in every
    state that is reached.
-/
import Sm8850.Serialization.Turns

namespace Sm8850.Serialization

variable {w w' : World} {n : ℕ} {c : Command} {vdevs : Vdevs} {fs fs' others : List Frame}
  {lab : Label} {C : World → Op → Prop}

/-- The states of the runs whose steps meet a condition. -/
inductive ReachableUnder (C : World → Op → Prop) (vdevs : Vdevs) : World → Prop
  | init : ReachableUnder C vdevs .init
  | step {w : World} {op : Op} (h : ReachableUnder C vdevs w) (ha : op.Allowed vdevs w)
      (hc : C w op) : ReachableUnder C vdevs (op.exec w)

/-- The frame that a step runs. -/
def Op.next (w : World) : Op → Option Frame
  | .go t _ => w.todo[t]?.bind List.head?
  | _ => none

theorem Op.allowed_go {t : ℕ} {ok : Bool} :
    (Op.go t ok).Allowed vdevs w ↔ ((Op.go t ok).next w).isSome = true := by
  rw [Op.Allowed, Op.next]
  cases h : w.todo[t]? with
  | none => simp
  | some l => cases l <;> simp

instance (w : World) (op : Op) : Decidable (op.Allowed vdevs w) :=
  match op with
  | .request cmd => inferInstanceAs (Decidable (cmd.vdev ∈ vdevs.ids))
  | .go _ _ => decidable_of_iff _ Op.allowed_go.symm
  | .call _ | .disable _ | .scansElsewhere _ => isTrue trivial

/-- The steps can be taken one after the other, and meet a condition. -/
def Steps (C : World → Op → Prop) (vdevs : Vdevs) : World → List Op → Prop
  | _, [] => True
  | w, op :: ops => op.Allowed vdevs w ∧ C w op ∧ Steps C vdevs (op.exec w) ops

instance Steps.decidable (C : World → Op → Prop) [∀ w op, Decidable (C w op)] :
    ∀ (w : World) (ops : List Op), Decidable (Steps C vdevs w ops)
  | _, [] => isTrue trivial
  | w, op :: ops =>
    have := Steps.decidable C (op.exec w) ops
    inferInstanceAs (Decidable (_ ∧ _ ∧ _))

theorem ReachableUnder.execAll {ops : List Op} (h : ReachableUnder C vdevs w)
    (hs : Steps C vdevs w ops) : ReachableUnder C vdevs (execAll w ops) := by
  induction ops generalizing w with
  | nil => exact h
  | cons op ops ih => exact ih (h.step hs.1 hs.2.1) hs.2.2

/-- What a condition says about the effects of a step: about the command that is
    moved to the active list, the request that is accepted and the list it goes to,
    and the request that is refused. -/
structure Guard where
  move : World → Command → Prop
  accept : World → Bool → Command → Prop
  refuse : World → Command → Prop

/-- The effect meets the guard. -/
def Guard.Meets (G : Guard) (w : World) : Label → Prop
  | .move _ c => c.kind = .nonScan → G.move w c
  | .accept b _ c => G.accept w b c
  | .refuse c => G.refuse w c
  | _ => True

/-- The step meets the guard. -/
def Guard.Allows (G : Guard) (w : World) : Op → Prop
  | .request cmd =>
    if w.Accepts cmd then G.accept w (w.target cmd) { cmd with req := w.nextReq }
    else (cmd.kind = .nonScan → (w.vdevQ cmd.vdev).queueDisable = false) → G.refuse w cmd
  | .go t _ => ∀ f rest, w.todo[t]? = some (f :: rest) → ∀ c, f.picks w = some c → G.move w c
  | _ => True

/-- Every effect meets this guard. -/
def Guard.free : Guard := ⟨fun _ _ => True, fun _ _ _ => True, fun _ _ => True⟩

theorem Guard.free_allows (w : World) (op : Op) : Guard.free.Allows w op := by
  cases op with
  | request cmd =>
    rw [Guard.Allows]
    split
    · trivial
    · exact fun _ => trivial
  | go t ok => exact fun _ _ _ _ _ => trivial
  | _ => trivial

/-- What every guarded effect keeps. -/
structure Kept (vdevs : Vdevs) (G : Guard) (P : World → List Frame → Prop) : Prop where
  init : P .init []
  aside : ∀ {w fs} (todo : List (List Frame)) (elsewhere : ℕ), P w fs →
    P { w with todo := todo, scansElsewhere := elsewhere } fs
  perm : ∀ {w fs fs'}, fs.Perm fs' → P w fs → P w fs'
  effect : ∀ {w w' fs fs' others lab}, Base vdevs w (fs ++ others) → Effect vdevs w fs lab w' fs' →
    G.Meets w lab → P w (fs ++ others) → P w' (fs' ++ others)

/-! ## Frames -/

theorem flatten_perm {todo : List (List Frame)} {t : ℕ} {l : List Frame} (h : todo[t]? = some l) :
    todo.flatten.Perm (l ++ (todo.eraseIdx t).flatten) := by
  obtain ⟨ht, rfl⟩ := List.getElem?_eq_some_iff.1 h
  exact (List.getElem_cons_eraseIdx_perm ht).symm.flatten

theorem flatten_set_perm {todo : List (List Frame)} {t : ℕ} (h : t < todo.length)
    (l : List Frame) : (todo.set t l).flatten.Perm (l ++ (todo.eraseIdx t).flatten) := by
  have hget : (todo.set t l)[t]? = some l := by simp [h]
  have := flatten_perm hget
  rwa [List.eraseIdx_set_eq] at this

theorem Call.frames_idle (call : Call) : ∀ f ∈ call.frames, f.idle = true := by
  cases call with
  | cancelRequest key type active pending =>
    cases active <;> cases pending <;> simp [frames, findAndCancelCmd, Frame.idle]
  | removeCmd | timeout => simp [frames, Frame.idle]
  | _ => simp [frames, purge, Frame.idle]

/-! ## The induction -/

theorem Base.kept (G : Guard) : Kept vdevs G (Base vdevs) where
  init :=
    { placed :=
        { once := fun k n => by
            simp [World.init, PdevQueue.init, PdevQueue.list, List.count_range]
          cmd := fun k b n hn => by
            cases b <;> simp [World.init, PdevQueue.init, PdevQueue.list] at hn
          free := fun k n _ => rfl
          synced := fun v b => by cases b <;> rfl
          vsize := fun v b => by
            cases b <;> simp [World.num, World.init, PdevQueue.init, PdevQueue.list] }
      bits := fun v => rfl
      reqs := fun r => rfl
      pending := fun k key => Nat.zero_le _ }
  aside todo elsewhere h :=
    { placed := ⟨h.placed.once, h.placed.cmd, h.placed.free, h.placed.synced, h.placed.vsize⟩
      bits := h.bits
      reqs := h.reqs
      pending := h.pending }
  perm hp h :=
    { placed := h.placed
      bits := fun v => by
        rw [← h.bits v, World.occupied, World.occupied, hp.countP_eq]
      reqs := fun r => by rw [← h.reqs r, hp.countP_eq]
      pending := h.pending }
  effect _ h _ hB := hB.effect h

theorem Effect.todo (h : Effect vdevs w fs lab w' fs') : w'.todo = w.todo := by
  cases h with
  | rest h | refuse _ h | clear _ _ _ _ _ _ h | accept _ _ _ h | move _ _ h | remove _ _ h
  | cancel _ _ _ _ _ _ h => exact h.todo
  | release req => rfl

theorem disable_effect (w : World) (v : ℕ) :
    Effect vdevs w [] .rest (w.setVdevQ v { w.vdevQ v with queueDisable := true }) [] := by
  have hlist : ∀ v' b, ((w.setVdevQ v { w.vdevQ v with queueDisable := true }).vdevQ v').list b =
      (w.vdevQ v').list b := fun v' b => by
    by_cases hv : v' = v
    · subst hv
      cases b <;> simp [VdevQueue.list]
    · simp [hv]
  exact .rest ⟨fun _ => .rfl, fun _ _ => rfl, hlist, fun _ _ => rfl, fun _ _ => id,
    rfl, rfl, rfl, rfl⟩ rfl (by simp) (by simp)

/-- The frames of all the calls, in whatever order. -/
theorem Kept.withTodo {G : Guard} {P : World → List Frame → Prop} (hP : Kept vdevs G P)
    {todo : List (List Frame)} (hp : fs.Perm todo.flatten) (h : P w fs) :
    P { w with todo := todo } ({ w with todo := todo } : World).frames :=
  hP.perm hp (hP.aside todo w.scansElsewhere h)

/-- The frames of a new call come last. -/
theorem Kept.start {G : Guard} {P : World → List Frame → Prop} (hP : Kept vdevs G P)
    (h : P w' (fs' ++ w.frames)) (ht : w'.todo = w.todo) :
    P (w'.start fs') (w'.start fs').frames := by
  refine hP.withTodo ?_ h
  rw [ht, List.flatten_append, List.flatten_singleton]
  exact List.perm_append_comm

theorem Kept.exec {G : Guard} {P : World → List Frame → Prop} (hP : Kept vdevs G P) {op : Op}
    (ha : op.Allowed vdevs w) (hG : G.Allows w op) (hB : Base vdevs w w.frames)
    (h : P w w.frames) : P (op.exec w) (op.exec w).frames := by
  have hempty : ∀ {w' : World} {fs' : List Frame} {lab : Label}, Effect vdevs w [] lab w' fs' →
      G.Meets w lab → P w' (fs' ++ w.frames) := fun he hm => hP.effect hB he hm h
  cases op with
  | request cmd =>
    rw [Op.exec]
    rw [Guard.Allows] at hG
    rcases enqueue_effect hB ha with ⟨hacc, n, he⟩ | ⟨hacc, lab, he, hlab⟩
    · rw [if_pos hacc] at hG
      exact hP.start (hempty he hG) he.todo
    · rw [if_neg hacc] at hG
      refine hP.start (hempty he ?_) he.todo
      rcases hlab with ⟨rfl, -⟩ | ⟨rfl, hd⟩
      · trivial
      · exact hG hd
  | call call =>
    have he : Effect vdevs w [] .rest w call.frames :=
      .rest (.refl w) rfl (by simp) call.frames_idle
    exact hP.start (hempty he trivial) rfl
  | go t ok =>
    obtain ⟨f, rest, ht⟩ := ha
    have hfr : w.frames.Perm (f :: (rest ++ (w.todo.eraseIdx t).flatten)) := flatten_perm ht
    have hG := hG f rest ht
    have hB' : Base vdevs w ([f] ++ (rest ++ (w.todo.eraseIdx t).flatten)) :=
      (Base.kept G).perm hfr hB
    have h' := hP.perm hfr h
    have hlt : t < w.todo.length := (List.getElem?_eq_some_iff.1 ht).1
    have hdone : P (f.run w ok).1 ((f.run w ok).2 ++ (rest ++ (w.todo.eraseIdx t).flatten)) ∧
        (f.run w ok).1.todo = w.todo := by
      rcases Frame.run_effect hB' ok with ⟨lab, he, hlab⟩ | ⟨w₁, b, v, blocking, lab, hc, he, hlab⟩
      · refine ⟨hP.effect hB' he ?_ h', he.todo⟩
        cases lab with
        | move n c => exact fun hk => hG c (hlab hk)
        | refuse | accept => exact hlab.elim
        | _ => trivial
      · have h₁ := hP.effect hB' hc trivial h'
        have hB₁ := hB'.effect hc
        refine ⟨hP.effect hB₁ he ?_ h₁, he.todo.trans hc.todo⟩
        rcases hlab with rfl | ⟨n, c, rfl⟩ <;> trivial
    simp only [Op.exec, ht]
    have hperm := flatten_set_perm hlt ((f.run w ok).2 ++ rest)
    rw [World.setTodo, hdone.2]
    refine hP.withTodo ?_ hdone.1
    rw [← List.append_assoc]
    exact hperm.symm
  | disable v =>
    exact hempty (disable_effect w v) trivial
  | scansElsewhere count => exact hP.aside w.todo count h

/-- **What every guarded effect keeps holds in every state that is reached.** -/
theorem Kept.reachable {G : Guard} {P : World → List Frame → Prop} (hP : Kept vdevs G P)
    (hC : ∀ w op, C w op → G.Allows w op) (h : ReachableUnder C vdevs w) :
    Base vdevs w w.frames ∧ P w w.frames := by
  induction h with
  | init => exact ⟨(Base.kept G).init, hP.init⟩
  | step h ha hc ih =>
    have hG := hC _ _ hc
    exact ⟨(Base.kept G).exec ha hG ih.1 ih.1, hP.exec ha hG ih.1 ih.2⟩

end Sm8850.Serialization
