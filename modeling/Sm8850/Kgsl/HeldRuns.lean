/-
  Binds, unbinds and releases of many VBOs in any order, while MMU calls fail.

  * `World.Held` is the invariant: every VBO is guarded, and the counters of a child
    are what the ranges, the leaked ranges and the pending operations make of them.
  * An operation takes what its elements name, and gives it back (`Named`).
  * **`ranges_held`**: as long as no unmap of a bind fails where it splits a range,
    ranges are disjoint and no child is freed while a VBO maps it.
  * `ranges_held_splitFails`: otherwise two ranges of the tree may overlap.
-/
import Mathlib.Algebra.GroupWithZero.Nat
import Sm8850.Kgsl.BindOp
import Sm8850.Kgsl.VboAgree
import Sm8850.Kgsl.VboHeld

namespace Sm8850.Kgsl

variable {ι : Type} [DecidableEq ι] {children : ℕ → Memdesc} {target : Memdesc}
  {w w' : World ι} {m m' : Mem} {t t' : Target} {op : BindOpRange} {ops : List BindOpRange}
  {range : GpumemBindRange} {ranges : List GpumemBindRange} {b : BindOp ι}
  {pending : List (BindOp ι)} {ref vbo : ℕ → ℕ} {e : ℕ} {i : ι}

/-! ## Operations -/

/-- How many elements name the child. -/
def opsNaming (e : ℕ) (ops : List BindOpRange) : ℕ := ops.countP fun op => op.entry = some e

/-- The counters are those of the elements, and `ref` and `vbo` more. -/
structure Named (m : Mem) (ops : List BindOpRange) (ref vbo : ℕ → ℕ) : Prop where
  refcount : ∀ e, m.refcount e = opsNaming e ops + ref e
  vboCount : ∀ e, m.vboCount e = opsNaming e ops + vbo e

/-- An element lies in the VBO. -/
def BindOpRange.Inside (size : ℕ) (op : BindOpRange) : Prop := op.start ≤ op.last ∧ op.last < size

theorem opsNaming_cons (e : ℕ) (op : BindOpRange) (ops : List BindOpRange) :
    opsNaming e (op :: ops) = opsNaming e ops + if op.entry = some e then 1 else 0 := by
  unfold opsNaming
  rw [List.countP_cons]
  simp only [decide_eq_true_eq]

theorem opsNaming_append (e : ℕ) (ops ops' : List BindOpRange) :
    opsNaming e (ops ++ ops') = opsNaming e ops + opsNaming e ops' := List.countP_append

/-- The references of an element are given back. -/
theorem Named.put (h : Named m (op :: ops) ref vbo) : Named (putBindOpRange m op) ops ref vbo := by
  unfold putBindOpRange
  split
  · rename_i hop
    refine ⟨fun e => ?_, fun e => ?_⟩
    · rw [h.refcount, opsNaming_cons, if_neg (by simp [hop]), Nat.add_zero]
    · rw [h.vboCount, opsNaming_cons, if_neg (by simp [hop]), Nat.add_zero]
  · rename_i x hop
    have hr := h.refcount x
    have hv := h.vboCount x
    rw [opsNaming_cons, if_pos hop] at hr hv
    have hif : ∀ e, (if op.entry = some e then 1 else 0) = if e = x then 1 else 0 := fun e => by
      simp only [hop, Option.some.injEq, eq_comm]
    refine ⟨fun e => ?_, fun e => ?_⟩
    · have hpred := update_pred (f := m.refcount) (e := x) (by omega) e
      have he := h.refcount e
      rw [opsNaming_cons, hif] at he
      show Function.update m.refcount x (m.refcount x - 1) e = _
      omega
    · have hpred := update_pred (f := m.vboCount) (e := x) (by omega) e
      have he := h.vboCount e
      rw [opsNaming_cons, hif] at he
      show Function.update m.vboCount x (m.vboCount x - 1) e = _
      omega

/-- `kgsl_sharedmem_free_bind_op` gives back all of them. -/
theorem Named.free (h : Named m ops ref vbo) :
    Named (kgslSharedmemFreeBindOp m ops) [] ref vbo := by
  induction ops generalizing m with
  | nil => exact h
  | cons op ops ih => exact ih h.put

/-- A reference taken for an element at the end of the list. -/
theorem Named.push (h : Named m ops ref vbo) (hm : OneMore m m' e) (hop : op.entry = some e) :
    Named m' (ops ++ [op]) ref vbo := by
  have hone : ∀ x, opsNaming x [op] = if x = e then 1 else 0 := fun x => by
    rw [opsNaming_cons, hop]
    by_cases hx : x = e
    · rw [if_pos (congrArg some hx.symm), if_pos hx]
      rfl
    · rw [if_neg fun h => hx (Option.some.inj h).symm, if_neg hx]
      rfl
  refine ⟨fun x => ?_, fun x => ?_⟩
  · rw [hm.refcount, h.refcount, opsNaming_append, hone]
    omega
  · rw [hm.vboCount, h.vboCount, opsNaming_append, hone]
    omega

/-- A range that passed the checks lies in its target. -/
theorem inside_of_checkTarget (h : checkTarget target range = true) (entry : Option ℕ) :
    (range.element entry).Inside target.size := by
  unfold checkTarget kgslMemdescCheckRange at h
  simp only [Bool.and_eq_true, decide_eq_true_eq] at h
  obtain ⟨⟨⟨-, hlen⟩, -⟩, ⟨-, hlt⟩, hle⟩ := h
  have hadd := UInt64.toNat_add range.targetOffset range.length
  have hoff := range.targetOffset.toNat_lt
  have hlength := range.length.toNat_lt
  have hlt := UInt64.lt_iff_toNat_lt.1 hlt
  show range.targetOffset.toNat ≤ range.targetOffset.toNat + range.length.toNat - 1 ∧
    range.targetOffset.toNat + range.length.toNat - 1 < target.size
  omega

/-- What `kgsl_sharedmem_create_bind_op` makes of the counters. -/
def Created (target : Memdesc) (ref vbo : ℕ → ℕ) : Mem × Option (List BindOpRange) → Prop
  | (m, none) => Named m [] ref vbo
  | (m, some ops) => Named m ops ref vbo ∧ ∀ op ∈ ops, op.Inside target.size

/-- A turn of the loop takes what its element names. -/
theorem createBindOpRange_named {element : Option BindOpRange} {ok : Bool}
    (hn : Named m ops ref vbo)
    (h : createBindOpRange children target m range = (m', element, ok)) :
    Named m' (ops ++ element.toList) ref vbo ∧ ∀ op ∈ element, op.Inside target.size := by
  unfold createBindOpRange at h
  split at h
  · rename_i hcheck
    split at h
    · obtain ⟨rfl, rfl, rfl⟩ := h
      refine ⟨⟨fun e => ?_, fun e => ?_⟩, fun op hop => ?_⟩
      · rw [hn.refcount, opsNaming_append]
        rfl
      · rw [hn.vboCount, opsNaming_append]
        rfl
      · obtain rfl := Option.mem_some_iff.1 hop
        exact inside_of_checkTarget hcheck none
    · split at h
      · obtain ⟨rfl, rfl, rfl⟩ := h
        exact ⟨by rwa [Option.toList_none, List.append_nil], fun op hop => (nomatch hop)⟩
      · rename_i m₁ hget
        obtain ⟨rfl, rfl, rfl⟩ := h
        refine ⟨hn.push (e := range.childId) ?_ rfl, fun op hop => ?_⟩
        · unfold kgslMemEntryGet at hget
          split at hget
          · cases hget
          · obtain rfl := Option.some.inj hget
            exact ⟨fun x => update_succ _ _ _, fun x => update_succ _ _ _⟩
        · obtain rfl := Option.mem_some_iff.1 hop
          exact inside_of_checkTarget hcheck _
  · obtain ⟨rfl, rfl, rfl⟩ := h
    exact ⟨by rwa [Option.toList_none, List.append_nil], fun op hop => (nomatch hop)⟩

theorem createBindOpLoop_created (hn : Named m ops ref vbo)
    (hin : ∀ op ∈ ops, op.Inside target.size) :
    Created target ref vbo (createBindOpLoop children target m ops ranges) := by
  induction ranges generalizing m ops with
  | nil => exact ⟨hn, hin⟩
  | cons range ranges ih =>
    unfold createBindOpLoop
    split
    · rename_i m₁ element h
      obtain ⟨hn', hin'⟩ := createBindOpRange_named hn h
      refine ih hn' fun op hop => ?_
      rcases List.mem_append.1 hop with hop | hop
      · exact hin op hop
      · exact hin' op (Option.mem_toList.1 hop)
    · rename_i m₁ element h
      exact (createBindOpRange_named hn h).1.free

theorem kgslSharedmemCreateBindOp_created (children : ℕ → Memdesc) (target : Memdesc) (ok : Bool)
    (ranges : List GpumemBindRange) (hn : Named m [] ref vbo) :
    Created target ref vbo (kgslSharedmemCreateBindOp children target ok m ranges) := by
  unfold kgslSharedmemCreateBindOp
  split
  · exact createBindOpLoop_created hn fun op hop => absurd hop List.not_mem_nil
  · exact hn

/-! ## The world -/

/-- How many elements of pending operations name the child. -/
def pendingNaming (e : ℕ) (pending : List (BindOp ι)) : ℕ :=
  (pending.map fun b => opsNaming e b.ops).sum

theorem pendingNaming_erase (hb : b ∈ pending) (e : ℕ) :
    pendingNaming e pending = opsNaming e b.ops + pendingNaming e (pending.erase b) := by
  have hp := (List.perm_cons_erase hb).map fun b => opsNaming e b.ops
  exact hp.sum_eq.trans List.sum_cons

section World

variable [Fintype ι]

/-- How many ranges of the VBOs hold the child. -/
def World.bound (w : World ι) (e : ℕ) : ℕ := ∑ i, naming e (w.vbo i).claims

/-- How many ranges of the other VBOs hold the child. -/
def World.boundBut (w : World ι) (i : ι) (e : ℕ) : ℕ :=
  ∑ j ∈ Finset.univ.erase i, naming e (w.vbo j).claims

/-- The invariant. -/
structure World.Held (w : World ι) : Prop where
  guarded : ∀ i, Guarded (w.vbo i)
  gpuaddr : ∀ i, w.released i = false → (w.vbo i).gpuaddr ≠ 0
  live : ∀ b ∈ w.pending, w.released b.target = false
  inside : ∀ b ∈ w.pending, ∀ op ∈ b.ops, op.Inside (w.vbo b.target).size
  refcount : ∀ e, w.mem.refcount e = w.bound e + pendingNaming e w.pending + w.user e
  vboCount : ∀ e, w.mem.vboCount e = w.bound e + pendingNaming e w.pending

theorem World.bound_eq (w : World ι) (i : ι) (e : ℕ) :
    w.bound e = naming e (w.vbo i).claims + w.boundBut i e :=
  (Finset.add_sum_erase _ _ (Finset.mem_univ i)).symm

theorem World.boundBut_set (w : World ι) (i : ι) (t : Target) (e : ℕ) :
    (w.set i t).boundBut i e = w.boundBut i e := by
  refine Finset.sum_congr rfl fun j hj => ?_
  show naming e (Function.update w.vbo i t.vbo j).claims = _
  rw [Function.update_of_ne (Finset.ne_of_mem_erase hj)]

/-- What the counters are for one of the VBOs. -/
theorem World.Held.counted (h : w.Held) (i : ι) : Counted w.mem (w.vbo i).claims
    (fun e => w.boundBut i e + pendingNaming e w.pending + w.user e)
    (fun e => w.boundBut i e + pendingNaming e w.pending) where
  refcount e := by
    rw [h.refcount, w.bound_eq i]
    omega
  vboCount e := by
    rw [h.vboCount, w.bound_eq i]
    omega

/-- An operation on a VBO keeps the invariant if it keeps that of the VBO. -/
theorem World.Held.set (h : w.Held) (released : ι → Bool) (hg : Guarded t.vbo)
    (hgpu : released i = false → t.vbo.gpuaddr ≠ 0)
    (hrest : ∀ j, j ≠ i → released j = w.released j)
    (hlive : ∀ b ∈ w.pending, b.target = i → released i = false ∧ t.vbo.size = (w.vbo i).size)
    (hc : Counted t.mem t.vbo.claims
      (fun e => w.boundBut i e + pendingNaming e w.pending + w.user e)
      (fun e => w.boundBut i e + pendingNaming e w.pending)) :
    World.Held { w.set i t with released := released } := by
  have hvbo : ∀ j, (w.set i t).vbo j = if j = i then t.vbo else w.vbo j := fun j =>
    Function.update_apply _ _ _ _
  have hbound : ∀ e, (w.set i t).bound e = naming e t.vbo.claims + w.boundBut i e := fun e => by
    rw [World.bound_eq _ i, w.boundBut_set, hvbo, if_pos rfl]
  refine ⟨fun j => ?_, fun j hj => ?_, fun b hb => ?_, fun b hb op hop => ?_, fun e => ?_,
    fun e => ?_⟩
  · show Guarded ((w.set i t).vbo j)
    rw [hvbo]
    split
    · exact hg
    · exact h.guarded j
  · show ((w.set i t).vbo j).gpuaddr ≠ 0
    have hj : released j = false := hj
    rw [hvbo]
    split
    · rename_i heq
      exact hgpu (heq ▸ hj)
    · rename_i hne
      exact h.gpuaddr j (hrest j hne ▸ hj)
  · show released b.target = false
    by_cases heq : b.target = i
    · exact heq ▸ (hlive b hb heq).1
    · rw [hrest _ heq]
      exact h.live b hb
  · show op.Inside ((w.set i t).vbo b.target).size
    have hop := h.inside b hb op hop
    rw [hvbo]
    split
    · rename_i heq
      rw [(hlive b hb heq).2, ← heq]
      exact hop
    · exact hop
  · show t.mem.refcount e = (w.set i t).bound e + pendingNaming e w.pending + w.user e
    rw [hc.refcount, hbound]
    omega
  · show t.mem.vboCount e = (w.set i t).bound e + pendingNaming e w.pending
    rw [hc.vboCount, hbound]
    omega

theorem naming_claims (e : ℕ) (v : Vbo) :
    naming e v.claims = naming e v.ranges + naming e v.leaked := List.countP_append

/-- What leaked earlier stays counted over a bind or an unbind. -/
theorem Kept.claims (h : Kept t t') (hc : Counted t.mem t.vbo.claims ref vbo) :
    Counted t'.mem t'.vbo.claims ref vbo := by
  have hk := h.counted (fun e => naming e t.vbo.leaked + ref e)
    (fun e => naming e t.vbo.leaked + vbo e) ⟨fun e => ?_, fun e => ?_⟩
  · refine ⟨fun e => ?_, fun e => ?_⟩
    · rw [hk.refcount, naming_claims, h.same.leaked, Nat.add_assoc]
    · rw [hk.vboCount, naming_claims, h.same.leaked, Nat.add_assoc]
  · rw [hc.refcount, naming_claims, Nat.add_assoc]
  · rw [hc.vboCount, naming_claims, Nat.add_assoc]

/-! ## Steps -/

/-- No unmap fails in the branch of a bind that splits a range. -/
def WorldAct.SplitsUnmapped (w : World ι) : WorldAct ι → Prop
  | .work b op mmu alloc => op.op = .bind → alloc = true →
      Kgsl.SplitsUnmapped mmu (w.vbo b.target) op.start op.last
  | _ => True

/-- No unmap of a release fails. -/
def WorldAct.ReleaseUnmaps : WorldAct ι → Prop
  | .release _ mmu => mmu.unmaps
  | _ => True

theorem bindWorkerStep_kept {mmu : Mmu.Outcome} {alloc : Bool} (hgpu : t.vbo.gpuaddr ≠ 0)
    (hg : Guarded t.vbo) (hin : op.Inside t.vbo.size)
    (hsplit : op.op = .bind → alloc = true → SplitsUnmapped mmu t.vbo op.start op.last)
    (h : bindWorkerStep mmu alloc t op = some t') : Kept t t' := by
  unfold bindWorkerStep at h
  split at h
  · rename_i hbind _
    obtain ⟨⟨t₁, done⟩, hadd, rfl⟩ := Option.map_eq_some_iff.1 h
    exact addRange_kept hgpu hg hin.1 hin.2 (hsplit hbind) hadd
  · cases h
  · obtain rfl := Option.some.inj h
    exact removeRange_kept hgpu hg mmu op.start op.last op.entry

/-- **A step keeps the invariant** if no unmap fails where a bind splits a range. -/
theorem World.Held.step (h : w.Held) {a : WorldAct ι} (ha : a.SplitsUnmapped w)
    (hs : worldStep children w a = some w') : w'.Held := by
  cases a with
  | create i secure ok ranges =>
    simp only [worldStep] at hs
    split at hs
    · cases hs
    · rename_i hrel
      have hn : Named w.mem [] w.mem.refcount w.mem.vboCount :=
        ⟨fun e => (Nat.zero_add _).symm, fun e => (Nat.zero_add _).symm⟩
      have hc :=
        kgslSharedmemCreateBindOp_created children ⟨(w.vbo i).size, true, secure⟩ ok ranges hn
      split at hs
      · rename_i m hm
        rw [hm] at hc
        obtain rfl := Option.some.inj hs
        exact ⟨h.guarded, h.gpuaddr, h.live, h.inside,
          fun e => (hc.refcount e).trans ((Nat.zero_add _).trans (h.refcount e)),
          fun e => (hc.vboCount e).trans ((Nat.zero_add _).trans (h.vboCount e))⟩
      · rename_i m ops hm
        rw [hm] at hc
        obtain ⟨hc, hin⟩ := hc
        obtain rfl := Option.some.inj hs
        refine ⟨h.guarded, h.gpuaddr, fun b hb => ?_, fun b hb => ?_, fun e => ?_, fun e => ?_⟩
        · rcases List.mem_cons.1 hb with rfl | hb
          · exact Bool.eq_false_iff.2 hrel
          · exact h.live b hb
        · rcases List.mem_cons.1 hb with rfl | hb
          · exact hin
          · exact h.inside b hb
        · show m.refcount e = w.bound e + (opsNaming e ops + pendingNaming e w.pending) + w.user e
          rw [hc.refcount, h.refcount]
          omega
        · show m.vboCount e = w.bound e + (opsNaming e ops + pendingNaming e w.pending)
          rw [hc.vboCount, h.vboCount]
          omega
  | work b op mmu alloc =>
    simp only [worldStep] at hs
    split at hs
    · rename_i hmem
      obtain ⟨t, ht, rfl⟩ := Option.map_eq_some_iff.1 hs
      have hlive := h.live b hmem.1
      have hk := bindWorkerStep_kept (t := ⟨w.vbo b.target, w.mem⟩) (h.gpuaddr _ hlive)
        (h.guarded _) (h.inside b hmem.1 op hmem.2) ha ht
      have hset := h.set (i := b.target) w.released hk.guarded
        (fun _ => hk.same.gpuaddr ▸ h.gpuaddr _ hlive) (fun _ _ => rfl)
        (fun _ _ _ => ⟨hlive, hk.same.size⟩) (hk.claims (h.counted b.target))
      exact hset
    · cases hs
  | free b =>
    simp only [worldStep] at hs
    split at hs
    · rename_i hb
      obtain rfl := Option.some.inj hs
      have hn : Named w.mem b.ops
          (fun e => w.bound e + pendingNaming e (w.pending.erase b) + w.user e)
          (fun e => w.bound e + pendingNaming e (w.pending.erase b)) := by
        refine ⟨fun e => ?_, fun e => ?_⟩
        · rw [h.refcount, pendingNaming_erase hb]
          omega
        · rw [h.vboCount, pendingNaming_erase hb]
          omega
      refine ⟨h.guarded, h.gpuaddr, fun x hx => h.live x (List.mem_of_mem_erase hx),
        fun x hx => h.inside x (List.mem_of_mem_erase hx), fun e => ?_, fun e => ?_⟩
      · exact (hn.free.refcount e).trans (Nat.zero_add _)
      · exact (hn.free.vboCount e).trans (Nat.zero_add _)
    · cases hs
  | release i mmu =>
    simp only [worldStep] at hs
    split at hs
    · cases hs
    · rename_i hnot
      obtain rfl := Option.some.inj hs
      obtain ⟨hrel, hpend⟩ := not_or.1 hnot
      have hr := putGpuaddr_released (t := ⟨w.vbo i, w.mem⟩)
        (h.gpuaddr i (Bool.eq_false_iff.2 hrel)) (h.guarded i) mmu
      refine h.set _ hr.guarded (fun hf => ?_) (fun j hj => Function.update_of_ne hj _ _)
        (fun b hb heq => absurd ⟨b, hb, heq⟩ hpend) (hr.counted _ _ (h.counted i))
      rw [Function.update_self] at hf
      cases hf
  | get e =>
    simp only [worldStep] at hs
    obtain ⟨m, hm, rfl⟩ := Option.map_eq_some_iff.1 hs
    unfold kgslMemEntryGet at hm
    split at hm
    · cases hm
    · obtain rfl := Option.some.inj hm
      refine ⟨h.guarded, h.gpuaddr, h.live, h.inside, fun x => ?_, h.vboCount⟩
      show Function.update w.mem.refcount e _ x =
        w.bound x + pendingNaming x w.pending + Function.update w.user e _ x
      rw [update_succ, update_succ, h.refcount, Nat.add_assoc]
  | put e =>
    simp only [worldStep] at hs
    split at hs
    · cases hs
    · rename_i huser
      obtain rfl := Option.some.inj hs
      refine ⟨h.guarded, h.gpuaddr, h.live, h.inside, fun x => ?_, h.vboCount⟩
      show Function.update w.mem.refcount e _ x =
        w.bound x + pendingNaming x w.pending + Function.update w.user e _ x
      have hr := h.refcount e
      have hx := h.refcount x
      have hpred := update_pred (f := w.mem.refcount) (e := e) (by omega) x
      have hpred' := update_pred (f := w.user) (e := e) (by omega) x
      omega

/-! ## Runs -/

/-- The runs of the world all of whose steps are `allowed`. -/
inductive WorldRun (children : ℕ → Memdesc) (allowed : World ι → WorldAct ι → Prop) :
    World ι → Prop
  | init (vbo : ι → Bool × ℕ × ℕ) (user : ℕ → ℕ) (hgpu : ∀ i, (vbo i).2.2 ≠ 0) :
      WorldRun children allowed (World.init vbo user)
  | step {w w' : World ι} {a : WorldAct ι} (hw : WorldRun children allowed w) (ha : allowed w a)
      (hs : worldStep children w a = some w') : WorldRun children allowed w'

/-- No unmap of a bind that splits a range fails. -/
def splitsOnly (w : World ι) (a : WorldAct ι) : Prop := a.SplitsUnmapped w

/-- No unmap of a release fails either. -/
def noLeaks (w : World ι) (a : WorldAct ι) : Prop := a.SplitsUnmapped w ∧ a.ReleaseUnmaps

omit [DecidableEq ι] in
theorem World.init_held (vbo : ι → Bool × ℕ × ℕ) (user : ℕ → ℕ) (hgpu : ∀ i, (vbo i).2.2 ≠ 0) :
    (World.init vbo user).Held := by
  have hnone : ∀ e, (World.init vbo user).bound e = 0 := fun e =>
    Finset.sum_eq_zero fun _ _ => rfl
  refine ⟨fun i => ⟨⟨?_, ?_, .nil⟩, fun p e c hp => ?_⟩, fun i _ => hgpu i, ?_, ?_, fun e => ?_,
    fun e => ?_⟩
  · exact fun r hr => absurd hr List.not_mem_nil
  · exact fun r hr => absurd hr List.not_mem_nil
  · have hp : (if (vbo i).1 then Pte.unmapped
      else if p * pageSize < (vbo i).2.1 then .zero else .unmapped) = .child e c := hp
    split at hp
    · cases hp
    · split at hp <;> cases hp
  · exact fun b hb => absurd hb List.not_mem_nil
  · exact fun b hb => absurd hb List.not_mem_nil
  · rw [hnone]
    exact (Nat.zero_add _).symm
  · rw [hnone]
    rfl

theorem WorldRun.held (hw : WorldRun children splitsOnly w) : w.Held := by
  induction hw with
  | init vbo user hgpu => exact World.init_held vbo user hgpu
  | step _ ha hs ih => exact ih.step ha hs

omit [Fintype ι] in
theorem WorldRun.mono {allowed allowed' : World ι → WorldAct ι → Prop}
    (h : ∀ w a, allowed w a → allowed' w a) (hw : WorldRun children allowed w) :
    WorldRun children allowed' w := by
  induction hw with
  | init vbo user hgpu => exact .init vbo user hgpu
  | step _ ha hs ih => exact ih.step (h _ _ ha) hs

/-- A step leaks nothing if no unmap of a release fails. -/
theorem World.Held.step_leaked (h : w.Held) {a : WorldAct ι} (ha : noLeaks w a)
    (hs : worldStep children w a = some w') (i : ι) : (w'.vbo i).leaked = (w.vbo i).leaked := by
  have hset : ∀ (j : ι) (t : Target), t.vbo.leaked = (w.vbo j).leaked →
      ((w.set j t).vbo i).leaked = (w.vbo i).leaked := by
    intro j t ht
    show (Function.update w.vbo j t.vbo i).leaked = _
    rw [Function.update_apply]
    split
    · rename_i heq
      rw [ht, heq]
    · rfl
  cases a with
  | create i secure ok ranges =>
    simp only [worldStep] at hs
    split at hs
    · cases hs
    · split at hs <;> (obtain rfl := Option.some.inj hs; rfl)
  | work b op mmu alloc =>
    simp only [worldStep] at hs
    split at hs
    · rename_i hmem
      obtain ⟨t, ht, rfl⟩ := Option.map_eq_some_iff.1 hs
      have hk := bindWorkerStep_kept (t := ⟨w.vbo b.target, w.mem⟩)
        (h.gpuaddr _ (h.live b hmem.1)) (h.guarded _) (h.inside b hmem.1 op hmem.2) ha.1 ht
      exact hset _ _ hk.same.leaked
    · cases hs
  | free b =>
    simp only [worldStep] at hs
    split at hs
    · obtain rfl := Option.some.inj hs
      rfl
    · cases hs
  | release j mmu =>
    simp only [worldStep] at hs
    split at hs
    · cases hs
    · rename_i hnot
      obtain rfl := Option.some.inj hs
      have hr := putGpuaddr_released (t := ⟨w.vbo j, w.mem⟩)
        (h.gpuaddr j (Bool.eq_false_iff.2 (not_or.1 hnot).1)) (h.guarded j) mmu
      exact hset _ _ (hr.leaked ha.2)
  | get e =>
    obtain ⟨m, -, rfl⟩ := Option.map_eq_some_iff.1 hs
    rfl
  | put e =>
    simp only [worldStep] at hs
    split at hs
    · cases hs
    · obtain rfl := Option.some.inj hs
      rfl

theorem WorldRun.leaked_nil (hw : WorldRun children noLeaks w) (i : ι) :
    (w.vbo i).leaked = [] := by
  induction hw with
  | init vbo user hgpu => rfl
  | step hw ha hs ih =>
    have hheld := (hw.mono fun _ _ ha => ha.1 : WorldRun children splitsOnly _).held
    exact (hheld.step_leaked ha hs i).trans ih

/-- **What a VBO maps is held**, whatever MMU calls fail, as long as no unmap of a bind
    fails where it splits a range: the ranges are disjoint, a page that maps a child lies in
    a range that names it or its reference leaked, a reference is counted for every range,
    pending element and leak, and so no child is freed or reclaimed while it is mapped.
    If no unmap of a release fails either, nothing leaks. -/
theorem ranges_held {w : World ι} (hw : WorldRun children splitsOnly w) :
    (∀ i, RangesApart (w.vbo i)) ∧
    (∀ i p e c, (w.vbo i).ptes p = .child e c →
      ((∃ r ∈ (w.vbo i).ranges, r.entry = e ∧ r.has p) ∨ ∃ r ∈ (w.vbo i).leaked, r.entry = e) ∧
      0 < w.mem.refcount e ∧ 0 < w.mem.vboCount e) ∧
    (∀ e, w.mem.vboCount e = ∑ i, naming e (w.vbo i).ranges + pendingNaming e w.pending +
      ∑ i, naming e (w.vbo i).leaked) ∧
    (∀ e, w.mem.refcount e = w.mem.vboCount e + w.user e) ∧
    (WorldRun children noLeaks w → ∀ e,
      w.mem.vboCount e = ∑ i, naming e (w.vbo i).ranges + pendingNaming e w.pending) := by
  have h := hw.held
  have hcount : ∀ e, w.mem.vboCount e = ∑ i, naming e (w.vbo i).ranges +
      pendingNaming e w.pending + ∑ i, naming e (w.vbo i).leaked := by
    intro e
    have hsum : w.bound e = ∑ i, naming e (w.vbo i).ranges + ∑ i, naming e (w.vbo i).leaked :=
      (Finset.sum_congr rfl fun i _ => naming_claims e _).trans Finset.sum_add_distrib
    rw [h.vboCount, hsum]
    omega
  have href : ∀ e, w.mem.refcount e = w.mem.vboCount e + w.user e := fun e => by
    rw [h.refcount, h.vboCount]
  refine ⟨fun i => (h.guarded i).tidy.apart.imp .inl, fun i p e c hp => ?_, hcount, href,
    fun hclean e => ?_⟩
  · have hheld := (h.guarded i).held p e c hp
    have hclaim : ∃ r ∈ (w.vbo i).claims, r.entry = e := by
      rcases hheld with ⟨r, hr, he, -⟩ | ⟨r, hr, he⟩
      · exact ⟨r, List.mem_append_left _ hr, he⟩
      · exact ⟨r, List.mem_append_right _ hr, he⟩
    obtain ⟨r, hr, rfl⟩ := hclaim
    exact ⟨hheld, (h.counted i).pos hr⟩
  · have hnone : ∑ i, naming e (w.vbo i).leaked = 0 := Finset.sum_eq_zero fun i _ => by
      rw [hclean.leaked_nil i]
      rfl
    rw [hcount, hnone, Nat.add_zero]

end World

/-- A VBO of eight pages that does not map the zero page, and children with a reference each. -/
def oneVbo : World Unit := World.init (fun _ => (true, 0x8000, 0x10000)) fun _ => 1

def oneVboChildren : ℕ → Memdesc := fun _ => ⟨0x8000, false, false⟩

/-- A bind of the first four pages to child 1, then one of the second page to child 2. -/
def bindRanges : List GpumemBindRange :=
  [⟨0, 0, 0x4000, 1, .bind⟩, ⟨0, 0x1000, 0x1000, 2, .bind⟩]

def bindFirst : BindOpRange := ⟨some 1, 0, 0x3fff, 0, .bind⟩

def bindSecond : BindOpRange := ⟨some 2, 0x1000, 0x1fff, 0, .bind⟩

/-- Both are bound: child 1 has two ranges now, and page 3 is still its own. -/
theorem ranges_held_split : ∃ w : World Unit, (w.vbo ()).ptes 3 = .child 1 3 ∧
    RangesApart (w.vbo ()) ∧ 0 < w.mem.refcount 1 ∧ w.mem.vboCount 1 = 2 := by
  have h₀ : WorldRun oneVboChildren splitsOnly oneVbo := .init _ _ fun _ => by decide
  have h₁ := h₀.step (a := .create () false true bindRanges) trivial rfl
  have h₂ := h₁.step (a := .work ⟨(), [bindFirst, bindSecond]⟩ bindFirst Mmu.allOk true)
    (fun _ _ _ cur hcur => absurd hcur List.not_mem_nil) rfl
  have h₃ := h₂.step (a := .work ⟨(), [bindFirst, bindSecond]⟩ bindSecond Mmu.allOk true)
    (fun _ _ _ _ _ _ _ => rfl) rfl
  have h₄ := h₃.step (a := .free ⟨(), [bindFirst, bindSecond]⟩) trivial rfl
  obtain ⟨hapart, hmaps, -⟩ := ranges_held h₄
  exact ⟨_, by decide, hapart (), (hmaps () 3 1 3 (by decide)).2.1, by decide⟩

/-- The unmap of the second page fails. -/
def secondFails : Mmu.Outcome := ⟨fun offset _ => offset != 0x1000, true⟩

/-- The far side of the range of child 1 is in the tree already when its unmap fails,
    and the whole range is put back beside it. -/
theorem ranges_held_splitFails : ¬ ∀ w : World Unit,
    WorldRun oneVboChildren (fun _ _ => True) w → ∀ i, RangesApart (w.vbo i) := by
  intro hall
  have h₀ : WorldRun oneVboChildren (fun _ _ => True) oneVbo := .init _ _ fun _ => by decide
  have h₁ := h₀.step (a := .create () false true bindRanges) trivial rfl
  have h₂ := h₁.step (a := .work ⟨(), [bindFirst, bindSecond]⟩ bindFirst Mmu.allOk true) trivial rfl
  have h₃ := h₂.step (a := .work ⟨(), [bindFirst, bindSecond]⟩ bindSecond secondFails true)
    trivial rfl
  have hapart := hall _ h₃ ()
  unfold RangesApart at hapart
  revert hapart
  decide

end Sm8850.Kgsl
