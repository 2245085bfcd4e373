/-
  The order of the timestamps of one context.

  * `le_of_reached`, `le_of_fires`, `reached_of_le`: comparisons of words, where the
    timestamps are less than `KGSL_TIMESTAMP_WINDOW` apart.
  * `InLine`: the objects sent, popped and queued, in one line.  Their timestamps increase,
    a marker depends on all before it, and a bind stands behind a sync object that waits
    for all that go to the GPU before it.
  * `InLine.marker_first`, `InLine.bind_first`: a marker that expired and a bind without its
    sync object are the first of the line.
  * `Undone`: the binds that are not done are in the queue.
  * `Ordered.retires`, `Ordered.submit`: the sections of the dispatcher and of the ioctls
    keep the order.
-/
import Sm8850.Lib.Behind
import Sm8850.Kgsl.DrawqueueRuns

namespace Sm8850.Kgsl.Dispatch

open Lib

variable {R R' Q T T' ts : ℕ} {c c' : DrawCtxt} {x y z : DrawObj}
  {line line' a b l l' sent objs : List DrawObj} {undone : List ℕ}

/-! ## Comparisons -/

theorem le_of_reached (hnear : T < R + timestampWindow) (hts : ts ≤ T)
    (h : 0 ≤ timestampCmp R ts) : ts ≤ R := by
  by_contra hlt
  revert h
  unfold timestampCmp timestampWindow at *
  dsimp only
  split_ifs <;> omega

theorem le_of_fires (hnear : T < c.eoptimestamp + timestampWindow) (hts : ts ≤ T)
    (h : Fires c (.timestamp ts)) : ts ≤ c.eoptimestamp := by
  cases h with
  | timestamp _ h =>
    rcases h with h | h
    · exact le_of_reached hnear hts h
    · by_contra hlt
      revert h
      unfold timestampCmp timestampWindow at *
      dsimp only
      split_ifs <;> omega

theorem reached_of_le (hnear : R' < R + timestampWindow) (h : R ≤ R') :
    0 ≤ timestampCmp R' R := by
  unfold timestampCmp timestampWindow at *
  dsimp only
  split_ifs <;> omega

/-! ## The line -/

/-- An object with a timestamp of its own. -/
def DrawObj.Timed (x : DrawObj) : Prop := ¬ x.Untimed

/-- A command or a marker, which may go to the GPU. -/
def DrawObj.ForGpu (x : DrawObj) : Prop := x.type = .cmd ∨ x.type = .marker

/-- A sync object that waits for an issued timestamp at or after `ts`. -/
def DrawObj.Awaits (T : ℕ) (x : DrawObj) (ts : ℕ) : Prop :=
  x.type = .sync ∧ ∃ q ≤ T, ts ≤ q ∧ .timestamp q ∈ x.pending

theorem DrawObj.ForGpu.timed (h : x.ForGpu) : x.Timed := by
  rintro (hu | hu) <;> rcases h with h | h <;> rw [h] at hu <;> cases hu

theorem DrawObj.timed_of_bind (h : x.type = .bind) : x.Timed := by
  rintro (hu | hu) <;> rw [h] at hu <;> cases hu

theorem DrawObj.ForGpu.not_awaits (h : x.ForGpu) (ts : ℕ) : ¬ x.Awaits T ts :=
  fun ha => h.timed (.inl ha.1)

theorem DrawObj.Awaits.mono (h : x.Awaits T ts) (hT : T ≤ T') : x.Awaits T' ts := by
  obtain ⟨hs, q, hq, hts, hp⟩ := h
  exact ⟨hs, q, hq.trans hT, hts, hp⟩

/-- What an object says about those before it, where `R` is retired and `T` is issued. -/
structure Follows (R T : ℕ) (pre : List DrawObj) (x : DrawObj) : Prop where
  later : x.Timed → ∀ y ∈ pre, y.Timed → y.timestamp < x.timestamp
  marker : x.type = .marker →
    x.markerTimestamp ≤ T ∧ ∀ y ∈ pre, y.Timed → y.timestamp ≤ x.markerTimestamp
  bind : x.type = .bind → ∀ y ∈ pre, y.ForGpu → R < y.timestamp →
    ∃ s ∈ pre, s.Awaits T y.timestamp

/-- The objects of a context in the order in which they were queued, with its retired, its
    queued and its last timestamp. -/
structure InLine (R Q T : ℕ) (line : List DrawObj) : Prop where
  eop_le : R ≤ T
  queued_le : Q ≤ T
  ahead : ∀ x ∈ line, x.Timed → R < x.timestamp ∧ x.timestamp ≤ Q
  follows : EachBehind (Follows R T) line

theorem Follows.mono (h : Follows R T l x) (hR : R ≤ R') (hT : T ≤ T') : Follows R' T' l x where
  later := h.later
  marker hx := ⟨(h.marker hx).1.trans hT, (h.marker hx).2⟩
  bind hx y hy hg hlt := by
    obtain ⟨s, hs, ha⟩ := h.bind hx y hy hg (hR.trans_lt hlt)
    exact ⟨s, hs, ha.mono hT⟩

/-- An object that the others do not wait for is taken out of the line. -/
theorem Follows.erase (hz : ∀ ts, ¬ z.Awaits T ts) (h : Follows R T (a ++ z :: b) x) :
    Follows R T (a ++ b) x where
  later hx y hy := h.later hx y (by simp only [List.mem_append, List.mem_cons] at *; tauto)
  marker hx := by
    obtain ⟨hle, hall⟩ := h.marker hx
    exact ⟨hle, fun y hy => hall y (by simp only [List.mem_append, List.mem_cons] at *; tauto)⟩
  bind hx y hy hg hlt := by
    obtain ⟨s, hs, ha⟩ :=
      h.bind hx y (by simp only [List.mem_append, List.mem_cons] at *; tauto) hg hlt
    refine ⟨s, ?_, ha⟩
    have hsz : s ≠ z := fun hsz => hz _ (hsz ▸ ha)
    simp only [List.mem_append, List.mem_cons] at *
    tauto

theorem InLine.erase (h : InLine R Q T (a ++ z :: b)) (hz : ∀ ts, ¬ z.Awaits T ts) :
    InLine R Q T (a ++ b) where
  eop_le := h.eop_le
  queued_le := h.queued_le
  ahead x hx := h.ahead x (by simp only [List.mem_append, List.mem_cons] at *; tauto)
  follows := h.follows.erase fun _ _ => Follows.erase hz

/-- The first object of the line is retired, and its timestamp with it. -/
theorem InLine.retire (h : InLine R Q T (z :: b)) (hz : z.Timed)
    (hw : ∀ ts, ¬ z.Awaits T ts) : InLine z.timestamp Q T b := by
  have hahead := h.ahead z List.mem_cons_self hz
  have herase := InLine.erase (a := []) h hw
  refine ⟨hahead.2.trans h.queued_le, h.queued_le, fun x hx ht => ?_, ?_⟩
  · obtain ⟨pre, ⟨post, hpre⟩, hf⟩ := EachBehind.behind (a := []) h.follows hx
    refine ⟨hf.later ht z (hpre ▸ by simp) hz, (herase.ahead x hx ht).2⟩
  · rintro pre x post rfl
    exact (herase.follows pre x post rfl).mono hahead.1.le le_rfl

/-- A marker that expired is behind nothing. -/
theorem InLine.marker_first (h : InLine R Q T (a ++ x :: b)) (ha : ∀ y ∈ a, y.ForGpu)
    (hx : x.type = .marker) (hnear : T < R + timestampWindow)
    (he : 0 ≤ timestampCmp R x.markerTimestamp) : a = [] := by
  obtain ⟨hle, hall⟩ := (h.follows a x b rfl).marker hx
  have hR := le_of_reached hnear hle he
  refine List.eq_nil_iff_forall_not_mem.2 fun y hy => ?_
  have hlt := (h.ahead y (List.mem_append_left _ hy) (ha y hy).timed).1
  exact absurd (hlt.trans_le (hall y hy (ha y hy).timed)) (not_lt.2 hR)

/-- A bind whose sync object is gone is behind nothing. -/
theorem InLine.bind_first (h : InLine R Q T (a ++ x :: b)) (ha : ∀ y ∈ a, y.ForGpu)
    (hx : x.type = .bind) : a = [] := by
  refine List.eq_nil_iff_forall_not_mem.2 fun y hy => ?_
  have hlt := (h.ahead y (List.mem_append_left _ hy) (ha y hy).timed).1
  obtain ⟨s, hs, haw⟩ := (h.follows a x b rfl).bind hx y hy (ha y hy) hlt
  exact (ha s hs).not_awaits _ haw

/-- Objects that change in the line keep their places, and what they still wait for. -/
structure Alters (R T : ℕ) (x x' : DrawObj) : Prop where
  type_eq : x'.type = x.type
  timestamp_eq : x'.timestamp = x.timestamp
  marker_eq : x'.markerTimestamp = x.markerTimestamp
  awaits : ∀ ts, R < ts → x.Awaits T ts → x'.Awaits T ts

theorem Alters.refl (x : DrawObj) : Alters R T x x := ⟨rfl, rfl, rfl, fun _ _ h => h⟩

theorem Alters.timed (h : Alters R T x y) (hy : y.Timed) : x.Timed := by
  unfold DrawObj.Timed DrawObj.Untimed at *
  rwa [← h.type_eq]

theorem Alters.forGpu (h : Alters R T x y) (hy : y.ForGpu) : x.ForGpu := by
  unfold DrawObj.ForGpu at *
  rwa [← h.type_eq]

theorem Follows.alters (hl : List.Forall₂ (Alters R T) l l') (hx : Alters R T x y)
    (h : Follows R T l x) : Follows R T l' y where
  later hy z' hz' ht := by
    obtain ⟨z, hz, hzz⟩ := forall₂_mem_right hl hz'
    rw [hx.timestamp_eq, hzz.timestamp_eq]
    exact h.later (hx.timed hy) z hz (hzz.timed ht)
  marker hy := by
    obtain ⟨hle, hall⟩ := h.marker (hx.type_eq ▸ hy)
    rw [hx.marker_eq]
    refine ⟨hle, fun z' hz' ht => ?_⟩
    obtain ⟨z, hz, hzz⟩ := forall₂_mem_right hl hz'
    rw [hzz.timestamp_eq]
    exact hall z hz (hzz.timed ht)
  bind hy z' hz' hg hlt := by
    obtain ⟨z, hz, hzz⟩ := forall₂_mem_right hl hz'
    rw [hzz.timestamp_eq] at hlt ⊢
    obtain ⟨s, hs, ha⟩ := h.bind (hx.type_eq ▸ hy) z hz (hzz.forGpu hg) hlt
    obtain ⟨s', hs', hss⟩ := forall₂_mem_left hl hs
    exact ⟨s', hs', hss.awaits _ hlt ha⟩

theorem InLine.alters (h : InLine R Q T line) (hl : List.Forall₂ (Alters R T) line line') :
    InLine R Q T line' where
  eop_le := h.eop_le
  queued_le := h.queued_le
  ahead x' hx' ht := by
    obtain ⟨x, hx, hxx⟩ := forall₂_mem_right hl hx'
    rw [hxx.timestamp_eq]
    exact h.ahead x hx (hxx.timed ht)
  follows := h.follows.forall₂ hl fun _ _ _ _ hpre hx => Follows.alters hpre hx

/-- An object without a timestamp joins the line. -/
theorem InLine.push_untimed (h : InLine R Q T line) (hx : x.Untimed) :
    InLine R Q T (line ++ [x]) where
  eop_le := h.eop_le
  queued_le := h.queued_le
  ahead y hy ht := by
    rcases List.mem_append.1 hy with hy | hy
    · exact h.ahead y hy ht
    · exact absurd hx (List.mem_singleton.1 hy ▸ ht)
  follows := by
    refine eachBehind_snoc.2 ⟨h.follows, fun ht => absurd hx ht, fun ht => ?_, fun ht => ?_⟩
    · exact absurd hx (DrawObj.ForGpu.timed (.inr ht))
    · exact absurd hx (DrawObj.timed_of_bind ht)

/-- An object with a new timestamp joins the line. -/
theorem InLine.push (h : InLine R Q T line) (hT : T < T') (hts : x.timestamp = T')
    (hm : x.type = .marker → x.markerTimestamp = Q)
    (hb : x.type = .bind → ∀ y ∈ line, y.ForGpu → ∃ s ∈ line, s.Awaits T y.timestamp) :
    InLine R T' T' (line ++ [x]) where
  eop_le := h.eop_le.trans hT.le
  queued_le := le_rfl
  ahead y hy ht := by
    rcases List.mem_append.1 hy with hy | hy
    · obtain ⟨hlt, hle⟩ := h.ahead y hy ht
      exact ⟨hlt, (hle.trans h.queued_le).trans hT.le⟩
    · rw [List.mem_singleton.1 hy, hts]
      exact ⟨h.eop_le.trans_lt hT, le_rfl⟩
  follows := by
    refine eachBehind_snoc.2 ⟨?_, fun _ y hy ht => ?_, fun ht => ?_, fun ht y hy hg _ => ?_⟩
    · rintro pre y post rfl
      exact (h.follows pre y post rfl).mono le_rfl hT.le
    · rw [hts]
      exact ((h.ahead y hy ht).2.trans h.queued_le).trans_lt hT
    · rw [hm ht]
      exact ⟨h.queued_le.trans hT.le, fun y hy hyt => (h.ahead y hy hyt).2⟩
    · obtain ⟨s, hs, ha⟩ := hb ht y hy hg
      exact ⟨s, hs, ha.mono hT.le⟩

/-- A timestamp is retired at once when all before it are. -/
theorem InLine.retire_now (h : InLine R Q T line) (hT : T < T') (hQ : Q ≤ R) :
    InLine T' Q T' line where
  eop_le := le_rfl
  queued_le := h.queued_le.trans hT.le
  ahead x hx ht := by
    have := h.ahead x hx ht
    omega
  follows := by
    rintro pre x post rfl
    exact (h.follows pre x post rfl).mono (h.eop_le.trans hT.le) hT.le

/-! ## Binds that are not done -/

/-- The binds that are not done have different timestamps and are in the queue. -/
structure Undone (undone : List ℕ) (l : List DrawObj) : Prop where
  nodup : undone.Nodup
  bind : ∀ ts ∈ undone, ∃ x ∈ l, x.type = .bind ∧ x.done = false ∧ x.timestamp = ts

theorem Undone.tail (h : Undone undone (x :: l)) (hx : x.type = .bind → x.done = true) :
    Undone undone l := by
  refine ⟨h.nodup, fun ts hts => ?_⟩
  obtain ⟨y, hy, hb, hd, ht⟩ := h.bind ts hts
  rcases List.mem_cons.1 hy with rfl | hy
  · rw [hx hb] at hd
    cases hd
  · exact ⟨y, hy, hb, hd, ht⟩

theorem Undone.subset (h : Undone undone l) (hl : l ⊆ l') : Undone undone l' := by
  refine ⟨h.nodup, fun ts hts => ?_⟩
  obtain ⟨y, hy, hd⟩ := h.bind ts hts
  exact ⟨y, hl hy, hd⟩

/-- A bind that is queued is not done. -/
theorem Undone.push (h : Undone undone l) (hb : x.type = .bind) (hd : x.done = false)
    (hnew : x.timestamp ∉ undone) : Undone (x.timestamp :: undone) (l ++ [x]) := by
  refine ⟨List.nodup_cons.2 ⟨hnew, h.nodup⟩, fun ts hts => ?_⟩
  rcases List.mem_cons.1 hts with rfl | hts
  · exact ⟨x, by simp, hb, hd, rfl⟩
  · exact (h.subset (List.subset_append_left l [x])).bind ts hts

/-- Objects that change, but are done or not as before. -/
theorem Undone.alters (h : Undone undone l)
    (hl : List.Forall₂ (fun x x' => Alters R T x x' ∧ x'.done = x.done) l l') :
    Undone undone l' := by
  refine ⟨h.nodup, fun ts hts => ?_⟩
  obtain ⟨y, hy, hb, hd, ht⟩ := h.bind ts hts
  obtain ⟨y', hy', hyy, hdd⟩ := forall₂_mem_left hl hy
  exact ⟨y', hy', hyy.type_eq.trans hb, hdd.trans hd, hyy.timestamp_eq.trans ht⟩

/-! ## Sections of the dispatcher -/

/-- The queue of a context behind the objects that it has sent. -/
structure Ordered (sent : List DrawObj) (c : DrawCtxt) (l : List DrawObj) : Prop where
  contents : Contents c l
  line : InLine c.eoptimestamp c.queuedTimestamp c.timestamp (sent ++ l)
  undone : Undone c.undone l

/-- The retired timestamp moves forward, and the last timestamp is the same. -/
structure Onward (c c' : DrawCtxt) : Prop where
  eop_le : c.eoptimestamp ≤ c'.eoptimestamp
  timestamp_eq : c'.timestamp = c.timestamp

theorem Onward.refl (c : DrawCtxt) : Onward c c := ⟨le_rfl, rfl⟩

theorem Onward.trans {c₁ : DrawCtxt} (h : Onward c c₁) (h' : Onward c₁ c') : Onward c c' :=
  ⟨h.eop_le.trans h'.eop_le, h'.timestamp_eq.trans h.timestamp_eq⟩

/-- Some objects in the queue change. -/
theorem Ordered.alters (h : Ordered sent c l) (hc : Contents c' l')
    (hl : List.Forall₂ (fun x x' => Alters c.eoptimestamp c.timestamp x x' ∧ x'.done = x.done)
      l l')
    (heq : ∃ d, c' = { c with drawqueue := d }) : Ordered sent c' l' := by
  obtain ⟨d, rfl⟩ := heq
  refine ⟨hc, h.line.alters ?_, h.undone.alters hl⟩
  exact List.rel_append (List.forall₂_same.2 fun x _ => Alters.refl x) (hl.imp fun _ _ h => h.1)

/-- An object that is retired leaves the order as it is. -/
theorem Ordered.retires (h : Ordered sent c (x :: l)) (hgpu : ∀ y ∈ sent, y.ForGpu)
    (hnear : c.timestamp < c.eoptimestamp + timestampWindow)
    (hr : Retires c c.head x c' .retired) : Ordered sent c' l ∧ Onward c c' := by
  have hc := hr.contents h.contents
  have hline := h.line
  cases hr with
  | expired ht he =>
    obtain rfl := hline.marker_first hgpu ht hnear he
    have hx : x.ForGpu := .inr ht
    refine ⟨⟨hc, InLine.retire hline hx.timed hx.not_awaits, h.undone.tail ?_⟩, ?_, rfl⟩
    · rw [ht]
      nofun
    · exact (hline.ahead x List.mem_cons_self hx.timed).1.le
  | signaled ht hp =>
    refine ⟨⟨hc, InLine.erase hline ?_, h.undone.tail ?_⟩, le_rfl, rfl⟩
    · rintro ts ⟨-, q, -, -, hmem⟩
      rw [hp] at hmem
      exact List.not_mem_nil hmem
    · rw [ht]
      nofun
  | timeline ht =>
    refine ⟨⟨hc, InLine.erase hline ?_, h.undone.tail ?_⟩, le_rfl, rfl⟩
    · rintro ts ⟨hs, -⟩
      rw [ht] at hs
      cases hs
    · rw [ht]
      nofun
  | bound ht hd =>
    obtain rfl := hline.bind_first hgpu ht
    have hx := DrawObj.timed_of_bind ht
    refine ⟨⟨hc, InLine.retire hline hx fun ts hts => hx (.inl hts.1),
      h.undone.tail fun _ => hd⟩, ?_, rfl⟩
    exact (hline.ahead x List.mem_cons_self hx).1.le

theorem Retires.forGpu {i : ℕ} (hr : Retires c i x c' .send) : x.ForGpu := by
  cases hr with
  | cmd ht => exact .inl ht
  | skipped ht => exact .inr ht

theorem Ordered.ends {r : Next} (h : Ordered sent c l) (he : Ends c l c' r) :
    ∃ l', Ordered sent c' l' ∧ Onward c c' ∧
      ∀ x, r = .obj x → x.ForGpu ∧ ∃ rest, l' = x :: rest := by
  cases he with
  | empty => exact ⟨_, h, Onward.refl _, by intros; contradiction⟩
  | send x l hr =>
    refine ⟨_, h, Onward.refl _, ?_⟩
    rintro y ⟨⟩
    exact ⟨hr.forGpu, l, rfl⟩
  | again x l _ hr =>
    cases hr with
    | blocked => exact ⟨_, h, Onward.refl _, by intros; contradiction⟩
    | started ht hd =>
      have hset := h.contents.setSlot (j := 0) (y := { x with start := true })
        (Nat.succ_pos _) rfl
      rw [Nat.add_zero, Nat.mod_eq_of_lt h.contents.head_lt] at hset
      refine ⟨_, h.alters hset ?_ ⟨_, rfl⟩, ⟨le_rfl, rfl⟩, by intros; contradiction⟩
      exact .cons ⟨⟨rfl, rfl, rfl, fun _ _ ha => ha⟩, rfl⟩
        (List.forall₂_same.2 fun y _ => ⟨Alters.refl y, rfl⟩)

/-- **The dispatcher keeps the order** when it takes objects from the front of the queue. -/
theorem Ordered.process {r : Next} (h : Ordered sent c l) (hgpu : ∀ y ∈ sent, y.ForGpu)
    (hnear : c.timestamp < c.eoptimestamp + timestampWindow)
    (hp : processDrawqueueGetNextDrawobj c = (c', r)) :
    ∃ l', Ordered sent c' l' ∧ Onward c c' ∧
      ∀ x, r = .obj x → x.ForGpu ∧ ∃ rest, l' = x :: rest := by
  rw [processDrawqueueGetNextDrawobj, h.contents.slots_eq] at hp
  have hkeep : ∀ c₁ x l₁ c₂, Contents c₁ (x :: l₁) → (Ordered sent c₁ (x :: l₁) ∧ Onward c c₁) →
      Retires c₁ c₁.head x c₂ .retired → (Ordered sent c₂ l₁ ∧ Onward c c₂) := by
    rintro c₁ x l₁ c₂ - ⟨hord, hon⟩ hr
    have heop := hon.eop_le
    have hts := hon.timestamp_eq
    obtain ⟨hord', hon'⟩ := hord.retires hgpu (by omega) hr
    exact ⟨hord', hon.trans hon'⟩
  obtain ⟨c₁, l₁, -, ⟨hord, hon⟩, -, he⟩ :=
    processFrom_spec (P := fun c₁ l₁ => Ordered sent c₁ l₁ ∧ Onward c c₁) hkeep h.contents
      ⟨h, Onward.refl c⟩ hp
  obtain ⟨l', hord', hon', hx⟩ := hord.ends he
  exact ⟨l', hord', hon.trans hon', hx⟩

/-- The object that is taken is the last one sent. -/
theorem Ordered.take (h : Ordered sent c l) (hgpu : ∀ y ∈ sent, y.ForGpu)
    (hnear : c.timestamp < c.eoptimestamp + timestampWindow)
    (hp : takeDrawobj c = (c', .obj x)) :
    ∃ l', Ordered (sent ++ [x]) c' l' ∧ Onward c c' ∧ x.ForGpu := by
  unfold takeDrawobj at hp
  split at hp
  · next c₁ y hy =>
    obtain ⟨rfl, hyx⟩ := Prod.mk.inj hp
    obtain rfl := Next.obj.inj hyx
    obtain ⟨_, hord, hon, hfirst⟩ := h.process hgpu hnear hy
    obtain ⟨hg, rest, rfl⟩ := hfirst y rfl
    refine ⟨rest, ⟨hord.contents.pop, ?_, hord.undone.tail fun hb => ?_⟩,
      ⟨hon.eop_le, hon.timestamp_eq⟩, hg⟩
    · rw [List.append_assoc]
      exact hord.line
    · rcases hg with hg | hg <;> rw [hg] at hb <;> cases hb
  · next hno => exact absurd hp (hno _ _)

theorem Ordered.take_none {r : Next} (h : Ordered sent c l) (hgpu : ∀ y ∈ sent, y.ForGpu)
    (hnear : c.timestamp < c.eoptimestamp + timestampWindow)
    (hp : takeDrawobj c = (c', r)) (hr : ∀ x, r ≠ .obj x) :
    ∃ l', Ordered sent c' l' ∧ Onward c c' := by
  unfold takeDrawobj at hp
  split at hp
  · obtain ⟨-, hx⟩ := Prod.mk.inj hp
    exact absurd hx.symm (hr _)
  · obtain ⟨l', hord, hon, -⟩ := h.process hgpu hnear hp
    exact ⟨l', hord, hon⟩

/-- The object that was taken comes back. -/
theorem Ordered.requeue (h : Ordered (sent ++ [x]) c l) (hx : x.ForGpu)
    (hroom : l.length + 1 < contextDrawqueueSize) :
    ∃ l', Ordered sent (requeueCmdobj c x).1 l' ∧ Onward c (requeueCmdobj c x).1 := by
  have hc := h.contents.requeue (x := x) hroom
  have hline := h.line
  rw [List.append_assoc, List.singleton_append] at hline
  unfold requeueCmdobj at *
  cases hbad : c.isBad with
  | true =>
    exact ⟨l, ⟨h.contents, hline.erase hx.not_awaits, h.undone⟩, Onward.refl _⟩
  | false =>
    rw [hbad] at hc
    refine ⟨_, ⟨hc, InLine.alters hline ?_, h.undone.subset (List.subset_cons_self _ _)⟩,
      ⟨le_rfl, rfl⟩⟩
    refine List.rel_append (List.forall₂_same.2 fun y _ => Alters.refl y) (.cons ?_ ?_)
    · exact ⟨rfl, rfl, rfl, fun _ _ ha => ha⟩
    · exact List.forall₂_same.2 fun y _ => Alters.refl y

/-! ## Calls -/

/-- The objects that a thread holds: only the last one may have a timestamp, and no bind is
    done. -/
structure Held (objs : List DrawObj) : Prop where
  untimed : EachBehind (fun pre _ => ∀ y ∈ pre, y.Untimed) objs
  fresh : ∀ x ∈ objs, x.done = false

theorem Ordered.queue_untimed (h : Ordered sent c l) (hx : x.Untimed)
    (hroom : l.length + 1 < contextDrawqueueSize) :
    Ordered sent (drawctxtQueueUntimed c x).1 (l ++ [{ x with timestamp := 0 }]) where
  contents := h.contents.queue hroom
  line := by
    rw [← List.append_assoc]
    exact h.line.push_untimed hx
  undone := h.undone.subset (List.subset_append_left _ _)

theorem Ordered.queue_untimeds {pre : List DrawObj} (h : Ordered sent c l)
    (hpre : ∀ x ∈ pre, x.Untimed) (hroom : l.length + pre.length < contextDrawqueueSize) :
    Ordered sent (queueUntimed c pre) (l ++ pre.map fun x => { x with timestamp := 0 }) ∧
      Onward c (queueUntimed c pre) := by
  induction pre generalizing c l with
  | nil =>
    rw [List.map_nil, List.append_nil]
    exact ⟨h, Onward.refl c⟩
  | cons x pre ih =>
    rw [List.length_cons] at hroom
    have hx := h.queue_untimed (hpre x List.mem_cons_self) (by omega)
    obtain ⟨hord, hon⟩ := ih hx (fun y hy => hpre y (List.mem_cons_of_mem _ hy))
      (by rw [List.length_append, List.length_singleton]; omega)
    rw [List.append_assoc, List.singleton_append] at hord
    exact ⟨hord, hon.eop_le, hon.timestamp_eq⟩

/-- An object is queued, with a bind behind a sync object that waits long enough. -/
theorem Ordered.queuesObj {r : Queued} {userTs : ℕ} (h : Ordered sent c l)
    (hroom : l.length + 1 < contextDrawqueueSize) (hdone : x.done = false)
    (hq : QueuesObj c x userTs c' r)
    (hnear : c'.timestamp < c.eoptimestamp + timestampWindow)
    (hwaits : r = .queued → x.type = .bind → ∀ y ∈ sent ++ l, y.ForGpu →
      ∃ s ∈ sent ++ l, s.Awaits c.timestamp y.timestamp) :
    ∃ l', Ordered sent c' l' ∧ c.eoptimestamp ≤ c'.eoptimestamp ∧
      c.timestamp ≤ c'.timestamp := by
  cases hq with
  | refused => exact ⟨l, h, le_rfl, le_rfl⟩
  | untimed ht => exact ⟨_, h.queue_untimed ht hroom, le_rfl, le_rfl⟩
  | bind c₁ ht hts =>
    obtain ⟨d, hd, rfl⟩ := getTimestamp_later hts
    have hlt : c.timestamp < c.timestamp + d := by omega
    refine ⟨l ++ [{ x with timestamp := c.timestamp + d }], ⟨?_, ?_, ?_⟩, le_rfl, hlt.le⟩
    · exact Contents.queue (l := l) h.contents hroom
    · rw [← List.append_assoc]
      refine h.line.push hlt rfl (fun hm => ?_) fun _ => hwaits rfl ht
      have hm : x.type = .marker := hm
      rw [ht] at hm
      cases hm
    · refine h.undone.push (x := { x with timestamp := c.timestamp + d }) ht hdone ?_
      intro hmem
      obtain ⟨y, hy, hb, -, hyts⟩ := h.undone.bind _ hmem
      have hahead := h.line.ahead y (List.mem_append_right _ hy) (DrawObj.timed_of_bind hb)
      have hle := h.line.queued_le
      dsimp only at hyts
      omega
  | retired c₁ ht hts hempty hcheck =>
    obtain ⟨d, hd, rfl⟩ := getTimestamp_later hts
    have hQ : c.queuedTimestamp ≤ c.eoptimestamp := by
      have hnear : c.timestamp + d < c.eoptimestamp + timestampWindow := hnear
      exact le_of_reached (by omega) h.line.queued_le hcheck
    have hlt : c.timestamp < c.timestamp + d := by omega
    exact ⟨l, ⟨h.contents, h.line.retire_now hlt hQ, h.undone⟩, h.line.eop_le.trans hlt.le,
      hlt.le⟩
  | marker c₁ ht hts eof skip =>
    obtain ⟨d, hd, rfl⟩ := getTimestamp_later hts
    have hlt : c.timestamp < c.timestamp + d := by omega
    refine ⟨_, ⟨Contents.queue (l := l) h.contents hroom, ?_, ?_⟩, le_rfl, hlt.le⟩
    · rw [← List.append_assoc]
      refine h.line.push hlt rfl (fun _ => rfl) fun hb => ?_
      have hb : x.type = .bind := hb
      rw [ht] at hb
      cases hb
    · exact h.undone.subset (List.subset_append_left _ _)
  | cmd c₁ ht hts eof skip =>
    obtain ⟨d, hd, rfl⟩ := getTimestamp_later hts
    have hlt : c.timestamp < c.timestamp + d := by omega
    have hskips := setSkips_contents (c := { c with timestamp := c.timestamp + d })
      (l := l) h.contents
    obtain ⟨e, he⟩ := setSkips_eq (DrawCtxt.slots { c with timestamp := c.timestamp + d })
      { c with timestamp := c.timestamp + d } c.head
    have hall : List.Forall₂
        (fun x x' => Alters c.eoptimestamp c.timestamp x x' ∧ x'.done = x.done)
        l (l.map DrawObj.setSkip) := by
      refine List.forall₂_map_right_iff.2 (List.forall₂_same.2 fun y _ => ?_)
      unfold DrawObj.setSkip
      split
      · exact ⟨⟨rfl, rfl, rfl, fun _ _ ha => ha⟩, rfl⟩
      · exact ⟨Alters.refl y, rfl⟩
    rw [he] at hskips ⊢
    have hord : Ordered sent { c with drawqueue := e } (l.map DrawObj.setSkip) :=
      h.alters hskips hall ⟨e, rfl⟩
    refine ⟨_, ⟨Contents.queue (l := l.map DrawObj.setSkip) hskips (by simpa using hroom),
      ?_, ?_⟩, le_rfl, hlt.le⟩
    · rw [← List.append_assoc]
      refine hord.line.push hlt rfl (fun hm => ?_) fun hb => ?_
      · have hm : x.type = .marker := hm
        rw [ht] at hm
        cases hm
      · have hb : x.type = .bind := hb
        rw [ht] at hb
        cases hb
    · exact hord.undone.subset (List.subset_append_left _ _)

/-- **A call keeps the order**, if a bind waits for all that goes to the GPU before it. -/
theorem Ordered.submit {r : Queued} {userTs : ℕ} (h : Ordered sent c l) (ho : Held objs)
    (hroom : l.length + objs.length < contextDrawqueueSize)
    (hq : queueCmds c objs userTs = (c', r))
    (hnear : c'.timestamp < c.eoptimestamp + timestampWindow)
    (hwaits : r = .queued → ∀ x ∈ objs, x.type = .bind → ∀ y ∈ sent ++ l, y.ForGpu →
      ∃ s ∈ objs, s.Awaits c.timestamp y.timestamp) :
    ∃ l', Ordered sent c' l' ∧ c.eoptimestamp ≤ c'.eoptimestamp ∧
      c.timestamp ≤ c'.timestamp := by
  unfold queueCmds at hq
  split at hq
  · obtain ⟨rfl, -⟩ := Prod.mk.inj hq
    exact ⟨l, h, le_rfl, le_rfl⟩
  rcases List.eq_nil_or_concat objs with rfl | ⟨pre, last, rfl⟩
  · obtain ⟨rfl, -⟩ := Prod.mk.inj hq
    exact ⟨l, h, le_rfl, le_rfl⟩
  rw [List.concat_eq_append] at *
  have hpre : ∀ x ∈ pre, x.Untimed := (eachBehind_snoc.1 ho.untimed).2
  rw [List.length_append, List.length_singleton] at hroom
  obtain ⟨hord, hon⟩ := h.queue_untimeds hpre (by omega)
  rw [queueObjs_untimed hpre] at hq
  have hx : ∃ r', QueuesObj (queueUntimed c pre) last userTs c' r' ∧
      (r' = .queued → r = .queued) := by
    rw [queueObjs] at hq
    split at hq
    · next c₁ hobj =>
      obtain ⟨rfl, rfl⟩ := Prod.mk.inj hq
      exact ⟨_, queueObj_spec hobj, fun _ => rfl⟩
    · exact ⟨_, queueObj_spec hq, id⟩
  obtain ⟨r', hx, hr⟩ := hx
  have heop := hon.eop_le
  have hnear' : c'.timestamp < (queueUntimed c pre).eoptimestamp + timestampWindow := by omega
  have hwaits' : r' = .queued → last.type = .bind →
      ∀ y ∈ sent ++ (l ++ pre.map fun x => { x with timestamp := 0 }), y.ForGpu →
      ∃ s ∈ sent ++ (l ++ pre.map fun x => { x with timestamp := 0 }),
        s.Awaits (queueUntimed c pre).timestamp y.timestamp := by
    intro hr' hb y hy hg
    have hold : y ∈ sent ++ l := by
      rw [← List.append_assoc] at hy
      refine (List.mem_append.1 hy).resolve_right fun hy => ?_
      obtain ⟨z, hz, rfl⟩ := List.mem_map.1 hy
      exact DrawObj.ForGpu.timed hg (hpre z hz)
    obtain ⟨s, hs, ha⟩ := hwaits (hr hr') last (by simp) hb y hold hg
    rw [hon.timestamp_eq]
    rcases List.mem_append.1 hs with hs | hs
    · refine ⟨{ s with timestamp := 0 }, ?_, ha⟩
      exact List.mem_append_right _ (List.mem_append_right _ (List.mem_map_of_mem hs))
    · rw [List.mem_singleton.1 hs] at ha
      exact absurd (.inl ha.1) (DrawObj.timed_of_bind hb)
  obtain ⟨l', hord', heop', hts'⟩ := hord.queuesObj
    (by rw [List.length_append, List.length_map]; omega) (ho.fresh last (by simp)) hx hnear' hwaits'
  rw [hon.timestamp_eq] at hts'
  exact ⟨l', hord', heop.trans heop', hts'⟩

end Sm8850.Kgsl.Dispatch
