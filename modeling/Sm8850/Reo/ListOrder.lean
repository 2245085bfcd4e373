/-
  The order of the two reorder lists, and of the frames released from them.

  * `ListsInOrder`: both lists are sorted by timestamp, with the egress list in front; frames are
    released in order, but for those received in parallel; no check on that fails.
  * `Section.Admitted`: at any time all timestamps lie within half of their range.
  * `State.InOrder`: the lists with the timestamps counted from the beginning of that half
    (`since`).  What is not received in parallel is not older than the last released frame.
  * `Awaits`: what is known of a frame between the updates of the two lists.
  * `Ctx.Inv`: the invariant; `Ctx.Inv.enter`, `Ctx.Inv.queue` and `Ctx.Inv.release` are the
    sections that change the order.
  * **`lists_in_order`**: after any sections in any order the lists are in order.
-/
import Sm8850.Reo.Sections
import Sm8850.Reo.ListInv
import Mathlib.Data.List.Chain

namespace Sm8850.Reo

variable {cfg : Config} {env : Env} {s s' : State} {f : Frame} {desc desc' : Desc}
  {status : Status} {egress ingress list older newer : List Entry} {new : Option Entry}
  {now : UInt64} {e : Entry} {c c' : Ctx} {base base' x y ts : UInt32}
  {last : Option (UInt32 × UInt32)}

/-! ## Statement -/

/-- The first entry is not newer than the second one. -/
def NotNewer (a b : Entry) : Prop :=
  compareGlobalTimestampsGte b.globalTimestamp a.globalTimestamp = true

/-- The released frames that were not received in parallel, the last one first. -/
def Ctx.inTurn (c : Ctx) : List Entry := c.released.filter fun e => !e.isParallelRx

/-- The timestamps that are alive: those of the queued entries, of the last released frame,
    and of the last one that was not received in parallel. -/
def Ctx.alive (c : Ctx) : List UInt32 :=
  (c.lists.egress ++ c.lists.ingress).map (·.globalTimestamp) ++
    ((c.lists.lastReleased.map (·.1)).toList ++
      (c.inTurn.head?.map (·.globalTimestamp)).toList)

/-- The number of ticks from `base` on. -/
def since (base ts : UInt32) : ℕ := (ts - base).toNat

/-- A timestamp in the half of the range that begins at `base`. -/
def Near (base ts : UInt32) : Prop := since base ts < 0x80000000

/-- A frame begins at its global timestamp, and this and those that are alive lie in the half of
    the range that begins at `base`. -/
def Section.Fits (base : UInt32) (c : Ctx) : Section → Prop
  | .enter _ f => f.startTs = f.params.globalTimestamp ∧
    ∀ ts ∈ f.params.globalTimestamp :: c.alive, Near base ts
  | _ => True

/-- All timestamps that are alive at once lie within half of the range. -/
def Section.Admitted (c : Ctx) (op : Section) : Prop := ∃ base, op.Fits base c

/-- The contexts after any sections in any order. -/
inductive Ctx.Reached (cfg : Config) : Ctx → Prop
  | init : Reached cfg ⟨.init, none, []⟩
  | step {c c' : Ctx} {op : Section} : Reached cfg c → op.Admitted c →
      c.exec cfg op = some c' → Reached cfg c'

/-- The lists are in order, the frames were released in order, and no check is going to
    fail. -/
structure ListsInOrder (cfg : Config) (c : Ctx) : Prop where
  egress : c.lists.egress.Pairwise NotNewer
  ingress : c.lists.ingress.Pairwise NotNewer
  across : ∀ a ∈ c.lists.egress, ∀ b ∈ c.lists.ingress, NotNewer a b
  released : c.inTurn.IsChain fun later earlier => NotNewer earlier later
  checks : ∀ op : Section, op.Admitted c → ¬ op.Fails cfg c

/-! ## Timestamps -/

theorem compare_iff (hx : Near base x) (hy : Near base y) :
    compareGlobalTimestampsGte x y = true ↔ since base y ≤ since base x := by
  unfold Near since at *
  rw [toNat_sub_ts] at *
  rw [compareGlobalTimestampsGte_iff, toNat_sub_ts]
  exact Serial.ahead_le_iff x.toNat_lt y.toNat_lt base.toNat_lt hx hy

theorem compare_false_iff (hx : Near base x) (hy : Near base y) :
    compareGlobalTimestampsGte x y = false ↔ since base x < since base y := by
  rw [← Bool.not_eq_true, compare_iff hx hy, Nat.not_le]

/-- The order does not depend on where the half of the range begins. -/
theorem since_le_iff (hx : Near base x) (hy : Near base y) (hx' : Near base' x)
    (hy' : Near base' y) : since base x ≤ since base y ↔ since base' x ≤ since base' y := by
  rw [← compare_iff hy hx, compare_iff hy' hx']

/-! ## What the order is about -/

/-- The timestamp of an entry, and whether it was received in parallel. -/
def Entry.key (e : Entry) : UInt32 × Bool := (e.globalTimestamp, e.isParallelRx)

theorem clearWhenZero_key (e : Entry) : e.clearWhenZero.key = e.key := by
  unfold Entry.clearWhenZero
  split_ifs <;> rfl

theorem lowerTo_key (e : Entry) (wc : WaitCount) : (e.lowerTo wc).key = e.key := clearWhenZero_key _

theorem countDown_key (e : Entry) (link : Link) (delta : ℕ) :
    (e.countDown link delta).key = e.key := by
  rw [countDown_eq]
  split_ifs
  · rfl
  · exact clearWhenZero_key _

theorem map_keys {g : Entry → Entry} (hg : ∀ e, (g e).key = e.key) (list : List Entry) :
    (list.map g).map Entry.key = list.map Entry.key := by
  rw [List.map_map]
  exact List.map_congr_left fun e _ => hg e

theorem handleEgressOverflow_keys (cfg : Config) (egress : List Entry) :
    (handleEgressOverflow cfg egress).map Entry.key = egress.map Entry.key := by
  unfold handleEgressOverflow
  dsimp only
  rw [List.map_append, List.map_map]
  conv => rhs; rw [← List.take_append_drop (egress.length - cfg.egressMaxListSize) egress]
  rw [List.map_append]
  rfl

theorem readyEntries_keys (n : ℕ) (list : List Entry) :
    (readyEntries n list).1.map Entry.key ++ (readyEntries n list).2.map Entry.key =
      list.map Entry.key := by
  induction list generalizing n with
  | nil => rfl
  | cons e rest ih =>
    unfold readyEntries
    dsimp only
    split_ifs
    · exact congrArg _ (ih _)
    · rfl
    · exact congrArg _ (ih _)
    · rfl

theorem ageoutEntries_keys (cfg : Config) (now : UInt64) (list : List Entry) :
    (ageoutEntries cfg now list).map Entry.key = list.map Entry.key := by
  induction list with
  | nil => rfl
  | cons e rest ih =>
    rw [ageoutEntries, List.map_cons, List.map_cons, ih]
    congr 1
    split_ifs <;> rfl

/-- The keys of both lists, the egress list first. -/
def State.keys (s : State) : List (UInt32 × Bool) := (s.egress ++ s.ingress).map Entry.key

/-- A move changes where the egress list ends, and nothing about the order. -/
theorem moveEntries_keys (cfg : Config) (s : State) : (moveEntries cfg s).keys = s.keys := by
  have hready := readyEntries_keys (s.ingress.length - cfg.ingressMaxListSize) s.ingress
  unfold State.keys moveEntries
  generalize readyEntries _ s.ingress = r at hready
  obtain ⟨ready, waiting⟩ := r
  dsimp only at hready ⊢
  rw [List.map_append, List.map_append, ← hready]
  split_ifs with hnone
  · rw [hnone]
    rfl
  · rw [handleEgressOverflow_keys, List.map_append, List.append_assoc]

/-! ## Sorted lists -/

/-- Sorted by the ticks since `base`. -/
def Sorted (base : UInt32) (keys : List (UInt32 × Bool)) : Prop :=
  keys.Pairwise fun a b => since base a.1 ≤ since base b.1

theorem Sorted.insert {pre post : List (UInt32 × Bool)} {k : UInt32 × Bool}
    (h : Sorted base (pre ++ post)) (hpre : ∀ a ∈ pre, since base a.1 ≤ since base k.1)
    (hpost : ∀ b ∈ post, since base k.1 ≤ since base b.1) : Sorted base (pre ++ k :: post) := by
  obtain ⟨hl, hr, hacross⟩ := List.pairwise_append.1 h
  refine List.pairwise_append.2 ⟨hl, List.pairwise_cons.2 ⟨hpost, hr⟩, fun a ha b hb => ?_⟩
  rcases List.mem_cons.1 hb with rfl | hb
  · exact hpre a ha
  · exact hacross a ha b hb

/-- Entries within half of the range are sorted just if their keys are. -/
theorem sorted_iff (hnear : ∀ k ∈ list.map Entry.key, Near base k.1) :
    list.Pairwise NotNewer ↔ Sorted base (list.map Entry.key) := by
  unfold Sorted
  rw [List.pairwise_map]
  have hmem : ∀ a ∈ list, Near base a.globalTimestamp := fun a ha =>
    hnear a.key (List.mem_map_of_mem ha)
  constructor
  · exact fun h => h.imp_of_mem fun {a b} ha hb hab => (compare_iff (hmem b hb) (hmem a ha)).1 hab
  · exact fun h => h.imp_of_mem fun {a b} ha hb hab => (compare_iff (hmem b hb) (hmem a ha)).2 hab

theorem checkSanityList_success (h : list.Pairwise NotNewer) : checkSanityList list = .success := by
  refine if_pos ?_
  induction list with
  | nil => simp
  | cons a rest ih =>
    obtain ⟨ha, hrest⟩ := List.pairwise_cons.1 h
    cases rest with
    | nil => simp
    | cons b rest =>
      intro p hp
      rcases List.mem_cons.1 hp with rfl | hp
      · exact ha b List.mem_cons_self
      · exact ih hrest p hp

theorem Sorted.head_le {keys : List (UInt32 × Bool)} {n : ℕ} (h : Sorted base keys)
    (hhead : ∀ k ∈ keys.head?, n ≤ since base k.1) : ∀ k ∈ keys, n ≤ since base k.1 := by
  cases keys with
  | nil => simp
  | cons k rest =>
    intro b hb
    have hk : n ≤ since base k.1 := hhead k rfl
    rcases List.mem_cons.1 hb with rfl | hb
    · exact hk
    · exact Nat.le_trans hk ((List.pairwise_cons.1 h).1 b hb)

/-- The entries up to a frame are not newer. -/
theorem olderThan_le (hts : Near base ts) (hnear : ∀ k ∈ list.map Entry.key, Near base k.1) :
    ∀ k ∈ (olderThan ts list).map Entry.key, since base k.1 ≤ since base ts := by
  intro k hk
  obtain ⟨e, he, rfl⟩ := List.mem_map.1 hk
  have hmem : e ∈ list := (List.takeWhile_prefix _).subset he
  exact (compare_iff hts (hnear _ (List.mem_map_of_mem hmem))).1 (olderThan_upTo e he)

/-- The entries from the first newer one on are newer. -/
theorem newerThan_le (hts : Near base ts) (hnear : ∀ k ∈ list.map Entry.key, Near base k.1)
    (hsorted : Sorted base (list.map Entry.key)) :
    ∀ k ∈ (newerThan ts list).map Entry.key, since base ts ≤ since base k.1 := by
  refine Sorted.head_le (hsorted.sublist ((List.dropWhile_sublist _).map _)) fun k hk => ?_
  rw [List.head?_map] at hk
  obtain ⟨e, he, rfl⟩ := Option.map_eq_some_iff.1 hk
  have hmem : e ∈ list := (List.dropWhile_sublist _).subset (List.mem_of_head? he)
  have hnewer := newerThan_head e he
  exact Nat.le_of_lt ((compare_false_iff hts (hnear _ (List.mem_map_of_mem hmem))).1 hnewer)

/-! ## Behind the mark of the last released frame -/

/-- The lists are in order, and nothing in them is older than the last released frame but for
    what was received in parallel. -/
structure State.InOrder (base : UInt32) (s : State) : Prop where
  near : ∀ k ∈ s.keys, Near base k.1
  last : ∀ w ∈ s.lastReleased, Near base w.1
  sorted : Sorted base s.keys
  mark : ∀ w ∈ s.lastReleased, ∀ k ∈ s.keys, k.2 = false → since base w.1 ≤ since base k.1

namespace State.InOrder

theorem congr (h : s.InOrder base) (hkeys : s'.keys = s.keys)
    (hlast : s'.lastReleased = s.lastReleased) : s'.InOrder base where
  near := hkeys ▸ h.near
  last := hlast ▸ h.last
  sorted := hkeys ▸ h.sorted
  mark := hkeys ▸ hlast ▸ h.mark

/-- One more entry, in its place. -/
theorem insert {pre post : List (UInt32 × Bool)} {k : UInt32 × Bool} (h : s.InOrder base)
    (hkeys : s.keys = pre ++ post) (hkeys' : s'.keys = pre ++ k :: post)
    (hlast : s'.lastReleased = s.lastReleased) (hk : Near base k.1)
    (hpre : ∀ a ∈ pre, since base a.1 ≤ since base k.1)
    (hpost : ∀ b ∈ post, since base k.1 ≤ since base b.1)
    (hmark : k.2 = false → ∀ w ∈ s.lastReleased, since base w.1 ≤ since base k.1) :
    s'.InOrder base := by
  have hmem : ∀ a ∈ s'.keys, a = k ∨ a ∈ s.keys := fun a ha => by
    rw [hkeys'] at ha
    rw [hkeys]
    simpa [or_left_comm] using ha
  refine ⟨fun a ha => ?_, hlast ▸ h.last, ?_, fun w hw a ha hpar => ?_⟩
  · rcases hmem a ha with rfl | ha
    · exact hk
    · exact h.near a ha
  · rw [hkeys']
    exact Sorted.insert (hkeys ▸ h.sorted) hpre hpost
  · rw [hlast] at hw
    rcases hmem a ha with rfl | ha
    · exact hmark hpar w hw
    · exact h.mark w hw a ha hpar

/-- What is not received in parallel is newer than a stale frame. -/
theorem stale_lt (h : s.InOrder base) (hts : Near base desc.startTs)
    (hstale : (isStaleFrame s.lastReleased desc).isStale = true) :
    ∀ k ∈ s.keys, k.2 = false → since base desc.startTs < since base k.1 := by
  intro k hk hpar
  unfold isStaleFrame at hstale
  split at hstale
  · rename_i startTs endTs hlast
    dsimp only at hstale
    split_ifs at hstale
    rw [Bool.not_eq_true', compare_false_iff hts (h.last _ hlast)] at hstale
    exact Nat.lt_of_lt_of_le hstale (h.mark _ hlast k hk hpar)
  · cases hstale

/-- A frame is not older than the last released one, unless it is stale or was received in
    parallel. -/
theorem mark_le (h : s.InOrder base) (hts : Near base desc.startTs)
    (hreq : desc.reoRequired = true)
    (hstale : (isStaleFrame s.lastReleased desc).isStale = false)
    (hpar : (isStaleFrame s.lastReleased desc).isParallelRx = false) :
    ∀ w ∈ s.lastReleased, since base w.1 ≤ since base desc.startTs := by
  intro w hw
  unfold isStaleFrame at hstale hpar
  rw [Option.mem_def.1 hw] at hstale hpar
  simp only [hreq, Bool.not_true, Bool.false_eq_true, if_false] at hstale hpar
  split_ifs at hstale hpar
  rw [Bool.not_eq_false'] at hstale
  exact (compare_iff hts (h.last w hw)).1 hstale

end State.InOrder

/-! ## Between the two updates -/

/-- The frame is still to be queued. -/
def Desc.ToQueue (desc : Desc) (new : Option Entry) : Prop :=
  new.isSome = true ∧ desc.isStale = false ∧ desc.queuedList ≠ some .egress

/-- What is known of a frame once the egress list was searched for its place. -/
structure Awaits (base : UInt32) (s : State) (desc : Desc) (new : Option Entry) : Prop where
  near : Near base desc.params.globalTimestamp
  timestamp : ∀ x ∈ new, x.globalTimestamp = desc.params.globalTimestamp
  stale : desc.isStale = true → ∀ k ∈ s.ingress.map Entry.key, k.2 = false →
    since base desc.params.globalTimestamp < since base k.1
  behind : desc.ToQueue new → ∀ k ∈ s.egress.map Entry.key,
    since base k.1 ≤ since base desc.params.globalTimestamp
  mark : desc.ToQueue new → desc.isParallelRx = false → ∀ w ∈ s.lastReleased,
    since base w.1 ≤ since base desc.params.globalTimestamp

theorem State.keys_eq (s : State) :
    s.keys = s.egress.map Entry.key ++ s.ingress.map Entry.key := List.map_append

theorem mem_keys_egress {k : UInt32 × Bool} (hk : k ∈ s.egress.map Entry.key) : k ∈ s.keys :=
  s.keys_eq ▸ List.mem_append_left _ hk

theorem mem_keys_ingress {k : UInt32 × Bool} (hk : k ∈ s.ingress.map Entry.key) : k ∈ s.keys :=
  s.keys_eq ▸ List.mem_append_right _ hk

/-- The assertion on a stale frame: what is not newer was received in parallel. -/
theorem parallel_of_older (hts : Near base ts) (hnear : ∀ k ∈ list.map Entry.key, Near base k.1)
    (hlt : ∀ k ∈ list.map Entry.key, k.2 = false → since base ts < since base k.1) :
    ∀ cur ∈ olderThan ts list, cur.isParallelRx = true := by
  intro cur hcur
  have hle := olderThan_le hts hnear cur.key (List.mem_map_of_mem hcur)
  have hmem : cur ∈ list := (List.takeWhile_prefix _).subset hcur
  by_contra hpar
  rw [Bool.not_eq_true] at hpar
  exact absurd hle (Nat.not_le.2 (hlt cur.key (List.mem_map_of_mem hmem) hpar))

/-- Where the last entry of the egress list is not newer, none is. -/
theorem State.InOrder.egress_le (h : s.InOrder base) {n : ℕ} (hlast : s.egress.getLast? = some e)
    (hle : since base e.globalTimestamp ≤ n) :
    ∀ k ∈ s.egress.map Entry.key, since base k.1 ≤ n := by
  have hsorted := h.sorted
  rw [State.keys_eq] at hsorted
  obtain ⟨init, hinit⟩ := List.getLast?_eq_some_iff.1 hlast
  have hegress := (List.pairwise_append.1 hsorted).1
  rw [hinit, List.map_append] at hegress
  intro k hk
  rw [hinit, List.map_append] at hk
  rcases List.mem_append.1 hk with hk | hk
  · exact Nat.le_trans ((List.pairwise_append.1 hegress).2.2 k hk e.key List.mem_cons_self) hle
  · obtain rfl := List.mem_singleton.1 hk
    exact hle

/-- Before the last entry there is a first one that is newer. -/
theorem exists_newer (hts : Near base ts) (hnear : ∀ k ∈ list.map Entry.key, Near base k.1)
    (hmem : e ∈ list) (hlt : ¬ compareGlobalTimestampsGte ts e.globalTimestamp = true) :
    ∃ leastGreater rest, newerThan ts list = leastGreater :: rest ∧
      list = olderThan ts list ++ leastGreater :: rest ∧
      since base ts ≤ since base leastGreater.globalTimestamp := by
  have hsplit : list = olderThan ts list ++ newerThan ts list :=
    List.takeWhile_append_dropWhile.symm
  have hhead := @newerThan_head ts list
  cases hnewer : newerThan ts list with
  | nil =>
    rw [hnewer, List.append_nil] at hsplit
    exact absurd (olderThan_upTo e (hsplit ▸ hmem)) hlt
  | cons leastGreater rest =>
    rw [hnewer] at hsplit hhead
    have hmem' : leastGreater ∈ list := by
      rw [hsplit]
      exact List.mem_append_right _ List.mem_cons_self
    have hlg := hnear _ (List.mem_map_of_mem hmem')
    exact ⟨leastGreater, rest, rfl, hsplit,
      Nat.le_of_lt ((compare_false_iff hts hlg).1 (hhead _ rfl))⟩

/-- A frame that is older than the last entry of the egress list gets its place in this. -/
theorem State.InOrder.insertEgress (h : s.InOrder base) {older newer : List Entry}
    (hegress : s.egress = older ++ newer) (hts : Near base e.globalTimestamp)
    (holder : ∀ k ∈ older.map Entry.key, since base k.1 ≤ since base e.globalTimestamp)
    (hnewer : ∀ k ∈ newer.head?, since base e.globalTimestamp ≤ since base k.globalTimestamp)
    (hne : newer ≠ [])
    (hmark : e.isParallelRx = false → ∀ w ∈ s.lastReleased,
      since base w.1 ≤ since base e.globalTimestamp) :
    { s with egress := handleEgressOverflow cfg (older ++ e :: newer) }.InOrder base := by
  have hkeys : s.keys = older.map Entry.key ++ (newer ++ s.ingress).map Entry.key := by
    rw [State.keys, hegress, List.append_assoc, List.map_append]
  refine h.insert hkeys (k := e.key) ?_ rfl hts holder ?_ hmark
  · rw [State.keys_eq, handleEgressOverflow_keys, List.map_append, List.append_assoc,
      List.map_cons, List.cons_append, ← List.map_append]
  · refine Sorted.head_le (List.pairwise_append.1 (hkeys ▸ h.sorted)).2.1 fun k hk => ?_
    obtain ⟨leastGreater, rest, rfl⟩ := List.exists_cons_of_ne_nil hne
    cases hk
    exact hnewer leastGreater rfl

/-- **The update of the egress list** succeeds and keeps the order. -/
theorem updateEgressList_inOrder (h : s.InOrder base)
    (hts : Near base desc.params.globalTimestamp)
    (hstart : desc.startTs = desc.params.globalTimestamp)
    (hnew : ∀ x ∈ new, x.globalTimestamp = desc.params.globalTimestamp ∧
      desc.reoRequired = true) :
    ∃ egress desc' new', updateEgressList cfg s.lastReleased s.egress desc new =
        some (.success, egress, desc', new') ∧
      { s with egress := egress }.InOrder base ∧
      Awaits base { s with egress := egress } desc' new' := by
  obtain ⟨stale, parallel, hdesc⟩ := isStaleFrame_same s.lastReleased desc
  have hstale := h.stale_lt (hstart ▸ hts)
  have hmark := fun hreq => h.mark_le (hstart ▸ hts) hreq
  rw [hstart] at hstale hmark
  unfold updateEgressList
  dsimp only
  rw [hdesc] at hstale hmark ⊢
  have hnear : ∀ k ∈ s.egress.map Entry.key, Near base k.1 := fun k hk =>
    h.near k (mem_keys_egress hk)
  -- where the list stays, either nothing in it is newer or the frame is not to be queued
  have hkeep : (∀ x ∈ new, stale = false → ∀ k ∈ s.egress.map Entry.key,
      since base k.1 ≤ since base desc.params.globalTimestamp) →
      Awaits base s { desc with isStale := stale, isParallelRx := parallel } new := by
    intro hbehind
    refine ⟨hts, fun x hx => (hnew x hx).1, fun hs k hk => hstale hs k (mem_keys_ingress hk),
      fun hq => ?_, fun hq hpar => ?_⟩
    · obtain ⟨x, hx⟩ := Option.isSome_iff_exists.1 hq.1
      exact hbehind x hx hq.2.1
    · obtain ⟨x, hx⟩ := Option.isSome_iff_exists.1 hq.1
      exact hmark (hnew x hx).2 hq.2.1 hpar
  cases stale with
  | true =>
    have hassert := parallel_of_older hts hnear fun k hk => hstale rfl k (mem_keys_egress hk)
    refine ⟨s.egress, _, new, ?_, h, hkeep fun _ _ hs => absurd hs (by simp)⟩
    rw [if_pos rfl, qdfAssertAlways, if_pos hassert]
    rfl
  | false =>
    rw [if_neg (by simp)]
    cases hx : new with
    | none => exact ⟨s.egress, _, none, rfl, h, hx ▸ hkeep (by simp [hx])⟩
    | some x =>
      obtain ⟨hxts, hreq⟩ := hnew x hx
      cases hlast : s.egress.getLast? with
      | none =>
        rw [List.getLast?_eq_none_iff] at hlast
        exact ⟨s.egress, _, some x, rfl, h, hx ▸ hkeep (by simp [hlast])⟩
      | some last =>
        have hlastNear : Near base last.globalTimestamp :=
          hnear last.key (List.mem_map_of_mem (List.mem_of_getLast? hlast))
        dsimp only
        by_cases hle : compareGlobalTimestampsGte desc.params.globalTimestamp
            last.globalTimestamp = true
        · rw [if_pos hle]
          refine ⟨s.egress, _, some x, rfl, h, hx ▸ hkeep fun _ _ _ => ?_⟩
          exact h.egress_le hlast ((compare_iff hts hlastNear).1 hle)
        · rw [if_neg hle]
          obtain ⟨leastGreater, rest, hnewer, hsplit, hlg⟩ :=
            exists_newer hts hnear (List.mem_of_getLast? hlast) hle
          rw [hnewer]
          dsimp only
          have hkey := congrArg Prod.fst (lowerTo_key x leastGreater.waitCount)
          generalize x.lowerTo leastGreater.waitCount = y at hkey
          have hyts : y.globalTimestamp = desc.params.globalTimestamp := hkey.trans hxts
          have holder := olderThan_le hts hnear
          refine ⟨_, _, _, rfl, h.insertEgress hsplit (hyts ▸ hts) (hyts ▸ holder) ?_
            (List.cons_ne_nil _ _) (hyts ▸ hmark hreq rfl), ?_⟩
          · intro k hk
            cases hk
            exact hyts ▸ hlg
          · refine ⟨hts, fun z hz => ?_, fun hs => absurd hs (by simp),
              fun hq => absurd rfl hq.2.2, fun hq => absurd rfl hq.2.2⟩
            cases hz
            exact hyts

theorem queuedEntry_key (h : queuedEntry now desc newer new = some e) :
    desc.ToQueue new ∧ e.isParallelRx = desc.isParallelRx ∧
      ∃ x ∈ new, e.globalTimestamp = x.globalTimestamp := by
  obtain ⟨x, rfl, hx⟩ := Option.bind_eq_some_iff.1 h
  split at hx
  · rename_i hqueue
    obtain ⟨-, hstale, -, hlist⟩ := hqueue
    rw [Bool.not_eq_true'] at hstale
    cases hx
    refine ⟨⟨rfl, hstale, hlist⟩, rfl, x, rfl, ?_⟩
    cases newer with
    | nil => rfl
    | cons b rest => exact congrArg Prod.fst (lowerTo_key x b.waitCount)
  · cases hx

/-- **The update of the ingress list** does not fail and keeps the order. -/
theorem updateIngressList_inOrder (h : s.InOrder base) (hw : Awaits base s desc new) :
    ∃ ingress, updateIngressList now s.ingress desc new = some ingress ∧
      { s with ingress := ingress }.InOrder base := by
  have hnear : ∀ k ∈ s.ingress.map Entry.key, Near base k.1 := fun k hk =>
    h.near k (mem_keys_ingress hk)
  have hsorted : Sorted base (s.ingress.map Entry.key) :=
    (List.pairwise_append.1 (s.keys_eq ▸ h.sorted)).2.1
  have hassert : ∀ cur ∈ olderThan desc.params.globalTimestamp s.ingress,
      desc.isStale = false ∨ cur.isParallelRx = true := by
    intro cur hcur
    cases hs : desc.isStale with
    | false => exact .inl rfl
    | true => exact .inr (parallel_of_older hw.near hnear (hw.stale hs) cur hcur)
  have holder := olderThan_le hw.near hnear
  have hnewer := newerThan_le hw.near hnear hsorted
  have hkeys : s.keys =
      (s.egress ++ olderThan desc.params.globalTimestamp s.ingress).map Entry.key ++
        (newerThan desc.params.globalTimestamp s.ingress).map Entry.key := by
    rw [State.keys, ← List.map_append, List.append_assoc]
    exact congrArg _ (congrArg _ List.takeWhile_append_dropWhile.symm)
  unfold updateIngressList
  dsimp only
  rw [qdfAssertAlways, if_pos hassert]
  refine ⟨_, rfl, ?_⟩
  cases hq : queuedEntry now desc (newerThan desc.params.globalTimestamp s.ingress) new with
  | none =>
    refine h.congr ?_ rfl
    rw [hkeys, State.keys_eq, Option.toList_none, List.append_nil, List.map_append, List.map_append,
      map_keys (lowerTo_key · _), map_keys (countDown_key · _ _), List.append_assoc]
  | some e =>
    obtain ⟨hqueue, hpar, x, hx, hets⟩ := queuedEntry_key hq
    have hts : e.globalTimestamp = desc.params.globalTimestamp := hets.trans (hw.timestamp x hx)
    refine h.insert hkeys (k := e.key) ?_ rfl ?_ ?_ ?_ ?_
    · rw [State.keys_eq, Option.toList_some, List.map_append, List.map_append, List.map_append,
        map_keys (lowerTo_key · _), map_keys (countDown_key · _ _)]
      simp only [List.append_assoc, List.map_cons, List.map_nil, List.cons_append, List.nil_append]
    · rw [Entry.key, hts]
      exact hw.near
    · intro a ha
      rw [List.map_append] at ha
      rw [Entry.key, hts]
      rcases List.mem_append.1 ha with ha | ha
      · exact hw.behind hqueue a ha
      · exact holder a ha
    · rw [Entry.key, hts]
      exact hnewer
    · rw [Entry.key, hts, hpar]
      exact hw.mark hqueue

/-! ## The sections -/

namespace State.InOrder

theorem pairwise (h : s.InOrder base) : (s.egress ++ s.ingress).Pairwise NotNewer :=
  (sorted_iff h.near).2 h.sorted

theorem move (h : s.InOrder base) : (moveEntries cfg s).InOrder base :=
  h.congr (moveEntries_keys cfg s) rfl

theorem ageout (h : s.InOrder base) :
    { s with ingress := ageoutEntries cfg now s.ingress }.InOrder base :=
  h.congr (by rw [State.keys_eq, State.keys_eq, ageoutEntries_keys]) rfl

/-- The first entry of the egress list leaves, and the mark stays or moves on to it. -/
theorem tail (h : s.InOrder base) {first : Entry} {rest : List Entry}
    (hegress : s.egress = first :: rest)
    (hlast : ∀ w ∈ last, w.1 = first.globalTimestamp ∨ w ∈ s.lastReleased) :
    { s with egress := rest, lastReleased := last }.InOrder base := by
  have hkeys : s.keys = first.key :: { s with egress := rest, lastReleased := last }.keys := by
    rw [State.keys, hegress]
    rfl
  have hsorted := List.pairwise_cons.1 (hkeys ▸ h.sorted)
  have hmem : ∀ k ∈ { s with egress := rest, lastReleased := last }.keys, k ∈ s.keys := by
    intro k hk
    rw [hkeys]
    exact List.mem_cons_of_mem _ hk
  refine ⟨fun k hk => h.near k (hmem k hk), fun w hw => ?_, hsorted.2, fun w hw k hk hpar => ?_⟩
  · rcases hlast w hw with hw | hw
    · rw [hw]
      exact h.near first.key (hkeys ▸ List.mem_cons_self)
    · exact h.last w hw
  · rcases hlast w hw with hw | hw
    · rw [hw]
      exact hsorted.1 k hk
    · exact h.mark w hw k (hmem k hk) hpar

end State.InOrder

theorem newEntry_required : ∀ x ∈ newEntry desc,
    x.globalTimestamp = desc.params.globalTimestamp ∧ desc.reoRequired = true := by
  intro x hx
  obtain rfl := newEntry_spec x hx
  unfold newEntry at hx
  split at hx
  · rename_i hqueue
    exact ⟨rfl, hqueue.2⟩
  · cases hx

/-- **The section of a frame up to the egress list** does not fail and keeps the order. -/
theorem updateListsEgress_inOrder {prepared : Bool} (h : s.InOrder base)
    (hts : Near base desc.params.globalTimestamp)
    (hstart : desc.startTs = desc.params.globalTimestamp) :
    ∃ status s' p, updateListsEgress cfg prepared s desc = some (status, s', p) ∧
      s'.InOrder base ∧ s'.lastReleased = s.lastReleased ∧ ∀ q ∈ p, Awaits base s' q.1 q.2 := by
  obtain ⟨egress, desc', new, hupdate, horder, hawaits⟩ :=
    @updateEgressList_inOrder cfg s desc _ base h hts hstart newEntry_required
  have hsane : checkSanityList egress = .success :=
    checkSanityList_success (List.pairwise_append.1 horder.pairwise).1
  unfold updateListsEgress
  split_ifs
  · exact ⟨_, s, none, rfl, h, rfl, by simp⟩
  · rw [hupdate]
    refine ⟨.success, { s with egress := egress }, some (desc', new), ?_, horder, rfl, ?_⟩
    · simp [hsane]
    · intro q hq
      cases hq
      exact hawaits

theorem checkSanityLists_success (h : (egress ++ ingress).Pairwise NotNewer) :
    checkSanityLists egress ingress = .success := by
  obtain ⟨hegress, hingress, hacross⟩ := List.pairwise_append.1 h
  unfold checkSanityLists
  rw [if_neg (not_not.2 (checkSanityList_success hegress)),
    if_neg (not_not.2 (checkSanityList_success hingress))]
  split
  · rename_i a b ha hb
    exact if_pos (hacross a (List.mem_of_getLast? ha) b (List.mem_of_head? hb))
  · rfl

/-- What a release does: nothing, or the first entry of the egress list leaves, which becomes
    the mark unless it is older than that. -/
theorem releaseEntry_cases {defer : Bool} {endTs : UInt32}
    (h : releaseEntry defer endTs c = some c') :
    c' = c ∨ ∃ first rest last, c.lists.egress = first :: rest ∧
      releaseAsserts c.lists.lastReleased first = true ∧
      c' = { c with
        lists := { c.lists with egress := rest, lastReleased := last }
        released := first :: c.released } ∧
      ((last = some (first.globalTimestamp, endTs) ∧ ∀ w ∈ c.lists.lastReleased,
          compareGlobalTimestampsGte first.globalTimestamp w.1 = true) ∨
        (last = c.lists.lastReleased ∧ ∃ w ∈ c.lists.lastReleased,
          compareGlobalTimestampsGte first.globalTimestamp w.1 = false)) := by
  unfold releaseEntry at h
  split at h
  · cases h
    exact .inl rfl
  rename_i first rest hegress
  split at h
  · cases h
    exact .inl rfl
  split at h
  · cases h
    exact .inl rfl
  obtain ⟨_, hcheck, h⟩ := Option.bind_eq_some_iff.1 h
  unfold qdfAssertAlways at hcheck
  split at hcheck
  · rename_i hassert
    cases h
    refine .inr ⟨first, rest, _, hegress, hassert, rfl, ?_⟩
    cases hlast : c.lists.lastReleased with
    | none => exact .inl ⟨rfl, by simp⟩
    | some w =>
      dsimp only
      by_cases hle : compareGlobalTimestampsGte first.globalTimestamp w.1 = true
      · rw [if_pos hle]
        exact .inl ⟨rfl, by simpa using hle⟩
      · rw [if_neg hle]
        exact .inr ⟨rfl, w, rfl, by simpa using hle⟩
  · cases hcheck

/-! ## The invariant -/

/-- The lists are in order, and so are the frames that were released in turn, up to the mark. -/
structure Ctx.Inv (base : UInt32) (c : Ctx) : Prop where
  lists : c.lists.InOrder base
  turn : ∀ r ∈ c.inTurn.head?, ∃ w ∈ c.lists.lastReleased,
    since base r.globalTimestamp ≤ since base w.1
  chain : c.inTurn.IsChain fun later earlier => NotNewer earlier later
  pending : ∀ p ∈ c.pending, Awaits base c.lists p.1 p.2

namespace Ctx.Inv

theorem init : Inv base ⟨.init, none, []⟩ where
  lists := ⟨by simp [State.keys, State.init], by simp [State.init], .nil, by simp [State.init]⟩
  turn := by simp [inTurn]
  chain := .nil
  pending := by simp

/-- Another half of the range in which the timestamps lie serves as well. -/
theorem rebase (h : c.Inv base) (hnear : ∀ ts ∈ c.alive, Near base' ts) :
    Ctx.Inv base' { c with pending := none } := by
  have hkey : ∀ k ∈ c.lists.keys, Near base' k.1 := by
    intro k hk
    obtain ⟨e, he, rfl⟩ := List.mem_map.1 hk
    exact hnear _ (List.mem_append_left _ (List.mem_map_of_mem he))
  have hlast : ∀ w ∈ c.lists.lastReleased, Near base' w.1 := by
    intro w hw
    refine hnear _ (List.mem_append_right _ (List.mem_append_left _ ?_))
    rw [Option.mem_def.1 hw]
    exact List.mem_singleton_self _
  have hturn : ∀ r ∈ c.inTurn.head?, Near base' r.globalTimestamp := by
    intro r hr
    refine hnear _ (List.mem_append_right _ (List.mem_append_right _ ?_))
    rw [Option.mem_def.1 hr]
    exact List.mem_singleton_self _
  refine ⟨⟨hkey, hlast, ?_, fun w hw k hk hpar => ?_⟩, fun r hr => ?_, h.chain, by simp⟩
  · exact h.lists.sorted.imp_of_mem fun {a b} ha hb hab =>
      (since_le_iff (h.lists.near a ha) (h.lists.near b hb) (hkey a ha) (hkey b hb)).1 hab
  · exact (since_le_iff (h.lists.last w hw) (h.lists.near k hk) (hlast w hw) (hkey k hk)).1
      (h.lists.mark w hw k hk hpar)
  · obtain ⟨w, hw, hle⟩ := h.turn r hr
    have hrnear : Near base r.globalTimestamp := Nat.lt_of_le_of_lt hle (h.lists.last w hw)
    exact ⟨w, hw, (since_le_iff hrnear (h.lists.last w hw) (hturn r hr) (hlast w hw)).1 hle⟩

theorem near_turn (h : c.Inv base) : ∀ r ∈ c.inTurn.head?, Near base r.globalTimestamp := by
  intro r hr
  obtain ⟨w, hw, hle⟩ := h.turn r hr
  exact Nat.lt_of_le_of_lt hle (h.lists.last w hw)

/-- The assertion on an entry to be released holds. -/
theorem asserts (h : c.Inv base) {first : Entry} {rest : List Entry}
    (hegress : c.lists.egress = first :: rest) :
    releaseAsserts c.lists.lastReleased first = true := by
  unfold releaseAsserts
  split
  · rename_i ts endTs hlast
    have hfirst : first.key ∈ c.lists.keys :=
      mem_keys_egress (hegress ▸ List.mem_cons_self)
    cases hpar : first.isParallelRx with
    | true => exact Bool.or_true _
    | false =>
      rw [Bool.or_false]
      exact (compare_iff (h.lists.near _ hfirst) (h.lists.last _ hlast)).2
        (h.lists.mark _ hlast _ hfirst hpar)
  · rfl

/-- **A release** keeps the invariant. -/
theorem release {defer : Bool} {endTs : UInt32} (h : c.Inv base)
    (hexec : releaseEntry defer endTs c = some c') : c'.Inv base := by
  rcases releaseEntry_cases hexec with rfl | ⟨first, rest, last, hegress, hassert, rfl, hlast⟩
  · exact h
  have hfirst : Near base first.globalTimestamp :=
    h.lists.near first.key (mem_keys_egress (hegress ▸ List.mem_cons_self))
  have hmark : ∀ w ∈ last, w.1 = first.globalTimestamp ∨ w ∈ c.lists.lastReleased := by
    rcases hlast with ⟨rfl, -⟩ | ⟨rfl, -⟩
    · intro w hw
      cases hw
      exact .inl rfl
    · exact fun w hw => .inr hw
  -- the mark does not go back
  have hup : ∀ w ∈ c.lists.lastReleased, ∃ w' ∈ last, since base w.1 ≤ since base w'.1 := by
    intro w hw
    rcases hlast with ⟨rfl, hle⟩ | ⟨rfl, -⟩
    · exact ⟨_, rfl, (compare_iff hfirst (h.lists.last w hw)).1 (hle w hw)⟩
    · exact ⟨w, hw, Nat.le_refl _⟩
  have hturn : ∀ r ∈ c.inTurn.head?, ∃ w ∈ last,
      since base r.globalTimestamp ≤ since base w.1 := by
    intro r hr
    obtain ⟨w, hw, hle⟩ := h.turn r hr
    obtain ⟨w', hw', hle'⟩ := hup w hw
    exact ⟨w', hw', Nat.le_trans hle hle'⟩
  have hpending : ∀ p ∈ c.pending,
      Awaits base { c.lists with egress := rest, lastReleased := last } p.1 p.2 := by
    intro p hp
    have hw := h.pending p hp
    have hbehind := fun hq => hw.behind hq
    rw [hegress] at hbehind
    refine ⟨hw.near, hw.timestamp, hw.stale, fun hq k hk =>
      hbehind hq k (List.mem_cons_of_mem _ hk), fun hq hpar w hw' => ?_⟩
    rcases hmark w hw' with hw' | hw'
    · rw [hw']
      exact hbehind hq first.key List.mem_cons_self
    · exact hw.mark hq hpar w hw'
  cases hpar : first.isParallelRx with
  | true =>
    have hin : Ctx.inTurn { c with
        lists := { c.lists with egress := rest, lastReleased := last }
        released := first :: c.released } = c.inTurn := List.filter_cons_of_neg (by simp [hpar])
    exact ⟨h.lists.tail hegress hmark, hin ▸ hturn, hin ▸ h.chain, hpending⟩
  | false =>
    have hin : Ctx.inTurn { c with
        lists := { c.lists with egress := rest, lastReleased := last }
        released := first :: c.released } = first :: c.inTurn :=
      List.filter_cons_of_pos (by simp [hpar])
    have hfirstLast : last = some (first.globalTimestamp, endTs) := by
      rcases hlast with ⟨hlast, -⟩ | ⟨-, w, hw, hlt⟩
      · exact hlast
      · unfold releaseAsserts at hassert
        rw [Option.mem_def.1 hw] at hassert
        dsimp only at hassert
        rw [hlt, hpar] at hassert
        cases hassert
    refine ⟨h.lists.tail hegress hmark, ?_, ?_, hpending⟩
    · rw [hin]
      intro r hr
      cases hr
      exact ⟨_, hfirstLast, Nat.le_refl _⟩
    · rw [hin]
      have hnear := h.near_turn
      have hchain := h.chain
      cases hreleased : c.inTurn with
      | nil => exact .singleton _
      | cons r older =>
        rw [hreleased] at hturn hnear hchain
        obtain ⟨w, hw, hle⟩ := hturn r rfl
        cases hfirstLast ▸ hw
        exact List.isChain_cons_cons.2 ⟨(compare_iff hfirst (hnear r rfl)).2 hle, hchain⟩

/-- **The update of the ingress list** keeps the invariant. -/
theorem queue (h : c.Inv base) (now : UInt64) (hpending : c.pending = some (desc, new)) :
    ∃ ingress, updateIngressList now c.lists.ingress desc new = some ingress ∧
      Ctx.Inv base { c with lists := { c.lists with ingress := ingress }, pending := none } := by
  obtain ⟨ingress, hupdate, horder⟩ :=
    @updateIngressList_inOrder _ _ _ now _ h.lists (h.pending _ hpending)
  exact ⟨ingress, hupdate, horder, h.turn, h.chain, by simp⟩

/-- The lists as a frame meets them. -/
theorem meets {d : Desc} (h : c.Inv base)
    (hdesc : frameDesc cfg env c.lists f = some (status, s, some d))
    (hadm : (Section.enter env f).Admitted c) :
    ∃ base', Ctx.Inv base' { c with pending := none } ∧ s.InOrder base' ∧
      s.lastReleased = c.lists.lastReleased ∧ Near base' d.params.globalTimestamp ∧
      d.startTs = d.params.globalTimestamp := by
  obtain ⟨base', hstart, hnear⟩ := hadm
  obtain ⟨hs, hsame⟩ := frameDesc_spec hdesc
  obtain ⟨hparams, hstartTs⟩ := hsame d rfl
  have hinv := h.rebase fun ts hts => hnear ts (List.mem_cons_of_mem _ hts)
  rw [hstartTs, hparams]
  refine ⟨base', hinv, hinv.lists.congr ?_ ?_, ?_, hnear _ List.mem_cons_self, hstart⟩
  · rw [hs]
    rfl
  · rw [hs]
  · rw [hs]

/-- **A frame** keeps the invariant, wherever the half of the range begins. -/
theorem enter {d : Desc} (h : c.Inv base)
    (hdesc : frameDesc cfg env c.lists f = some (status, s, some d))
    (hadm : (Section.enter env f).Admitted c) :
    ∃ base' status' s' p, updateListsEgress cfg env.prepared s d = some (status', s', p) ∧
      Ctx.Inv base' { c with lists := s', pending := p } := by
  obtain ⟨base', hinv, horder, hlast, hnear, hstart⟩ := h.meets hdesc hadm
  obtain ⟨status', s', p, hupdate, horder', hlast', hawaits⟩ :=
    @updateListsEgress_inOrder cfg s d base' env.prepared horder hnear hstart
  exact ⟨base', status', s', p, hupdate, horder', hlast'.trans hlast ▸ hinv.turn, hinv.chain,
    hawaits⟩

theorem step {op : Section} (h : c.Inv base) (hadm : op.Admitted c)
    (hexec : c.exec cfg op = some c') : ∃ base', c'.Inv base' := by
  cases op with
  | enter env f =>
    simp only [exec] at hexec
    split at hexec
    · cases hexec
    rename_i hfree
    rw [Bool.not_eq_true, Option.isSome_eq_false_iff, Option.isNone_iff_eq_none] at hfree
    obtain ⟨⟨status, s, d⟩, hdesc, hexec⟩ := Option.bind_eq_some_iff.1 hexec
    cases d with
    | none =>
      cases hexec
      obtain ⟨hs, -⟩ := frameDesc_spec hdesc
      refine ⟨base, h.lists.congr (by rw [hs]; rfl) (by rw [hs]), ?_, h.chain, by simp [hfree]⟩
      rw [hs]
      exact h.turn
    | some d =>
      obtain ⟨base', status', s', p, hupdate, hinv⟩ := h.enter hdesc hadm
      obtain ⟨r, hr, hexec⟩ := Option.bind_eq_some_iff.1 hexec
      cases hupdate.symm.trans hr
      cases hexec
      exact ⟨base', hinv⟩
  | queue now =>
    obtain ⟨⟨desc, new⟩, hpending, hexec⟩ := Option.bind_eq_some_iff.1 hexec
    obtain ⟨ingress, hupdate, hinv⟩ := h.queue now hpending
    obtain ⟨ingress', hupdate', hexec⟩ := Option.bind_eq_some_iff.1 hexec
    cases hupdate.symm.trans hupdate'
    cases hexec
    exact ⟨base, hinv⟩
  | move =>
    simp only [exec] at hexec
    split at hexec
    · cases hexec
    rename_i hfree
    cases hexec
    exact ⟨base, h.lists.move, h.turn, h.chain, fun p hp => absurd (hp ▸ rfl) hfree⟩
  | ageout now =>
    simp only [exec] at hexec
    split at hexec
    · cases hexec
    rename_i hfree
    cases hexec
    exact ⟨base, h.lists.ageout, h.turn, h.chain, fun p hp => absurd (hp ▸ rfl) hfree⟩
  | release defer endTs => exact ⟨base, h.release hexec⟩
  | expire =>
    cases hexec
    refine ⟨base, ⟨h.lists.near, by simp, h.lists.sorted, by simp⟩, by simp [inTurn], .nil,
      fun p hp => ?_⟩
    have hw := h.pending p hp
    exact ⟨hw.near, hw.timestamp, hw.stale, hw.behind, by simp⟩

/-- No section fails. -/
theorem not_fails {op : Section} (h : c.Inv base) (hadm : op.Admitted c) : ¬ op.Fails cfg c := by
  cases op with
  | enter env f =>
    rintro ⟨status, s, d, hdesc, hfails⟩
    rcases hfails with hnone | ⟨egress, desc', new, hupdate, hinsane⟩
    · obtain ⟨base', status', s', p, hsome, -⟩ := h.enter hdesc hadm
      rw [hnone] at hsome
      cases hsome
    · obtain ⟨base', -, horder, -, hnear, hstart⟩ := h.meets hdesc hadm
      obtain ⟨egress', desc'', new', hupdate', horder', -⟩ :=
        @updateEgressList_inOrder cfg s d _ base' horder hnear hstart newEntry_required
      cases hupdate.symm.trans hupdate'
      exact hinsane (checkSanityList_success (List.pairwise_append.1 horder'.pairwise).1)
  | queue now =>
    rintro ⟨desc, new, hpending, hfails⟩
    obtain ⟨ingress, hupdate, hinv⟩ := h.queue now hpending
    rcases hfails with hnone | ⟨ingress', hupdate', hinsane⟩
    · rw [hupdate] at hnone
      cases hnone
    · cases hupdate.symm.trans hupdate'
      exact hinsane (checkSanityList_success (List.pairwise_append.1 hinv.lists.pairwise).2.1)
  | move => exact fun hfails => hfails (checkSanityLists_success h.lists.move.pairwise)
  | ageout now => exact id
  | release defer endTs =>
    intro hnone
    simp only [Section.Fails, releaseEntry] at hnone
    split at hnone
    · cases hnone
    rename_i first rest hegress
    split_ifs at hnone
    rw [qdfAssertAlways, if_pos (h.asserts hegress)] at hnone
    cases hnone
  | expire => exact id

end Ctx.Inv

theorem Ctx.Reached.inv (h : c.Reached cfg) : ∃ base, c.Inv base := by
  induction h with
  | init => exact ⟨0, .init⟩
  | step _ hadm hexec ih =>
    obtain ⟨base, hinv⟩ := ih
    exact hinv.step hadm hexec

/-- **After any sections in any order the lists are in order**, and so are the frames that were
    released; no check on that is going to fail. -/
theorem lists_in_order (h : c.Reached cfg) : ListsInOrder cfg c := by
  obtain ⟨base, hinv⟩ := h.inv
  obtain ⟨hegress, hingress, hacross⟩ := List.pairwise_append.1 hinv.lists.pairwise
  exact ⟨hegress, hingress, hacross, hinv.chain, fun _ hadm => hinv.not_fails hadm⟩

/-! ## A late frame -/

instance (base ts : UInt32) : Decidable (Near base ts) :=
  inferInstanceAs (Decidable (since base ts < 0x80000000))

instance (base : UInt32) (c : Ctx) (op : Section) : Decidable (op.Fits base c) :=
  match op with
  | .enter _ f =>
    -- the list is to be searched, not all timestamps
    have := List.decidableBAll (Near base) (f.params.globalTimestamp :: c.alive)
    instDecidableAnd
  | .queue _ | .move | .ageout _ | .release _ _ | .expire => isTrue trivial

/-- A section that is admitted by `base`. -/
def Ctx.execFrom (base : UInt32) (cfg : Config) (c : Ctx) (op : Section) : Option Ctx :=
  if op.Fits base c then c.exec cfg op else none

theorem Ctx.Reached.foldlM {ops : List Section} (h : c.Reached cfg)
    (hrun : ops.foldlM (Ctx.execFrom base cfg) c = some c') : c'.Reached cfg := by
  induction ops generalizing c with
  | nil =>
    cases hrun
    exact h
  | cons op rest ih =>
    rw [List.foldlM_cons] at hrun
    obtain ⟨c₁, hexec, hrest⟩ := Option.bind_eq_some_iff.1 hrun
    unfold Ctx.execFrom at hexec
    split at hexec
    · rename_i hfits
      exact ih (h.step ⟨base, hfits⟩ hexec) hrest
    · cases hexec

/-- A frame is ready to be delivered when an older one comes in, which is put in front of it
    and released, and a third one is queued behind them. -/
def lateFrame : List Section :=
  let frame (k : ℕ) (ts : UInt32) : List Section :=
    [.enter ⟨fun link => if link.val = k then seenRead 1 ts else .absent, true, 0⟩ (frameOn k ts),
      .queue 0]
  frame 0 100 ++ .move :: frame 2 50 ++ .release false 60 :: frame 1 200

theorem lateFrame_lists : (lateFrame.foldlM (Ctx.execFrom 0 smallConfig) ⟨.init, none, []⟩).map
    (fun c => (c.released.map (·.globalTimestamp), c.lists.egress.map (·.globalTimestamp),
      c.lists.ingress.map (·.globalTimestamp))) = some ([50], [100], [200]) := by
  rfl

theorem lists_in_order_late : ∃ c, c.Reached smallConfig ∧
    c.released.map (·.globalTimestamp) = [50] ∧ c.lists.egress.map (·.globalTimestamp) = [100] ∧
    c.lists.ingress.map (·.globalTimestamp) = [200] ∧ ListsInOrder smallConfig c := by
  obtain ⟨c, hrun, hlists⟩ := Option.map_eq_some_iff.1 lateFrame_lists
  have hreached : c.Reached smallConfig := Ctx.Reached.init.foldlM hrun
  simp only [Prod.mk.injEq] at hlists
  exact ⟨c, hreached, hlists.1, hlists.2.1, hlists.2.2, lists_in_order hreached⟩

end Sm8850.Reo
