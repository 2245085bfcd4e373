/-
  The order of the ingress list.

  * `ListInv`: the totals and flags of the entries are right, and no entry waits for more
    frames of a link than one behind it.
  * `ListInv.queues`: a frame that comes in keeps that, by its three rules together.
  * `ListInv.step`: so does every step; entries leave from the front.
  * **`ingress_ordered`**: in every state the entries that wait for nothing come first.  An
    entry that is ready behind one that is not was marked by the timer (`Prefixed`).
  * `agedOut_not_prefixed`: which can happen, as a frame may be queued before the marked ones
    are moved.
-/
import Sm8850.Reo.Arrival

namespace Sm8850.Reo

variable {cfg : Config} {env : Env} {s s' : State} {f : Frame} {desc : Desc} {op : Op}
  {status : Status} {list ingress' older newer : List Entry} {new : Option Entry}
  {now : UInt64} {a b e : Entry} {l : Link}

/-! ## Statement -/

/-- The first entry does not wait for more frames than the second one, on any link. -/
def WaitsNoMore (a b : Entry) : Prop :=
  ∀ l, a.waitCount.perLinkCount l ≤ b.waitCount.perLinkCount l

/-- The timer has marked the entry. -/
def Entry.isMarked (e : Entry) : Bool := e.flags.agedOut || e.flags.olderThanLatestAgedOutFrame

/-- The entries with a property form a prefix of the list, but for some of them. -/
def Prefixed (P except : Entry → Prop) (list : List Entry) : Prop :=
  list.Pairwise fun a b => P b → P a ∨ except b

/-- What holds of the ingress list: every total is the sum of the counts and the flag tells
    whether it is zero; the counts go up along the list; those that wait for nothing come
    first; and so do those that are ready, but for entries that the timer has marked. -/
structure Ordered (ingress : List Entry) : Prop where
  total : ∀ e ∈ ingress, e.waitCount.totalCount = ∑ l, e.waitCount.perLinkCount l
  flag : ∀ e ∈ ingress,
    e.flags.waitForFrameOnOtherLinks = true ↔ e.waitCount.totalCount ≠ 0
  counts : ingress.Pairwise WaitsNoMore
  idle : Prefixed (fun e => e.waitCount.totalCount = 0) (fun _ => False) ingress
  ready : Prefixed (fun e => e.isReady = true) (fun e => e.isMarked = true) ingress

/-! ## The invariant -/

/-- The entries are consistent and wait for more and more frames. -/
structure ListInv (list : List Entry) : Prop where
  each : ∀ e ∈ list, e.Consistent
  counts : list.Pairwise WaitsNoMore

theorem ListInv.nil : ListInv [] := ⟨by simp, .nil⟩

/-- An entry of the ingress list is ready when it waits for nothing or is marked. -/
theorem Entry.Consistent.isReady_iff (h : e.Consistent) :
    e.isReady = true ↔ e.waitCount.totalCount = 0 ∨ e.isMarked = true := by
  have hwait : e.flags.waitForFrameOnOtherLinks = false ↔ e.waitCount.totalCount = 0 := by
    rw [← Bool.not_eq_true, h.flag, not_not]
  simp [Entry.isReady, Entry.isMarked, h.overflow.1, h.overflow.2, h.queued, hwait, or_assoc]

theorem ListInv.ordered (h : ListInv list) : Ordered list := by
  have hidle : list.Pairwise fun a b =>
      b.waitCount.totalCount = 0 → a.waitCount.totalCount = 0 := by
    refine h.counts.imp_of_mem fun {a b} ha hb hle hzero => ?_
    have := total_le (h.each a ha).sums (h.each b hb).sums hle
    omega
  refine ⟨fun e he => (h.each e he).sums.total, fun e he => (h.each e he).flag, h.counts,
    hidle.imp fun hab hb => .inl (hab hb), ?_⟩
  refine hidle.imp_of_mem fun {a b} ha hb hab hready => ?_
  rcases (h.each b hb).isReady_iff.1 hready with hzero | hmark
  · exact .inl ((h.each a ha).isReady_iff.2 (.inl (hab hzero)))
  · exact .inr hmark

/-! ## A frame that comes in -/

/-- Between the entries up to the frame, which take over its counts, and the newer ones it has
    its place: it does not wait for more than these, and none of the others for more than it. -/
theorem queuedEntry_between (hinv : ListInv (older ++ newer))
    (hentry : desc.queuedList ≠ some .egress → ∀ x ∈ new, x = prepareListEntry desc)
    (h : queuedEntry now desc newer new = some e) :
    (∀ b ∈ newer, WaitsNoMore e b) ∧
      ∀ a ∈ older, WaitsNoMore (a.lowerTo desc.waitCount) e := by
  obtain ⟨x, hx, hqueue, hwc, -, -⟩ := queuedEntry_spec h
  obtain rfl := hentry hqueue x hx
  rcases hwc with ⟨rfl, hwc⟩ | ⟨b, rest, rfl, hwc⟩
  · refine ⟨by simp, fun a _ l => ?_⟩
    rw [lowerTo_apply, hwc]
    exact Nat.min_le_right ..
  · have happly : ∀ l, e.waitCount.perLinkCount l =
        min (desc.waitCount.perLinkCount l) (b.waitCount.perLinkCount l) := fun l => by
      rw [hwc, lowerTo_apply]
      rfl
    obtain ⟨-, hnewer, hacross⟩ := List.pairwise_append.1 hinv.counts
    obtain ⟨hhead, -⟩ := List.pairwise_cons.1 hnewer
    refine ⟨fun b' hb' l => ?_, fun a ha l => ?_⟩
    · have hle : b.waitCount.perLinkCount l ≤ b'.waitCount.perLinkCount l := by
        rcases List.mem_cons.1 hb' with rfl | hb'
        · exact Nat.le_refl _
        · exact hhead b' hb' l
      rw [happly]
      omega
    · have hle := hacross a ha b (.head _) l
      rw [lowerTo_apply, happly]
      omega

/-- **The three rules together keep the order**: nothing is to be waited for on the link of
    the frame, so the entries up to it and the frame itself stay below the newer ones also
    where these count down. -/
theorem ListInv.queues (hinv : ListInv (older ++ newer))
    (hsums : desc.waitCount.Sums) (hown : desc.waitCount.perLinkCount desc.link = 0)
    (hentry : desc.queuedList ≠ some .egress → ∀ x ∈ new, x = prepareListEntry desc)
    (h : Queues now desc new older newer ingress') : ListInv ingress' := by
  have hbetween := fun e (he : queuedEntry now desc newer new = some e) =>
    queuedEntry_between hinv hentry he
  obtain ⟨holder, hnewer, hacross⟩ := List.pairwise_append.1 hinv.counts
  -- an entry that waits for nothing on the link of the frame stays below those that count down
  have hdown : ∀ {x b : Entry}, x.waitCount.perLinkCount desc.link = 0 → WaitsNoMore x b →
      WaitsNoMore x (b.countDown desc.link desc.skipped) := by
    intro x b hzero hle l
    rw [countDown_apply]
    split_ifs with heq
    · rw [heq, hzero]
      exact Nat.zero_le _
    · exact hle l
  have hlow : ∀ (a : Entry) l, (a.lowerTo desc.waitCount).waitCount.perLinkCount l ≤
      a.waitCount.perLinkCount l ∧ (a.lowerTo desc.waitCount).waitCount.perLinkCount l ≤
      desc.waitCount.perLinkCount l := by
    intro a l
    rw [lowerTo_apply]
    exact ⟨Nat.min_le_left .., Nat.min_le_right ..⟩
  rw [h.eq]
  refine ⟨fun e he => ?_, ?_⟩
  · simp only [List.mem_append, List.mem_map, Option.mem_toList] at he
    rcases he with ⟨a, ha, rfl⟩ | he | ⟨b, hb, rfl⟩
    · exact (hinv.each a (List.mem_append_left _ ha)).lowerTo _
    · obtain ⟨x, hx, hqueue, -, -, hcons⟩ := queuedEntry_spec he
      obtain rfl := hentry hqueue x hx
      exact hcons (prepareListEntry_consistent hsums)
    · exact (hinv.each b (List.mem_append_right _ hb)).countDown ..
  rw [List.pairwise_append, List.pairwise_append, List.pairwise_map, List.pairwise_map]
  refine ⟨?_, ⟨?_, ?_, ?_⟩, ?_⟩
  · refine holder.imp fun {a b} hle l => ?_
    rw [lowerTo_apply, lowerTo_apply]
    have := hle l
    omega
  · cases queuedEntry now desc newer new <;> simp
  · refine hnewer.imp fun {a b} hle l => ?_
    rw [countDown_apply, countDown_apply]
    have := hle l
    split_ifs <;> omega
  · intro e he b' hb'
    obtain ⟨b, hb, rfl⟩ := List.mem_map.1 hb'
    have he := Option.mem_toList.1 he
    refine hdown ?_ ((hbetween e he).1 b hb)
    have := (queuedEntry_le hentry he).1 desc.link
    omega
  · intro a' ha' e he
    obtain ⟨a, ha, rfl⟩ := List.mem_map.1 ha'
    rcases List.mem_append.1 he with he | he
    · exact (hbetween e (Option.mem_toList.1 he)).2 a ha
    · obtain ⟨b, hb, rfl⟩ := List.mem_map.1 he
      refine hdown ?_ fun l => Nat.le_trans (hlow a l).1 (hacross a ha b hb l)
      have := (hlow a desc.link).2
      omega

/-! ## Leaving the list -/

/-- What is moved is a prefix of the list, and the rest is not changed. -/
theorem readyEntries_suffix (n : ℕ) (list : List Entry) : (readyEntries n list).2 <:+ list := by
  induction list generalizing n with
  | nil => exact List.suffix_refl _
  | cons e rest ih =>
    unfold readyEntries
    dsimp only
    split_ifs with hn hready hready
    · exact (ih _).trans (List.suffix_cons ..)
    · simp [Entry.isReady] at hready
    · exact (ih _).trans (List.suffix_cons ..)
    · exact List.suffix_refl _

theorem ListInv.sublist {list' : List Entry} (h : ListInv list) (hsub : list'.Sublist list) :
    ListInv list' :=
  ⟨fun e he => h.each e (hsub.subset he), h.counts.sublist hsub⟩

/-- What an entry waits for, and the snapshots this was calculated from. -/
def Entry.waits (e : Entry) : WaitCount × (Link → Snapshots) := (e.waitCount, e.snapshots)

/-- The timer changes only its own marks. -/
theorem ageoutEntries_waits (cfg : Config) (now : UInt64) (list : List Entry) :
    (ageoutEntries cfg now list).map Entry.waits = list.map Entry.waits := by
  induction list with
  | nil => rfl
  | cons e rest ih =>
    rw [ageoutEntries, List.map_cons, List.map_cons, ih]
    congr 1
    split_ifs <;> rfl

theorem ageoutEntries_consistent (h : ∀ e ∈ list, e.Consistent) :
    ∀ e ∈ ageoutEntries cfg now list, e.Consistent := by
  induction list with
  | nil => exact h
  | cons e rest ih =>
    obtain ⟨he, hrest⟩ := List.forall_mem_cons.1 h
    refine List.forall_mem_cons.2 ⟨?_, ih hrest⟩
    split_ifs
    all_goals exact ⟨he.sums, he.flag, he.overflow, he.queued⟩

theorem ListInv.ageout (h : ListInv list) : ListInv (ageoutEntries cfg now list) := by
  have hpairs := ageoutEntries_waits cfg now list
  have key : ∀ list : List Entry, list.Pairwise WaitsNoMore ↔ (list.map Entry.waits).Pairwise
      fun a b => ∀ l, a.1.perLinkCount l ≤ b.1.perLinkCount l := fun list => by
    rw [List.pairwise_map]
    rfl
  refine ⟨ageoutEntries_consistent h.each, ?_⟩
  rw [key, hpairs, ← key]
  exact h.counts

/-! ## Runs -/

theorem ListInv.step (h : ListInv s.ingress) (hexec : exec cfg s op = some s') :
    ListInv s'.ingress := by
  cases op with
  | entry env f =>
    obtain ⟨⟨status, _⟩, hentry, rfl⟩ := Option.map_eq_some_iff.1 hexec
    cases algoEntry_cases hentry with
    | refused _ _ hin => exact hin ▸ h
    | lost _ _ _ _ hin => exact hin ▸ h
    | queued _ _ _ desc new through =>
      obtain ⟨older, newer, heq, hqueues⟩ := updateIngressList_spec through.ingress
      rw [heq] at h
      exact h.queues through.counts.sums through.counts.own through.entry hqueues
  | move =>
    cases hexec
    exact h.sublist (readyEntries_suffix _ _).sublist
  | ageout now =>
    cases hexec
    exact h.ageout
  | release egress lastReleased =>
    cases hexec
    exact h
  | flush =>
    cases hexec
    exact .nil
  | pdevCreate link =>
    cases hexec
    exact h

theorem Run.listInv {past : List (State × Op)} (h : Run cfg past s) : ListInv s.ingress := by
  induction h with
  | init => exact .nil
  | step _ hexec ih => exact ih.step hexec

/-- **The ingress list is in order in every state.** -/
theorem ingress_ordered (h : Reachable cfg s) : Ordered s.ingress := by
  obtain ⟨past, hrun⟩ := h
  exact hrun.listInv.ordered

/-- What the host reads of a link with the snapshot of one frame. -/
def seenRead (ctr : UInt16) (ts : UInt32) : LinkRead :=
  .shared ⟨true, ctr, ts⟩ ⟨true, ctr, ts⟩ ⟨false, 0, 0⟩

/-- A frame that comes in on link `k`. -/
def frameOn (k : ℕ) (ts : UInt32) : Frame :=
  ⟨.hostConsumedFrame, true, Fin.ofNat 6 k, ⟨true, 1, ts⟩, ts, ts, true⟩

/-- Two frames on links 0 and 2 while the host has seen nothing of link 1; the first one times
    out before the second one, which is older, comes in. -/
def lateOlderFrame : List Op :=
  let reads (link : Link) : LinkRead :=
    if link.val = 0 then seenRead 1 100 else if link.val = 1 then seenRead 5 40 else
      if link.val = 2 then seenRead 1 50 else .absent
  let first (link : Link) : LinkRead := if link.val = 2 then .absent else reads link
  [.entry ⟨first, true, 0⟩ (frameOn 0 100), .ageout 1000,
    .entry ⟨reads, true, 1000⟩ (frameOn 2 50)]

def smallConfig : Config := ⟨0, 100, 100, 500⟩

theorem lateOlderFrame_ready : (lateOlderFrame.foldlM (exec smallConfig) .init).map
    (fun s => s.ingress.map (·.isReady)) = some [false, true] := by
  rfl

/-- The second frame waits in front of the first one, which is marked and not yet moved. -/
theorem agedOut_not_prefixed : ∃ s, Reachable smallConfig s ∧
    ¬ Prefixed (fun e => e.isReady = true) (fun _ => False) s.ingress := by
  obtain ⟨s, hrun, hready⟩ := Option.map_eq_some_iff.1 lateOlderFrame_ready
  obtain ⟨past, hpast, -⟩ := Run.init.foldlM hrun
  refine ⟨s, ⟨past, hpast⟩, fun hfront => ?_⟩
  have hpairs : (s.ingress.map (·.isReady)).Pairwise fun a b => b = true → a = true :=
    List.pairwise_map.2 (hfront.imp fun hab hb => (hab hb).resolve_right id)
  rw [hready] at hpairs
  simp at hpairs

/-- In that state the list is in order all the same. -/
theorem ingress_ordered_late : ∃ s, Reachable smallConfig s ∧ s.ingress.length = 2 ∧
    Ordered s.ingress := by
  obtain ⟨s, hrun, hready⟩ := Option.map_eq_some_iff.1 lateOlderFrame_ready
  obtain ⟨past, hpast, -⟩ := Run.init.foldlM hrun
  refine ⟨s, ⟨past, hpast⟩, ?_, ingress_ordered ⟨past, hpast⟩⟩
  rw [← List.length_map (fun e : Entry => e.isReady), hready]
  rfl

end Sm8850.Reo
