/-
  What the entries of the ingress list wait for.

  An entry waits on another link for frames that the MAC HW had seen and the host had not.
  A frame that gets through to the list lets the entries count down.  Two kinds of frames do
  not: one that becomes the host snapshot and does not get there, and the first one of a link
  of which the host had seen nothing, where the count is the placeholder `UINT_MAX`.

  * `WaitsUnseen`: no entry waits for a frame that the host has seen.
  * `Careful`: the frames of those two kinds that find no entry waiting for too many.
  * `waitsUnseen_step_iff`: one step.
  * **`waitsUnseen_iff`**: it holds all along a run just if every step is careful.
-/
import Sm8850.Reo.ListInv

namespace Sm8850.Reo

variable {cfg : Config} {env : Env} {s s' : State} {f : Frame} {desc : Desc} {op : Op}
  {older newer : List Entry} {new : Option Entry} {a b e : Entry} {l : Link}

/-! ## Statement -/

/-- The number of counter values of a link from `ctr` up to the snapshot of the MAC HW that the
    entry was given its count by; none if `ctr` has passed it. -/
def Entry.unseen (e : Entry) (l : Link) (ctr : UInt16) : ℕ :=
  (subtractPktCtrs (e.snapshots l).macHw.mgmtPktCtr ctr).toNat

/-- **No entry waits for frames that the host has seen**, on any link whose host snapshot is
    valid; in particular it does not wait for an unknown number of them. -/
structure WaitsUnseen (s : State) : Prop where
  bound : ∀ e ∈ s.ingress, ∀ l, (s.host l).valid = true →
    e.waitCount.perLinkCount l ≤ e.unseen l (s.host l).mgmtPktCtr
  known : ∀ e ∈ s.ingress, ∀ l, (s.host l).valid = true → e.waitCount.perLinkCount l ≠ uintMax

/-- A step after which no entry waits for too many frames.  A frame that becomes the latest one
    of its link and stays it: if it does not get to the ingress list, no entry waits for more
    than is left from its counter on; if it is the first one of its link, no newer entry does
    after counting down by one. -/
def Careful (cfg : Config) (s : State) : Op → Prop
  | .entry env f => Taken cfg s f → Survives cfg env s f →
    (¬ Reaches cfg env s f → ∀ e ∈ s.ingress,
      e.waitCount.perLinkCount f.link ≤ e.unseen f.link f.params.mgmtPktCtr) ∧
    (Reaches cfg env s f → (s.host f.link).valid = false →
      ∀ e ∈ newerThan f.params.globalTimestamp s.ingress,
        e.waitCount.perLinkCount f.link - 1 ≤ e.unseen f.link f.params.mgmtPktCtr)
  | _ => True

/-! ## The bound -/

theorem unseen_lt (e : Entry) (l : Link) (ctr : UInt16) : e.unseen l ctr < uintMax := by
  have hle : subtractPktCtrs (e.snapshots l).macHw.mgmtPktCtr ctr ≤ 0x8000 := by
    rw [subtractPktCtrs_eq]
    exact (Serial.signed_bounds (e.snapshots l).macHw.mgmtPktCtr.toNat_lt).2
  unfold Entry.unseen uintMax
  omega

theorem WaitsUnseen.of_bound (h : ∀ e ∈ s.ingress, ∀ l, (s.host l).valid = true →
    e.waitCount.perLinkCount l ≤ e.unseen l (s.host l).mgmtPktCtr) : WaitsUnseen s :=
  ⟨h, fun e he l hl => Nat.ne_of_lt (Nat.lt_of_le_of_lt (h e he l hl) (unseen_lt e l _))⟩

theorem unseen_congr (h : a.snapshots = b.snapshots) (l : Link) (ctr : UInt16) :
    a.unseen l ctr = b.unseen l ctr := by
  rw [Entry.unseen, Entry.unseen, h]

/-- Counting down by as many frames as the host snapshot moved on keeps the bound. -/
theorem unseen_advance {ctr ctr' : UInt16} {n : ℕ} (hnewer : comparePktCtrsGte ctr ctr' = false)
    (h : n ≤ e.unseen l ctr) :
    n - (subtractPktCtrs ctr' ctr % 0x10000).toNat ≤ e.unseen l ctr' := by
  have hc := ctr.toNat_lt
  have hc' := ctr'.toNat_lt
  have hm := (e.snapshots l).macHw.mgmtPktCtr.toNat_lt
  have hle := Serial.ahead_total (show ctr'.toNat < 2 * 0x8000 from hc') hc
  rw [← Bool.not_eq_true, comparePktCtrsGte_iff] at hnewer
  have hdelta : subtractPktCtrs ctr' ctr = Serial.ahead 0x8000 ctr'.toNat ctr.toNat := by
    rw [subtractPktCtrs_eq, Serial.signed_of_le (hle.resolve_right hnewer)]
  have hadvance := @Serial.signed_advance 0x8000 _ _ _ hm hc' hc
  have hlt := @Serial.ahead_lt 0x8000 _ ctr.toNat hc'
  rw [hdelta]
  rw [Entry.unseen, subtractPktCtrs_eq] at h ⊢
  omega

/-! ## One step -/

/-- Where the host snapshots of the other links stay as they are, the link of the frame is the
    only one to look at. -/
theorem waitsUnseen_iff_link (hhost : Weaker (seenBy s.host f) s'.host)
    (hothers : ∀ e' ∈ s'.ingress, ∀ l, l ≠ f.link → (s'.host l).valid = true →
      e'.waitCount.perLinkCount l ≤ e'.unseen l (s'.host l).mgmtPktCtr) :
    WaitsUnseen s' ↔ ((s'.host f.link).valid = true → ∀ e' ∈ s'.ingress,
      e'.waitCount.perLinkCount f.link ≤ e'.unseen f.link f.params.mgmtPktCtr) := by
  have hself : (s'.host f.link).valid = true →
      (s'.host f.link).mgmtPktCtr = f.params.mgmtPktCtr := fun hv => by
    rw [hhost f.link hv, seenBy_self]
    rfl
  constructor
  · intro h hv e he
    exact hself hv ▸ h.bound e he f.link hv
  · refine fun h => .of_bound fun e he l hl => ?_
    by_cases heq : l = f.link
    · subst heq
      exact hself hl ▸ h hl e he
    · exact hothers e he l heq hl

/-- The bound on the other links, for an entry that was there before. -/
theorem WaitsUnseen.other (hw : WaitsUnseen s) (hhost : Weaker (seenBy s.host f) s'.host)
    (he : e ∈ s.ingress) (hne : l ≠ f.link) (hl : (s'.host l).valid = true) :
    e.waitCount.perLinkCount l ≤ e.unseen l (s'.host l).mgmtPktCtr := by
  have hsame := hhost l hl
  rw [seenBy_of_ne _ hne] at hsame
  rw [hsame] at hl ⊢
  exact hw.bound e he l hl

/-- A frame that does not get to the list leaves the entries as they are. -/
theorem lost_iff (hw : WaitsUnseen s) (hhost : Weaker (seenBy s.host f) s'.host)
    (hin : s'.ingress = s.ingress) : WaitsUnseen s' ↔ ((s'.host f.link).valid = true →
      ∀ e ∈ s.ingress,
        e.waitCount.perLinkCount f.link ≤ e.unseen f.link f.params.mgmtPktCtr) := by
  rw [waitsUnseen_iff_link hhost, hin]
  intro e he l hne hl
  exact hw.other hhost (hin ▸ he) hne hl

theorem newerThan_eq {ts : UInt32}
    (hupTo : ∀ a ∈ older, compareGlobalTimestampsGte ts a.globalTimestamp = true)
    (hafter : ∀ b ∈ newer.head?, compareGlobalTimestampsGte ts b.globalTimestamp = false) :
    newerThan ts (older ++ newer) = newer := by
  unfold newerThan
  rw [List.dropWhile_append_of_pos hupTo]
  cases newer with
  | nil => rfl
  | cons b rest => rw [List.dropWhile_cons_of_neg (by simp [hafter b rfl])]

/-- A frame that gets to the list: the entries up to it and its own no longer wait on its link,
    so that the newer ones decide. -/
theorem queued_iff (hw : WaitsUnseen s) (h : GotThrough env s f s' desc new) :
    WaitsUnseen s' ↔ ((s'.host f.link).valid = true →
      ∀ e ∈ newerThan f.params.globalTimestamp s.ingress,
        e.waitCount.perLinkCount f.link - desc.skipped ≤
          e.unseen f.link f.params.mgmtPktCtr) := by
  obtain ⟨older, newer, heq, hqueues⟩ := updateIngressList_spec h.ingress
  have hnewer : newerThan f.params.globalTimestamp s.ingress = newer := by
    rw [heq]
    exact newerThan_eq (h.params ▸ hqueues.upTo) (h.params ▸ hqueues.after)
  have holder : ∀ a ∈ older, a ∈ s.ingress := fun a ha => heq ▸ List.mem_append_left _ ha
  have hnew : ∀ b ∈ newer, b ∈ s.ingress := fun b hb => heq ▸ List.mem_append_right _ hb
  have hmem : ∀ e', e' ∈ s'.ingress ↔ (∃ a ∈ older, a.lowerTo desc.waitCount = e') ∨
      queuedEntry env.now desc newer new = some e' ∨
      ∃ b ∈ newer, b.countDown desc.link desc.skipped = e' := by
    intro e'
    rw [hqueues.eq]
    simp only [List.mem_append, List.mem_map, Option.mem_toList]
  rw [hnewer, waitsUnseen_iff_link h.host]
  · constructor
    · intro hall hv b hb
      have hle := hall hv _ ((hmem _).2 (.inr (.inr ⟨b, hb, rfl⟩)))
      rwa [countDown_apply, if_pos h.link.symm, unseen_congr countDown_snapshots] at hle
    · intro hall hv e' he'
      rcases (hmem e').1 he' with ⟨a, ha, rfl⟩ | hq | ⟨b, hb, rfl⟩
      · rw [lowerTo_apply, ← h.link, h.counts.own, Nat.min_zero]
        exact Nat.zero_le _
      · have hle := (queuedEntry_le h.entry hq).1 desc.link
        rw [h.counts.own, h.link] at hle
        omega
      · rw [countDown_apply, if_pos h.link.symm, unseen_congr countDown_snapshots]
        exact hall hv b hb
  · intro e' he' l hne hl
    rcases (hmem e').1 he' with ⟨a, ha, rfl⟩ | hq | ⟨b, hb, rfl⟩
    · rw [lowerTo_apply, unseen_congr lowerTo_snapshots]
      exact Nat.le_trans (Nat.min_le_left ..) (hw.other h.host (holder a ha) hne hl)
    · obtain ⟨hle, hsnap⟩ := queuedEntry_le h.entry hq
      rw [Entry.unseen, hsnap]
      exact Nat.le_trans (hle l) (h.counts.bound l hl)
    · rw [countDown_apply, if_neg (h.link ▸ hne), unseen_congr countDown_snapshots]
      exact hw.other h.host (hnew b hb) hne hl

/-- **One step keeps the bound** just if it is careful. -/
theorem waitsUnseen_step_iff (hw : WaitsUnseen s) (hexec : exec cfg s op = some s') :
    WaitsUnseen s' ↔ Careful cfg s op := by
  cases op with
  | entry env f =>
    obtain ⟨⟨status, _⟩, hentry, rfl⟩ := Option.map_eq_some_iff.1 hexec
    cases algoEntry_cases hentry with
    | refused hnot hhost hin =>
      refine iff_of_true (.of_bound fun e he l hl => ?_) fun htaken => absurd htaken hnot
      rw [hhost] at hl ⊢
      exact hw.bound e (hin ▸ he) l hl
    | lost htaken hnot hsurvives hhost hin =>
      rw [lost_iff hw hhost hin, hsurvives]
      constructor
      · exact fun h _ hs => ⟨fun _ => h hs, fun hr => absurd hr hnot⟩
      · exact fun h hs => (h htaken hs).1 hnot
    | queued htaken hreaches hsurvives desc new through =>
      rw [queued_iff hw through, hsurvives]
      by_cases hold : (s.host f.link).valid = true
      · -- the newer entries count down by as many frames as the snapshot moved on
        refine iff_of_true (fun _ e he => ?_) fun _ _ => ⟨fun hn => absurd hreaches hn,
          fun _ hoff => by simp [hold] at hoff⟩
        have he : e ∈ s.ingress := (List.dropWhile_suffix _).subset he
        have hadvance := unseen_advance (through.newer hold) (hw.bound e he f.link hold)
        rwa [Desc.skipped, through.delta, if_pos hold]
      · have hone : desc.skipped = 1 := by
          rw [Desc.skipped, through.delta, if_neg hold]
          rfl
        rw [hone]
        constructor
        · exact fun h _ hs => ⟨fun hn => absurd hreaches hn, fun _ _ => h hs⟩
        · exact fun h hs => (h htaken hs).2 hreaches (by simpa using hold)
  | move =>
    cases hexec
    exact iff_of_true (.of_bound fun e he l hl =>
      hw.bound e ((readyEntries_suffix _ _).sublist.subset he) l hl) trivial
  | ageout now =>
    cases hexec
    refine iff_of_true (.of_bound fun e' he' l hl => ?_) trivial
    obtain ⟨e, he, hwaits⟩ : ∃ e ∈ s.ingress, e.waits = e'.waits := by
      have := List.mem_map_of_mem (f := Entry.waits) he'
      rw [ageoutEntries_waits] at this
      exact List.mem_map.1 this
    obtain ⟨hcount, hsnap⟩ := Prod.mk.inj hwaits
    rw [← hcount, ← unseen_congr hsnap]
    exact hw.bound e he l hl
  | release egress lastReleased =>
    cases hexec
    exact iff_of_true (.of_bound hw.bound) trivial
  | flush =>
    cases hexec
    exact iff_of_true (.of_bound fun e he => absurd he List.not_mem_nil) trivial
  | pdevCreate link =>
    cases hexec
    refine iff_of_true (.of_bound fun e he l hl => ?_) trivial
    by_cases heq : l = link
    · subst heq
      simp at hl
    · dsimp only at hl ⊢
      rw [Function.update_of_ne heq] at hl ⊢
      exact hw.bound e he l hl

/-! ## Runs -/

/-- **No entry ever waits for frames that the host has seen just if every step is careful.** -/
theorem waitsUnseen_iff {past : List (State × Op)} (h : Run cfg past s) :
    ((∀ p ∈ past, WaitsUnseen p.1) ∧ WaitsUnseen s) ↔ ∀ p ∈ past, Careful cfg p.1 p.2 := by
  induction h with
  | init => simpa using WaitsUnseen.of_bound fun e he => absurd he List.not_mem_nil
  | @step past s s' op _ hexec ih =>
    simp only [List.forall_mem_append, List.forall_mem_singleton]
    constructor
    · rintro ⟨⟨hpast, hs⟩, hs'⟩
      exact ⟨ih.1 ⟨hpast, hs⟩, (waitsUnseen_step_iff hs hexec).1 hs'⟩
    · rintro ⟨hpast, hop⟩
      obtain ⟨hall, hs⟩ := ih.2 hpast
      exact ⟨⟨hall, hs⟩, (waitsUnseen_step_iff hs hexec).2 hop⟩

/-- A frame of link 0 while the host has seen nothing of link 1, where the MAC HW is at counter
    5, and then the frame with counter 1 of link 1, which is older. -/
def firstFrame : List Op :=
  let reads (link : Link) : LinkRead :=
    if link.val = 0 then seenRead 1 100 else if link.val = 1 then seenRead 5 95 else .absent
  [.entry ⟨reads, true, 0⟩ (frameOn 0 100), .entry ⟨reads, true, 1⟩ (frameOn 1 50)]

theorem firstFrame_counts : (firstFrame.foldlM (exec smallConfig) .init).map (fun s =>
    (s.host 1, s.ingress.map fun e => (e.waitCount.perLinkCount 1, e.unseen 1 1))) =
      some (⟨true, 1, 50⟩, [(0, 4), (uintMax - 1, 4)]) := by
  rfl

theorem firstFrame_bound (hrun : firstFrame.foldlM (exec smallConfig) .init = some s) :
    ¬ WaitsUnseen s := by
  intro hw
  have hcounts := firstFrame_counts
  rw [hrun, Option.map_some, Option.some.injEq] at hcounts
  obtain ⟨hhost, hlist⟩ := Prod.mk.inj hcounts
  have hmem : (uintMax - 1, 4) ∈ s.ingress.map fun e =>
      (e.waitCount.perLinkCount 1, e.unseen 1 1) := by
    rw [hlist]
    exact .tail _ (.head _)
  obtain ⟨e, he, heq⟩ := List.mem_map.1 hmem
  obtain ⟨hcount, hunseen⟩ := Prod.mk.inj heq
  have hbound := hw.bound e he 1 (by rw [hhost])
  rw [hcount, hhost, hunseen] at hbound
  revert hbound
  decide

/-- Four frames of link 1 are left, and the newer entry waits for all but one of `UINT_MAX`. -/
theorem firstFrame_not_unseen : ∃ s, Reachable smallConfig s ∧ ¬ WaitsUnseen s := by
  obtain ⟨s, hrun, -⟩ := Option.map_eq_some_iff.1 firstFrame_counts
  obtain ⟨past, hpast, -⟩ := Run.init.foldlM hrun
  exact ⟨s, ⟨past, hpast⟩, firstFrame_bound hrun⟩

/-- So not every step of that run is careful. -/
theorem waitsUnseen_iff_firstFrame : ∃ past s, Run smallConfig past s ∧
    past.map (·.2) = firstFrame ∧ ¬ ∀ p ∈ past, Careful smallConfig p.1 p.2 := by
  obtain ⟨s, hrun, -⟩ := Option.map_eq_some_iff.1 firstFrame_counts
  obtain ⟨past, hpast, hops⟩ := Run.init.foldlM hrun
  exact ⟨past, s, hpast, hops, fun hall =>
    firstFrame_bound hrun ((waitsUnseen_iff hpast).2 hall).2⟩

end Sm8850.Reo
