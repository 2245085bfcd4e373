/-
  What the critical section of `wlan_mgmt_rx_reo_algo_entry` can do.

  * `Queues`: the ingress list after a frame got through to it, in three parts.
  * `updateEgressList_spec`: the egress list only lowers the counts of the frame.
  * **`algoEntry_cases`**: a frame is refused and changes nothing; or it becomes the host
    snapshot of its link and the ingress list stays as it was; or it gets through to the list.
-/
import Sm8850.Reo.Counts
import Mathlib.Data.List.TakeWhile

namespace Sm8850.Reo

variable {cfg : Config} {env : Env} {s s' : State} {f : Frame} {desc desc' : Desc}
  {status : Status} {ingress ingress' egress egress' older newer : List Entry}
  {new new' : Option Entry} {host host' : Link → Snapshot} {now : UInt64} {e : Entry} {l : Link}

/-! ## The ingress list -/

/-- The number of frames by which the entries that are newer count down. -/
def Desc.skipped (desc : Desc) : ℕ := (desc.pktCtrDelta % 0x10000).toNat

/-- The list after the update: the entries up to the frame take over its counts, the newer
    ones count down, and the frame is queued in between, if it is. -/
structure Queues (now : UInt64) (desc : Desc) (new : Option Entry)
    (older newer ingress' : List Entry) : Prop where
  upTo : ∀ a ∈ older,
    compareGlobalTimestampsGte desc.params.globalTimestamp a.globalTimestamp = true
  after : ∀ b ∈ newer.head?,
    compareGlobalTimestampsGte desc.params.globalTimestamp b.globalTimestamp = false
  eq : ingress' = older.map (·.lowerTo desc.waitCount) ++
    ((queuedEntry now desc newer new).toList ++ newer.map (·.countDown desc.link desc.skipped))

theorem olderThan_upTo {ts : UInt32} {list : List Entry} : ∀ a ∈ olderThan ts list,
    compareGlobalTimestampsGte ts a.globalTimestamp = true := fun _ ha =>
  List.mem_takeWhile_imp (p := fun cur : Entry =>
    compareGlobalTimestampsGte ts cur.globalTimestamp) ha

/-- The first of the newer entries is newer. -/
theorem newerThan_head {ts : UInt32} {list : List Entry} : ∀ b ∈ (newerThan ts list).head?,
    compareGlobalTimestampsGte ts b.globalTimestamp = false := by
  intro b hb
  have hnot := List.head?_dropWhile_not
    (fun cur => compareGlobalTimestampsGte ts cur.globalTimestamp) list
  have hhead : (list.dropWhile fun cur => compareGlobalTimestampsGte ts cur.globalTimestamp).head? =
      some b := hb
  rw [hhead] at hnot
  simpa using hnot

theorem updateIngressList_spec (h : updateIngressList now ingress desc new = some ingress') :
    ∃ older newer, ingress = older ++ newer ∧ Queues now desc new older newer ingress' := by
  unfold updateIngressList at h
  have h := qdfAssertAlways_bind h
  cases h
  exact ⟨_, _, List.takeWhile_append_dropWhile.symm, olderThan_upTo, newerThan_head,
    List.append_assoc ..⟩

/-- The counts of the frame as it is queued. -/
theorem queuedEntry_spec (h : queuedEntry now desc newer new = some e) :
    ∃ x, new = some x ∧ desc.queuedList ≠ some .egress ∧
      ((newer = [] ∧ e.waitCount = x.waitCount) ∨
        ∃ b rest, newer = b :: rest ∧ e.waitCount = (x.lowerTo b.waitCount).waitCount) ∧
      e.snapshots = x.snapshots ∧ (x.Consistent → e.Consistent) := by
  obtain ⟨x, rfl, hx⟩ := Option.bind_eq_some_iff.1 h
  split at hx
  · rename_i hqueue
    refine ⟨x, rfl, hqueue.2.2.2, ?_⟩
    cases newer with
    | nil =>
      cases hx
      exact ⟨.inl ⟨rfl, rfl⟩, rfl, fun hx => ⟨hx.sums, hx.flag, hx.overflow, hx.queued⟩⟩
    | cons b rest =>
      dsimp only at hx
      have hkeep : (x.lowerTo b.waitCount).snapshots = x.snapshots := lowerTo_snapshots
      have hcons : x.Consistent → (x.lowerTo b.waitCount).Consistent := fun h => h.lowerTo _
      generalize hy : x.lowerTo b.waitCount = y at hx hkeep hcons
      cases hx
      exact ⟨.inr ⟨b, rest, rfl, by rw [hy]⟩, hkeep, fun hx =>
        ⟨(hcons hx).sums, (hcons hx).flag, (hcons hx).overflow, (hcons hx).queued⟩⟩
  · cases hx

/-- It waits for no more frames than its descriptor says. -/
theorem queuedEntry_le
    (hentry : desc.queuedList ≠ some .egress → ∀ x ∈ new, x = prepareListEntry desc)
    (h : queuedEntry now desc newer new = some e) :
    (∀ l, e.waitCount.perLinkCount l ≤ desc.waitCount.perLinkCount l) ∧
      e.snapshots = desc.snapshots := by
  obtain ⟨x, hx, hqueue, hwc, hsnap, -⟩ := queuedEntry_spec h
  obtain rfl := hentry hqueue x hx
  refine ⟨fun l => ?_, hsnap⟩
  rcases hwc with ⟨-, hwc⟩ | ⟨b, rest, -, hwc⟩
  · exact Nat.le_of_eq (by rw [hwc]; rfl)
  · rw [hwc, lowerTo_apply]
    exact Nat.min_le_left ..

theorem prepareListEntry_consistent (h : desc.waitCount.Sums) :
    (prepareListEntry desc).Consistent where
  sums := h
  flag := by simp [prepareListEntry]
  overflow := ⟨rfl, rfl⟩
  queued := rfl

/-! ## The egress list -/

theorem isStaleFrame_same (last : Option (UInt32 × UInt32)) (desc : Desc) :
    ∃ stale parallel, isStaleFrame last desc =
      { desc with isStale := stale, isParallelRx := parallel } := by
  unfold isStaleFrame
  split
  · dsimp only
    split_ifs
    · exact ⟨_, _, rfl⟩
    · exact ⟨_, _, rfl⟩
    · exact ⟨_, _, rfl⟩
  · exact ⟨_, _, rfl⟩

/-- The egress list only lowers the counts of the frame, and leaves them and the new entry
    alone where the frame is not queued there. -/
theorem updateEgressList_spec
    (hb : Bounded host desc) (hnew : ∀ x ∈ new, x = prepareListEntry desc)
    (h : updateEgressList cfg s.lastReleased egress desc new =
      some (status, egress', desc', new')) :
    Bounded host desc' ∧ SameFrame desc desc' ∧
      (desc'.queuedList ≠ some .egress → ∀ x ∈ new', x = prepareListEntry desc') := by
  obtain ⟨stale, parallel, hdesc⟩ := isStaleFrame_same s.lastReleased desc
  have hsame : Bounded host (isStaleFrame s.lastReleased desc) ∧
      SameFrame desc (isStaleFrame s.lastReleased desc) ∧
      ∀ x ∈ new, x = prepareListEntry (isStaleFrame s.lastReleased desc) := by
    rw [hdesc]
    exact ⟨⟨hb.sums, hb.own, hb.bound⟩, ⟨rfl, rfl, rfl⟩, hnew⟩
  unfold updateEgressList at h
  dsimp only at h
  generalize isStaleFrame s.lastReleased desc = d at hsame h
  obtain ⟨hbd, hsamed, hnewd⟩ := hsame
  split at h
  · have h := qdfAssertAlways_bind h
    cases h
    exact ⟨hbd, hsamed, fun _ => hnewd⟩
  split at h
  · rename_i entry last hlast
    split at h
    · cases h
      exact ⟨hbd, hsamed, fun _ => hnewd⟩
    split at h
    · cases h
      exact ⟨hbd, hsamed, fun _ => hnewd⟩
    · rename_i leastGreater rest hnewer
      obtain rfl : entry = prepareListEntry d := hnewd entry rfl
      have hsums := ((prepareListEntry_consistent hbd.sums).lowerTo leastGreater.waitCount).sums
      have hle : ∀ l, ((prepareListEntry d).lowerTo leastGreater.waitCount).waitCount.perLinkCount
          l ≤ d.waitCount.perLinkCount l := fun l => by
        rw [lowerTo_apply]
        exact Nat.min_le_left ..
      generalize (prepareListEntry d).lowerTo leastGreater.waitCount = y at h hsums hle
      cases h
      exact ⟨⟨hsums, Nat.le_zero.1 (Nat.le_trans (hle _) (Nat.le_of_eq hbd.own)),
        fun l hl => Nat.le_trans (hle l) (hbd.bound l hl)⟩,
        ⟨hsamed.link, hsamed.params, hsamed.delta⟩, fun hnot => absurd rfl hnot⟩
  · cases h
    exact ⟨hbd, hsamed, fun _ => hnewd⟩

/-! ## A frame -/

/-- The host snapshots once the frame is the latest one of its link. -/
def seenBy (host : Link → Snapshot) (f : Frame) : Link → Snapshot :=
  Function.update host f.link f.params.snapshot

theorem seenBy_self (host : Link → Snapshot) (f : Frame) :
    seenBy host f f.link = f.params.snapshot :=
  Function.update_self (f := host) ..

theorem seenBy_of_ne (host : Link → Snapshot) (h : l ≠ f.link) : seenBy host f l = host l :=
  Function.update_of_ne h ..

/-- The new entry is prepared and the egress list is in order. -/
structure PassesEgress (cfg : Config) (env : Env) (s : State) (desc : Desc)
    (egress : List Entry) (desc' : Desc) (new : Option Entry) : Prop where
  prepared : ¬ ((newEntry desc).isSome = true ∧ (!env.prepared) = true)
  update : updateEgressList cfg s.lastReleased s.egress desc (newEntry desc) =
    some (.success, egress, desc', new)
  sane : checkSanityList egress = .success

/-- The frame gets through to the ingress list: it is not dropped, its wait count can be
    calculated, and it passes the egress list. -/
def Reaches (cfg : Config) (env : Env) (s : State) (f : Frame) : Prop :=
  let u := updateHostSnapshot cfg.pktCtrDeltaThresh (s.host f.link) f.params
  u.drop = none ∧ ∃ host desc egress desc' new,
    calculateWaitCount env.reads (seenBy s.host f) { f.desc with pktCtrDelta := u.pktCtrDelta } =
      some (.success, host, desc) ∧
    PassesEgress cfg env s desc egress desc' new

/-- The frame becomes the latest one of its link. -/
structure Taken (cfg : Config) (s : State) (f : Frame) : Prop where
  mgmt : f.isMgmt = true
  valid : f.params.valid = true
  kept : (s.host f.link).valid = true →
    ¬ Refused cfg.pktCtrDeltaThresh (s.host f.link) f.params

/-- The checks on the snapshots that go with the frame do not invalidate it at once. -/
def Survives (cfg : Config) (env : Env) (s : State) (f : Frame) : Prop :=
  let u := updateHostSnapshot cfg.pktCtrDeltaThresh (s.host f.link) f.params
  u.drop = none → ∀ status host desc,
    calculateWaitCount env.reads (seenBy s.host f) { f.desc with pktCtrDelta := u.pktCtrDelta } =
      some (status, host, desc) → (host f.link).valid = true

/-- A frame that got through: its descriptor and entry as they come to the ingress list. -/
structure GotThrough (env : Env) (s : State) (f : Frame) (s' : State) (desc : Desc)
    (new : Option Entry) : Prop where
  host : Weaker (seenBy s.host f) s'.host
  counts : Bounded s'.host desc
  link : desc.link = f.link
  params : desc.params = f.params
  newer : (s.host f.link).valid = true →
    comparePktCtrsGte (s.host f.link).mgmtPktCtr f.params.mgmtPktCtr = false
  delta : desc.pktCtrDelta = if (s.host f.link).valid = true then
    subtractPktCtrs f.params.mgmtPktCtr (s.host f.link).mgmtPktCtr else 1
  entry : desc.queuedList ≠ some .egress → ∀ x ∈ new, x = prepareListEntry desc
  ingress : updateIngressList env.now s.ingress desc new = some s'.ingress

/-- **The ways through the critical section**: nothing is changed; or the frame is taken for
    the latest one of its link but does not get to the ingress list; or it is newer than the
    one before and gets there. -/
inductive Outcome (cfg : Config) (env : Env) (s : State) (f : Frame) (s' : State) : Prop
  | refused (not : ¬ Taken cfg s f) (host : s'.host = s.host) (ingress : s'.ingress = s.ingress)
  | lost (taken : Taken cfg s f) (not : ¬ Reaches cfg env s f)
      (survives : (s'.host f.link).valid = true ↔ Survives cfg env s f)
      (host : Weaker (seenBy s.host f) s'.host) (ingress : s'.ingress = s.ingress)
  | queued (taken : Taken cfg s f) (reaches : Reaches cfg env s f)
      (survives : (s'.host f.link).valid = true ↔ Survives cfg env s f)
      (desc : Desc) (new : Option Entry) (through : GotThrough env s f s' desc new)

/-- What the update of the host snapshot says of a frame with valid parameters. -/
theorem update_spec {thresh : UInt16} {host : Snapshot} {p : ReoParams} (hp : p.valid = true) :
    let u := updateHostSnapshot thresh host p
    (u.status ≠ .success ∧ u.host = host ∧ host.valid = true ∧ Refused thresh host p) ∨
      (u.status = .success ∧ u.host = p.snapshot ∧ (host.valid = true → ¬ Refused thresh host p) ∧
        (u.drop = none →
          (host.valid = true → comparePktCtrsGte host.mgmtPktCtr p.mgmtPktCtr = false) ∧
          u.pktCtrDelta =
            if host.valid = true then subtractPktCtrs p.mgmtPktCtr host.mgmtPktCtr else 1)) := by
  by_cases hhost : host.valid = true
  · have hdrop := @update_drop thresh host p hhost hp
    by_cases href : Refused thresh host p
    · obtain ⟨hh, hst⟩ := update_of_refused hhost hp href
      exact .inl ⟨by simp [hst], hh, hhost, href⟩
    · rw [update_eq_taken hhost hp href] at hdrop ⊢
      exact .inr ⟨rfl, rfl, fun _ => href, fun h => ⟨fun _ => hdrop.1 h, (if_pos hhost).symm⟩⟩
  · refine .inr ⟨?_, ?_, fun h => absurd h hhost, fun _ => ⟨fun h => absurd h hhost, ?_⟩⟩ <;>
      simp [updateHostSnapshot, hp, hhost]

theorem newEntry_spec : ∀ x ∈ newEntry desc, x = prepareListEntry desc := by
  intro x hx
  unfold newEntry at hx
  split at hx
  · exact (Option.some.inj hx).symm
  · cases hx

theorem updateLists_cases (h : updateLists cfg env.prepared env.now s desc = some (status, s')) :
    s'.host = s.host ∧
      ((s'.ingress = s.ingress ∧
          ∀ egress desc' new, ¬ PassesEgress cfg env s desc egress desc' new) ∨
        ∃ egress desc' new, PassesEgress cfg env s desc egress desc' new ∧
          updateIngressList env.now s.ingress desc' new = some s'.ingress) := by
  unfold updateLists at h
  split at h
  · rename_i hunprepared
    cases h
    exact ⟨rfl, .inl ⟨rfl, fun _ _ _ hpass => hpass.prepared hunprepared⟩⟩
  rename_i hprepared
  obtain ⟨⟨st, egress, desc', new⟩, hegress, h⟩ := Option.bind_eq_some_iff.1 h
  have hfunc : ∀ egress₁ desc₁ new₁, PassesEgress cfg env s desc egress₁ desc₁ new₁ →
      st = .success ∧ egress = egress₁ := by
    intro egress₁ desc₁ new₁ hpass
    have := hegress.symm.trans hpass.update
    simp only [Option.some.injEq, Prod.mk.injEq] at this
    exact ⟨this.1, this.2.1⟩
  dsimp only at h
  split at h
  · rename_i hst
    cases h
    exact ⟨rfl, .inl ⟨rfl, fun _ _ _ hpass => hst (hfunc _ _ _ hpass).1⟩⟩
  rename_i hst
  split at h
  · rename_i hinsane
    cases h
    exact ⟨rfl, .inl ⟨rfl, fun _ _ _ hpass => hinsane ((hfunc _ _ _ hpass).2 ▸ hpass.sane)⟩⟩
  rename_i hsane
  rw [ne_eq, not_not] at hst hsane
  obtain ⟨ingress, hingress, h⟩ := Option.bind_eq_some_iff.1 h
  cases h
  exact ⟨rfl, .inr ⟨egress, desc', new, ⟨hprepared, hst ▸ hegress, hsane⟩, hingress⟩⟩

theorem algoEntry_cases (h : algoEntry cfg env s f = some (status, s')) :
    Outcome cfg env s f s' := by
  unfold algoEntry at h
  split at h
  · rename_i hmgmt
    cases h
    exact .refused (fun ht => by simp [ht.mgmt] at hmgmt) rfl rfl
  rename_i hmgmt
  split at h
  · rename_i hvalid
    cases h
    exact .refused (fun ht => by simp [ht.valid] at hvalid) rfl rfl
  rename_i hvalid
  simp only [Bool.not_eq_eq_eq_not, Bool.not_true, Bool.not_eq_false] at hmgmt hvalid
  have hspec := @update_spec cfg.pktCtrDeltaThresh (s.host f.link) f.params hvalid
  have hreach := Iff.refl (Reaches cfg env s f)
  conv at hreach => rhs; unfold Reaches
  have hsurvive := Iff.refl (Survives cfg env s f)
  conv at hsurvive => rhs; unfold Survives
  dsimp only at h hspec hreach hsurvive
  generalize updateHostSnapshot cfg.pktCtrDeltaThresh (s.host f.link) f.params = u at *
  rcases hspec with ⟨hst, hhost, hold, href⟩ | ⟨hst, hhost, htaken, hdrop⟩
  · rw [if_pos hst] at h
    cases h
    exact .refused (fun ht => ht.kept hold href)
      (by rw [hhost]; exact Function.update_eq_self ..) rfl
  have htaken : Taken cfg s f := ⟨hmgmt, hvalid, htaken⟩
  rw [if_neg (not_not.2 hst), hhost] at h
  split at h
  · -- a frame to be dropped
    rename_i hsome
    have hsome : u.drop ≠ none := Option.isSome_iff_ne_none.1 hsome
    cases h
    refine .lost htaken (fun hr => hsome (hreach.1 hr).1) ?_ .refl rfl
    refine iff_of_true ?_ (hsurvive.2 fun hnone => absurd hnone hsome)
    exact congrArg Snapshot.valid (seenBy_self s.host f)
  rename_i hnone
  have hnone : u.drop = none := by simpa using hnone
  obtain ⟨hnewer, hdelta⟩ := hdrop hnone
  obtain ⟨⟨st, host, desc⟩, hcalc, h⟩ := Option.bind_eq_some_iff.1 h
  have hweak : Weaker (seenBy s.host f) host := calculateWaitCount_weaker hcalc
  -- there is no other outcome of the calculation
  have honly : ∀ st₁ host₁ desc₁, calculateWaitCount env.reads (seenBy s.host f)
      { f.desc with pktCtrDelta := u.pktCtrDelta } = some (st₁, host₁, desc₁) →
        st = st₁ ∧ host = host₁ ∧ desc = desc₁ := by
    intro st₁ host₁ desc₁ hcalc₁
    simpa only [Option.some.injEq, Prod.mk.injEq] using hcalc.symm.trans hcalc₁
  have hfunc : Reaches cfg env s f → st = .success ∧ ∃ egress desc' new,
      PassesEgress cfg env s desc egress desc' new := by
    intro hr
    obtain ⟨-, host₁, desc₁, egress, desc', new, hcalc₁, hpass⟩ := hreach.1 hr
    obtain ⟨hst₁, -, rfl⟩ := honly _ _ _ hcalc₁
    exact ⟨hst₁, egress, desc', new, hpass⟩
  have hsurvive : (host f.link).valid = true ↔ Survives cfg env s f := by
    rw [hsurvive]
    constructor
    · intro hv _ st₁ host₁ desc₁ hcalc₁
      obtain ⟨-, rfl, -⟩ := honly _ _ _ hcalc₁
      exact hv
    · exact fun hall => hall hnone st host desc hcalc
  dsimp only at h
  split at h
  · rename_i hfails
    cases h
    exact .lost htaken (fun hr => hfails (hfunc hr).1) hsurvive hweak rfl
  rename_i hok
  rw [ne_eq, not_not] at hok
  subst hok
  obtain ⟨hb, hsame⟩ := calculateWaitCount_spec rfl hcalc
  obtain ⟨hhost', ⟨hin, hnot⟩ | ⟨egress, desc', new, hpass, hin⟩⟩ := updateLists_cases h
  · refine .lost htaken (fun hr => ?_) (hhost' ▸ hsurvive) (hhost' ▸ hweak) hin
    obtain ⟨-, egress, desc', new, hpass⟩ := hfunc hr
    exact hnot egress desc' new ⟨hpass.prepared, hpass.update, hpass.sane⟩
  · obtain ⟨hb', hsame', hentry⟩ := updateEgressList_spec hb newEntry_spec hpass.update
    have hpass : PassesEgress cfg env s desc egress desc' new :=
      ⟨hpass.prepared, hpass.update, hpass.sane⟩
    exact .queued htaken (hreach.2 ⟨hnone, host, desc, egress, desc', new, hcalc, hpass⟩)
      (hhost' ▸ hsurvive) desc' new
      ⟨hhost' ▸ hweak, hhost' ▸ hb', hsame'.link.trans hsame.link,
        hsame'.params.trans hsame.params, hnewer, hsame'.delta.trans (hsame.delta.trans hdelta),
        hentry, hin⟩

end Sm8850.Reo
