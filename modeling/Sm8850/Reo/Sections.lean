/-
  The sections under a lock in which the reorder lists of a group change, after
  `wlan_mgmt_txrx_rx_reo.c`.

  The lists are changed by the frames that come in, by the timer of the ingress list and by
  the release of the egress list, each in a context of its own.

  * `frameDesc`, `updateListsEgress`: what a frame does up to where the lock of the egress
    list is given back; that of the ingress list is still held (`Ctx.pending`).
  * `enter_queue`: together with the rest this is `algoEntry`.
  * `releaseEntry`: one turn of the loop of `mgmt_rx_reo_release_egress_list_entries`.
  * `Section`, `Ctx.exec`: the sections, which may follow each other in any order as far as
    the locks admit it; `Section.Fails` is what no section is to do.
-/
import Sm8850.Reo.Arrival

namespace Sm8850.Reo

/-! ## A frame, in two sections -/

/-- What comes before the lists: the frame gets its descriptor, unless it goes no further. -/
def frameDesc (cfg : Config) (env : Env) (s : State) (f : Frame) :
    Option (Status × State × Option Desc) :=
  if !f.isMgmt then some (.eInval, s, none)
  else if !f.params.valid then some (.eFailure, s, none)
  else
    let u := updateHostSnapshot cfg.pktCtrDeltaThresh (s.host f.link) f.params
    let s := { s with host := Function.update s.host f.link u.host }
    if u.status ≠ .success then some (u.status, s, none)
    else if u.drop.isSome then some (.success, s, none)
    else do
      let desc := { f.desc with pktCtrDelta := u.pktCtrDelta }
      let (status, host, desc) ← calculateWaitCount env.reads s.host desc
      let s := { s with host := host }
      if status ≠ .success then return (status, s, none)
      else return (.success, s, some desc)

/-- `mgmt_rx_reo_update_lists` up to where the lock of the egress list is given back. -/
def updateListsEgress (cfg : Config) (prepared : Bool) (s : State) (desc : Desc) :
    Option (Status × State × Option (Desc × Option Entry)) := do
  if (newEntry desc).isSome ∧ !prepared then return (.eFailure, s, none)
  else
    let (status, egress, desc, new) ←
      updateEgressList cfg s.lastReleased s.egress desc (newEntry desc)
    if status ≠ .success then return (status, s, none)
    else
      let s := { s with egress := egress }
      if checkSanityList egress ≠ .success then return (checkSanityList egress, s, none)
      else return (.success, s, some (desc, new))

/-- A reorder context: its lists, the frame whose thread holds the lock of the ingress list
    between the two updates, and as a history the entries that were released since the
    inactivity timer expired, the last one first. -/
structure Ctx where
  lists : State
  pending : Option (Desc × Option Entry)
  released : List Entry

/-! ## Checks -/

/-- `mgmt_rx_reo_check_sanity_lists`. -/
def checkSanityLists (egress ingress : List Entry) : Status :=
  if checkSanityList egress ≠ .success then checkSanityList egress
  else if checkSanityList ingress ≠ .success then checkSanityList ingress
  else
    match egress.getLast?, ingress.head? with
    | some last, some first =>
      if compareGlobalTimestampsGte first.globalTimestamp last.globalTimestamp then .success
      else .eInval
    | _, _ => .success

/-- The assertion on an entry to be released: it is not older than the last one, unless they
    were received in parallel. -/
def releaseAsserts (lastReleased : Option (UInt32 × UInt32)) (first : Entry) : Bool :=
  match lastReleased with
  | some (ts, _) => compareGlobalTimestampsGte first.globalTimestamp ts || first.isParallelRx
  | none => true

/-! ## Releasing -/

/-- One turn of the loop of `mgmt_rx_reo_release_egress_list_entries`.  `defer` says that
    the frame is to be delivered in another context; `endTs` is the end of the frame, which
    begins at its global timestamp. -/
def releaseEntry (defer : Bool) (endTs : UInt32) (c : Ctx) : Option Ctx :=
  match c.lists.egress with
  | [] => some c
  | first :: rest =>
    if !first.isReady then some c
    else if defer && !first.flags.egressListOverflow then some c
    else do
      qdfAssertAlways (releaseAsserts c.lists.lastReleased first = true)
      let last := some (first.globalTimestamp, endTs)
      let lastReleased := match c.lists.lastReleased with
        | some (ts, end') =>
          if compareGlobalTimestampsGte first.globalTimestamp ts then last else some (ts, end')
        | none => last
      return { c with
        lists := { c.lists with egress := rest, lastReleased := lastReleased }
        released := first :: c.released }

/-! ## Sections -/

/-- The sections: a frame comes in and is queued, ready entries are moved, the timer marks
    entries, one entry is released, and the inactivity timer expires. -/
inductive Section
  | enter (env : Env) (f : Frame)
  | queue (now : UInt64)
  | move
  | ageout (now : UInt64)
  | release (defer : Bool) (endTs : UInt32)
  | expire

/-- One section; `none` where it waits for the lock of the ingress list, or where an
    assertion fails. -/
def Ctx.exec (cfg : Config) (c : Ctx) : Section → Option Ctx
  | .enter env f =>
    if c.pending.isSome then none
    else do
      let (_, s, desc) ← frameDesc cfg env c.lists f
      match desc with
      | none => return { c with lists := s }
      | some desc =>
        let (_, s, pending) ← updateListsEgress cfg env.prepared s desc
        return { c with lists := s, pending := pending }
  | .queue now => do
    let (desc, new) ← c.pending
    let ingress ← updateIngressList now c.lists.ingress desc new
    return { c with lists := { c.lists with ingress := ingress }, pending := none }
  | .move => if c.pending.isSome then none else some { c with lists := moveEntries cfg c.lists }
  | .ageout now =>
    if c.pending.isSome then none
    else some { c with lists := { c.lists with
      ingress := ageoutEntries cfg now c.lists.ingress } }
  | .release defer endTs => releaseEntry defer endTs c
  | .expire => some { c with lists := { c.lists with lastReleased := none }, released := [] }

/-- **What is to be ruled out**: in a section one of the checks on the lists fails, or one of
    the assertions on frames that were received in parallel. -/
def Section.Fails (cfg : Config) (c : Ctx) : Section → Prop
  | .enter env f => ∃ status s desc, frameDesc cfg env c.lists f = some (status, s, some desc) ∧
    (updateListsEgress cfg env.prepared s desc = none ∨
      ∃ egress desc' new, updateEgressList cfg s.lastReleased s.egress desc (newEntry desc) =
        some (.success, egress, desc', new) ∧ checkSanityList egress ≠ .success)
  | .queue now => ∃ desc new, c.pending = some (desc, new) ∧
    (updateIngressList now c.lists.ingress desc new = none ∨
      ∃ ingress, updateIngressList now c.lists.ingress desc new = some ingress ∧
        checkSanityList ingress ≠ .success)
  | .move => checkSanityLists (moveEntries cfg c.lists).egress (moveEntries cfg c.lists).ingress ≠
    .success
  | .ageout _ => False
  | .release defer endTs => releaseEntry defer endTs c = none
  | .expire => False

/-! ## The sections of a frame -/

theorem algoEntry_eq (cfg : Config) (env : Env) (s : State) (f : Frame) :
    algoEntry cfg env s f = (frameDesc cfg env s f).bind fun r =>
      match r with
      | (status, s, none) => some (status, s)
      | (_, s, some desc) => updateLists cfg env.prepared env.now s desc := by
  unfold algoEntry frameDesc
  split_ifs
  · rfl
  · rfl
  dsimp only
  split_ifs
  · rfl
  · rfl
  simp only [Option.bind_eq_bind, Option.bind_assoc]
  refine congrArg _ (funext fun r => ?_)
  obtain ⟨status, host, desc⟩ := r
  dsimp only
  split_ifs <;> rfl

theorem updateLists_eq (cfg : Config) (prepared : Bool) (now : UInt64) (s : State) (desc : Desc) :
    updateLists cfg prepared now s desc = (updateListsEgress cfg prepared s desc).bind fun r =>
      match r with
      | (status, s, none) => some (status, s)
      | (_, s, some (desc, new)) => (updateIngressList now s.ingress desc new).map fun ingress =>
        (checkSanityList ingress, { s with ingress := ingress }) := by
  unfold updateLists updateListsEgress
  split_ifs
  · rfl
  simp only [Option.bind_eq_bind, Option.bind_assoc]
  refine congrArg _ (funext fun r => ?_)
  obtain ⟨status, egress, desc', new⟩ := r
  dsimp only
  split_ifs
  · rfl
  · rfl
  · simp only [Option.pure_def, Option.bind_some, Option.map_eq_bind]
    rfl

/-- The two sections of a frame one after the other are the critical section. -/
theorem enter_queue (cfg : Config) (env : Env) (f : Frame) (c : Ctx) (hfree : c.pending = none) :
    ((c.exec cfg (.enter env f)).bind fun c' =>
      if c'.pending.isSome then c'.exec cfg (.queue env.now) else some c') =
    (exec cfg c.lists (.entry env f)).map fun s => { c with lists := s } := by
  simp only [Ctx.exec, exec, hfree, algoEntry_eq]
  cases frameDesc cfg env c.lists f with
  | none => rfl
  | some r =>
    obtain ⟨status, s, _ | desc⟩ := r
    · simp
    simp only [Option.isSome_none, Bool.false_eq_true, if_false, Option.bind_eq_bind,
      Option.bind_some, updateLists_eq]
    cases updateListsEgress cfg env.prepared s desc with
    | none => rfl
    | some r =>
      obtain ⟨status, s', _ | ⟨desc', new⟩⟩ := r
      · simp
      · simp only [Option.bind_some, Option.pure_def, Option.isSome_some, if_true]
        cases updateIngressList env.now s'.ingress desc' new with
        | none => rfl
        | some ingress => simp

/-! ## What comes before the lists -/

variable {cfg : Config} {env : Env} {s s' : State} {f : Frame} {desc desc' : Desc}
  {status : Status} {reads : Link → LinkRead} {host host' : Link → Snapshot} {link : Link}

theorem calculateLink_same (h : calculateLink reads host desc link = some (status, host', desc')) :
    ∃ wc snapshots drop,
      desc' = { desc with waitCount := wc, snapshots := snapshots, drop := drop } := by
  unfold calculateLink at h
  split at h
  · cases h
    exact ⟨_, _, _, rfl⟩
  · cases h
    exact ⟨_, _, _, rfl⟩
  · cases h
    exact ⟨_, _, _, rfl⟩
  · cases h
    exact ⟨_, _, _, rfl⟩
  · dsimp only at h
    split at h
    · cases h
      exact ⟨_, _, _, rfl⟩
    · obtain ⟨n, -, h⟩ := Option.bind_eq_some_iff.1 h
      cases h
      exact ⟨_, _, _, rfl⟩

theorem calculateLoop_same {ls : List Link}
    (h : calculateLoop reads host desc ls = some (status, host', desc')) :
    ∃ wc snapshots drop,
      desc' = { desc with waitCount := wc, snapshots := snapshots, drop := drop } := by
  induction ls generalizing host desc with
  | nil =>
    cases h
    exact ⟨_, _, _, rfl⟩
  | cons link rest ih =>
    obtain ⟨⟨st, host₁, desc₁⟩, hlink, h⟩ := Option.bind_eq_some_iff.1 h
    obtain ⟨wc, snapshots, drop, rfl⟩ := calculateLink_same hlink
    dsimp only at h
    split at h
    · cases h
      exact ⟨_, _, _, rfl⟩
    · obtain ⟨wc', snapshots', drop', hdesc⟩ := ih h
      exact ⟨wc', snapshots', drop', hdesc⟩

theorem calculateWaitCount_same
    (h : calculateWaitCount reads host desc = some (status, host', desc')) :
    ∃ wc snapshots drop,
      desc' = { desc with waitCount := wc, snapshots := snapshots, drop := drop } := by
  unfold calculateWaitCount at h
  split at h
  · cases h
    exact ⟨_, _, _, rfl⟩
  · cases h
    exact ⟨_, _, _, rfl⟩
  · exact calculateLoop_same h

/-- The lists are left alone, and the descriptor is that of the frame. -/
theorem frameDesc_spec {d : Option Desc} (h : frameDesc cfg env s f = some (status, s', d)) :
    s' = { s with host := s'.host } ∧ ∀ desc ∈ d, desc.params = f.params ∧
      desc.startTs = f.startTs := by
  unfold frameDesc at h
  split at h
  · cases h
    exact ⟨rfl, by simp⟩
  split at h
  · cases h
    exact ⟨rfl, by simp⟩
  dsimp only at h
  split at h
  · cases h
    exact ⟨rfl, by simp⟩
  split at h
  · cases h
    exact ⟨rfl, by simp⟩
  obtain ⟨⟨st, host, desc⟩, hcount, h⟩ := Option.bind_eq_some_iff.1 h
  obtain ⟨wc, snapshots, drop, rfl⟩ := calculateWaitCount_same hcount
  dsimp only at h
  split at h
  · cases h
    exact ⟨rfl, by simp⟩
  · cases h
    refine ⟨rfl, fun desc hdesc => ?_⟩
    cases hdesc
    exact ⟨rfl, rfl⟩

end Sm8850.Reo
