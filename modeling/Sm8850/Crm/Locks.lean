/-
  The request locks of synced links: `cam_req_mgr_core.c`.

  A handler holds the request lock of its link.  Under it, it may take the session lock
  for a moment, and `cam_req_mgr_process_add_req` may take the request locks of the sync
  links, one after the other.

  * Each handler is the list of locks it takes under that of its link (`visits`), by what
    it finds in the queues: the fields of `AddReq`, `SchedReq` and `ProcessReq`.
  * `Workload` is what the workers of the links and the callers of the session have to
    do, and `SyncEdge` which links' add requests go on to which other links.
  * **`stuck_iff`**: the workers can come to wait for each other's locks in a circle just
    if the add requests go round in a circle of links.
  * `stuck_twoLinks`: two synced links, each with an add request that skips a frame.
-/
import Sm8850.Lib.LockOrder

namespace Sm8850.Crm

open Lib.LockOrder Relation

variable {Link : Type}

/-! ## Handlers -/

/-- `MAX_DEV_FOR_SPECIAL_OPS`. -/
def MAX_DEV_FOR_SPECIAL_OPS : ℕ := 4

/-- The mutexes of the handlers: `session->lock` and the `req.lock` of the links. -/
inductive Lock (Link : Type) where
  | session
  | req (link : Link)
  deriving DecidableEq

/-- The sync links of the links of a session, as `cam_req_mgr_sync_config` sets them. -/
structure SyncConfig (Link : Type) where
  syncLink : Link → List Link
  notSelf : ∀ l, l ∉ syncLink l

/-- `CAM_SYNC_TYPE_*`. -/
inductive SyncType where
  | delayAtSof | delayAtEof | applyAtEof

/-- The loop of `cam_req_mgr_sync_info_for_sync_mode` over the sync links that are left:
    the links it locks, and whether it returns 0.  It stops at a link whose input queue
    lacks the request or that lacks the device (`found`). -/
def syncInfoForSyncMode (found : Link → Bool) : List Link → List Link × Bool
  | [] => ([], true)
  | l :: ls =>
    if found l then (l :: (syncInfoForSyncMode found ls).1, (syncInfoForSyncMode found ls).2)
    else ([l], false)

/-- What `cam_req_mgr_process_add_req` gets and finds. -/
structure AddReq (Link : Type) where
  /-- the device is one of the link's -/
  tblFound : Bool
  /-- the request is in the input queue -/
  slotFound : Bool
  /-- the slot's `sync_mode` is `CAM_REQ_MGR_SYNC_MODE_SYNC` -/
  syncMode : Bool
  skipAtSof : ℕ
  skipAtEof : ℕ
  triggerEof : Bool
  /-- the delays and the number of devices that the table slot has already -/
  injectDelayAtSof : ℕ
  injectDelayAtEof : ℕ
  numDev : ℕ
  /-- what the passes over the sync links find there -/
  found : SyncType → Link → Bool

/-- A pass over the sync links, if the condition for it holds. -/
def AddReq.pass (a : AddReq Link) (links : List Link) (cond : Bool) (type : SyncType) :
    List Link × Bool :=
  if cond && a.syncMode then syncInfoForSyncMode (a.found type) links else ([], true)

/-- The links that `cam_req_mgr_process_add_req` locks under its own link's lock; `none` if
    it does not get there. -/
def AddReq.visits (a : AddReq Link) (links : List Link) : Option (List Link) :=
  if a.tblFound = false then none
  else if a.slotFound = false then some []
  else
    let sof := a.pass links (a.skipAtSof % 256 > a.injectDelayAtSof) .delayAtSof
    let eof := a.pass links (a.skipAtEof % 256 > a.injectDelayAtEof) .delayAtEof
    if sof.2 = false then some sof.1
    else if eof.2 = false then some (sof.1 ++ eof.1)
    else if a.triggerEof = false then some (sof.1 ++ eof.1)
    else if a.numDev = MAX_DEV_FOR_SPECIAL_OPS then some (sof.1 ++ eof.1)
    else some (sof.1 ++ eof.1 ++ (a.pass links true .applyAtEof).1)

/-- What `cam_req_mgr_process_sched_req` finds: whether it has to look for the request
    before on the other links, and whether the link still has its session. -/
structure SchedReq where
  checksConcurrency : Bool
  hasSession : Bool

/-- The locks that `cam_req_mgr_process_sched_req` takes under that of the link. -/
def SchedReq.visits (r : SchedReq) : List (Lock Link) :=
  if r.checksConcurrency && r.hasSession then [.session] else []

/-- What `__cam_req_mgr_process_req` finds: whether the link still has its session, the
    request is sent, and `__cam_req_mgr_send_req` has to look at the other links. -/
structure ProcessReq where
  hasSession : Bool
  sends : Bool
  checksConcurrency : Bool

/-- The locks that `__cam_req_mgr_process_req` takes, with `__cam_req_mgr_send_req`. -/
def ProcessReq.visits (p : ProcessReq) : List (Lock Link) :=
  if p.hasSession = false then []
  else if p.sends = false then [.session]
  else if p.checksConcurrency then [.session, .session] else [.session]

/-- What the worker of a link has to do.  A trigger gets to `__cam_req_mgr_process_req` if
    the link is ready and has a request to apply, an error if it is a bubble on a request
    that can be recovered. -/
inductive Job (Link : Type) where
  | addReq (a : AddReq Link)
  | trigger (processes : Option ProcessReq)
  | error (recovers : Option ProcessReq)

/-- The locks that the handler takes under that of its link; `none` if it does not lock. -/
def Job.visits (cfg : SyncConfig Link) (l : Link) : Job Link → Option (List (Lock Link))
  | .addReq a => (a.visits (cfg.syncLink l)).map (·.map .req)
  | .trigger p | .error p => some (p.elim [] (·.visits))

/-! ## Workloads -/

/-- The worker of a link, or a thread that schedules requests. -/
inductive Worker (Link : Type) where
  | workq (link : Link)
  | caller (n : ℕ)
  deriving DecidableEq

/-- What the workers have to do, in this order. -/
structure Workload (Link : Type) where
  workq : Link → List (Job Link)
  caller : ℕ → List (Link × SchedReq)

theorem syncInfo_subset {found : Link → Bool} (links : List Link) :
    (syncInfoForSyncMode found links).1 ⊆ links := by
  induction links with
  | nil => exact List.Subset.refl _
  | cons l ls ih =>
    unfold syncInfoForSyncMode
    split
    · exact List.cons_subset_cons l ih
    · exact List.cons_subset_cons l (List.nil_subset ls)

theorem AddReq.pass_subset (a : AddReq Link) (links : List Link) (cond : Bool)
    (type : SyncType) : (a.pass links cond type).1 ⊆ links := by
  unfold pass
  split
  · exact syncInfo_subset links
  · exact List.nil_subset links

/-- An add request locks only sync links. -/
theorem AddReq.visits_subset {a : AddReq Link} {links v : List Link}
    (h : a.visits links = some v) : v ⊆ links := by
  unfold visits at h
  split at h
  · cases h
  split at h
  · cases h
    exact List.nil_subset links
  extract_lets sof eof at h
  have hsof : sof.1 ⊆ links := a.pass_subset links _ _
  have heof : eof.1 ⊆ links := a.pass_subset links _ _
  split at h
  · cases h
    exact hsof
  split at h
  · cases h
    exact List.append_subset.mpr ⟨hsof, heof⟩
  split at h
  · cases h
    exact List.append_subset.mpr ⟨hsof, heof⟩
  split at h <;> cases h
  · exact List.append_subset.mpr ⟨hsof, heof⟩
  · exact List.append_subset.mpr ⟨List.append_subset.mpr ⟨hsof, heof⟩, a.pass_subset links _ _⟩

theorem ProcessReq.visits_session {p : ProcessReq} {k : Lock Link} (h : k ∈ p.visits) :
    k = .session := by
  unfold visits at h
  split_ifs at h <;> simp at h <;> exact h

theorem SchedReq.visits_session {r : SchedReq} {k : Lock Link} (h : k ∈ r.visits) :
    k = .session := by
  unfold visits at h
  split_ifs at h
  · exact List.mem_singleton.mp h
  · exact absurd h List.not_mem_nil

theorem Job.req_notMem {cfg : SyncConfig Link} {l : Link} {j : Job Link}
    {v : List (Lock Link)} (h : j.visits cfg l = some v) : .req l ∉ v := by
  have hopt : ∀ p : Option ProcessReq, Lock.req l ∉ p.elim [] (·.visits) := by
    rintro (_ | p) hmem
    · exact absurd hmem List.not_mem_nil
    · exact nomatch ProcessReq.visits_session hmem
  cases j with
  | addReq a =>
    obtain ⟨v', hv', rfl⟩ := Option.map_eq_some_iff.mp h
    intro hmem
    obtain ⟨l', hl', he⟩ := List.mem_map.mp hmem
    cases he
    exact cfg.notSelf l (AddReq.visits_subset hv' hl')
  | trigger p =>
    cases h
    exact hopt p
  | error p =>
    cases h
    exact hopt p

/-- The critical section of a job, if it gets to lock its link. -/
def Job.critical (cfg : SyncConfig Link) (l : Link) (j : Job Link) :
    Option (Section (Lock Link)) :=
  match h : j.visits cfg l with
  | none => none
  | some v => some ⟨.req l, v, Job.req_notMem h⟩

/-- The critical section of `cam_req_mgr_process_sched_req`. -/
def SchedReq.critical (l : Link) (r : SchedReq) : Section (Lock Link) :=
  ⟨.req l, r.visits, fun h => nomatch SchedReq.visits_session h⟩

/-- The critical sections of the workers. -/
def program (cfg : SyncConfig Link) (w : Workload Link) :
    Worker Link → List (Section (Lock Link))
  | .workq l => (w.workq l).filterMap (Job.critical cfg l)
  | .caller n => (w.caller n).map fun (l, r) => r.critical l

/-- Link `l` has an add request to process that goes on to lock `l'`. -/
def SyncEdge (cfg : SyncConfig Link) (w : Workload Link) (l l' : Link) : Prop :=
  ∃ a, .addReq a ∈ w.workq l ∧ ∃ v, a.visits (cfg.syncLink l) = some v ∧ l' ∈ v

/-! ## Circles -/

variable [DecidableEq Link] {cfg : SyncConfig Link} {w : Workload Link} {l l' : Link}

omit [DecidableEq Link] in
theorem critical_eq {j : Job Link} {sec : Section (Lock Link)}
    (h : j.critical cfg l = some sec) :
    sec.home = .req l ∧ j.visits cfg l = some sec.visits := by
  unfold Job.critical at h
  split at h
  · cases h
  · rename_i v hv
    cases h
    exact ⟨rfl, hv⟩

omit [DecidableEq Link] in
theorem critical_of_visits {j : Job Link} {v : List (Lock Link)} (h : j.visits cfg l = some v) :
    ∃ sec, j.critical cfg l = some sec ∧ sec.home = .req l ∧ sec.visits = v := by
  unfold Job.critical
  split
  · rename_i hv
    simp [hv] at h
  · rename_i v' hv
    obtain rfl : v' = v := Option.some.inj (hv.symm.trans h)
    exact ⟨_, rfl, rfl, rfl⟩

omit [DecidableEq Link] in
/-- From the lock of a link the sections visit the session lock, and what the add requests
    go on to. -/
theorem edge_req {k : Lock Link} (h : Edge (program cfg w) k (.req l')) :
    ∃ l, k = .req l ∧ SyncEdge cfg w l l' := by
  obtain ⟨t, sec, hsec, rfl, hvisit⟩ := h
  cases t with
  | workq l =>
    obtain ⟨j, hj, hsec⟩ := List.mem_filterMap.mp hsec
    obtain ⟨hhome, hv⟩ := critical_eq hsec
    refine ⟨l, hhome, ?_⟩
    have hopt : ∀ p : Option ProcessReq, Lock.req l' ∉ p.elim [] (·.visits) := by
      rintro (_ | p) hmem
      · exact absurd hmem List.not_mem_nil
      · exact nomatch ProcessReq.visits_session hmem
    cases j with
    | addReq a =>
      obtain ⟨v, hv, he⟩ := Option.map_eq_some_iff.mp hv
      rw [← he] at hvisit
      obtain ⟨x, hx, hxe⟩ := List.mem_map.mp hvisit
      cases hxe
      exact ⟨a, hj, v, hv, hx⟩
    | trigger p =>
      rw [← Option.some.inj hv] at hvisit
      exact absurd hvisit (hopt p)
    | error p =>
      rw [← Option.some.inj hv] at hvisit
      exact absurd hvisit (hopt p)
  | caller n =>
    obtain ⟨⟨l, r⟩, -, rfl⟩ := List.mem_map.mp hsec
    exact nomatch SchedReq.visits_session hvisit

omit [DecidableEq Link] in
theorem edges_req {k k' : Lock Link} (h : TransGen (Edge (program cfg w)) k k')
    (hk' : k' = .req l') : ∃ l, k = .req l ∧ TransGen (SyncEdge cfg w) l l' := by
  induction h generalizing l' with
  | single h =>
    subst hk'
    obtain ⟨l, hl, hedge⟩ := edge_req h
    exact ⟨l, hl, .single hedge⟩
  | tail _ h ih =>
    subst hk'
    obtain ⟨m, hm, hedge⟩ := edge_req h
    obtain ⟨l, hl, hedges⟩ := ih hm
    exact ⟨l, hl, hedges.tail hedge⟩

omit [DecidableEq Link] in
/-- The home lock of a section is that of a link. -/
theorem edge_home {k k' : Lock Link} (h : Edge (program cfg w) k k') : k ≠ .session := by
  obtain ⟨t, sec, hsec, rfl, -⟩ := h
  cases t with
  | workq l =>
    obtain ⟨j, -, hsec⟩ := List.mem_filterMap.mp hsec
    rw [(critical_eq hsec).1]
    exact nofun
  | caller n =>
    obtain ⟨⟨l, r⟩, -, rfl⟩ := List.mem_map.mp hsec
    exact nofun

/-- The worker that takes the lock for its link. -/
def Lock.worker : Lock Link → Worker Link
  | .req l => .workq l
  | .session => .caller 0

/-- Add requests that go round in a circle of links can leave the workers stuck. -/
theorem stuck_of_syncCircle (h : TransGen (SyncEdge cfg w) l l) :
    ∃ s, Reachable (program cfg w) s ∧ s.Stuck := by
  obtain ⟨C, hne, hC⟩ := exists_finset_of_circle h
  have hinj : Set.InjOn Lock.worker (↑(C.image Lock.req) : Set (Lock Link)) := by
    intro a ha b hb hab
    obtain ⟨x, -, rfl⟩ := Finset.mem_image.mp (Finset.mem_coe.mp ha)
    obtain ⟨y, -, rfl⟩ := Finset.mem_image.mp (Finset.mem_coe.mp hb)
    exact congrArg _ (Worker.workq.inj hab)
  refine stuck_of_circle (hne.image Lock.req) hinj fun k hk => ?_
  obtain ⟨x, hx, rfl⟩ := Finset.mem_image.mp hk
  obtain ⟨y, hy, a, ha, v, hv, hyv⟩ := hC x hx
  have hjob : Job.visits cfg x (.addReq a) = some (v.map .req) := by
    rw [Job.visits, hv]
    rfl
  obtain ⟨sec, hsec, hhome, hvisits⟩ := critical_of_visits hjob
  refine ⟨sec, List.mem_filterMap.mpr ⟨_, ha, hsec⟩, hhome, .req y, ?_, ?_⟩
  · exact Finset.mem_image_of_mem _ hy
  · rw [hvisits]
    exact List.mem_map_of_mem hyv

/-- **The workers can come to wait in a circle just if the add requests go round in one**:
    each link of the circle has a request in sync mode that goes on to the next. -/
theorem stuck_iff (cfg : SyncConfig Link) (w : Workload Link) :
    (∀ s, Reachable (program cfg w) s → ¬ s.Stuck) ↔
      ∀ l, ¬ TransGen (SyncEdge cfg w) l l := by
  constructor
  · intro h l hcircle
    obtain ⟨s, hs, hstuck⟩ := stuck_of_syncCircle hcircle
    exact h s hs hstuck
  · intro h s hs
    refine not_stuck (fun k hk => ?_) hs
    cases k with
    | session =>
      obtain ⟨k', hedge, -⟩ := TransGen.head'_iff.mp hk
      exact edge_home hedge rfl
    | req l =>
      obtain ⟨l', he, hcircle⟩ := edges_req hk rfl
      cases he
      exact h l hcircle

/-- Two links that are synced with each other, each with one request that skips a frame. -/
def twoLinks : Workload Bool where
  workq _ := [.addReq
    { tblFound := true
      slotFound := true
      syncMode := true
      skipAtSof := 1
      skipAtEof := 0
      triggerEof := false
      injectDelayAtSof := 0
      injectDelayAtEof := 0
      numDev := 0
      found := fun _ _ => true }]
  caller _ := []

/-- The two links of `twoLinks`. -/
def twoSynced : SyncConfig Bool where
  syncLink l := [!l]
  notSelf l := by cases l <;> decide

/-- Each of the two workers holds the lock of its link and waits for that of the other. -/
theorem stuck_twoLinks : ∃ s, Reachable (program twoSynced twoLinks) s ∧ s.Stuck := by
  have hedge : ∀ l, SyncEdge twoSynced twoLinks l (!l) := fun l =>
    ⟨_, List.mem_cons_self, [!l], rfl, List.mem_cons_self⟩
  exact stuck_of_syncCircle ((TransGen.single (hedge true)).tail (hedge false))

end Sm8850.Crm
