/-
  Callbacks and payloads: every registration is dispatched once, with the final
  state of its fence.

  * `CbInv`: a registration is queued in the row of its fence until its dispatch
    is logged, and a row that has dispatched queues nothing.
  * `Op.SeesDone` is the condition on a registration of a payload: a group that
    looks signaled has no child left.
  * **`dispatched_once`**: what becomes of a registration.
  * **`early_payload`**: a payload that a group dispatches before its last child.
-/
import Sm8850.CamSync.Groups

namespace Sm8850.CamSync

variable {w w' : World} {t t' i c idx : ℕ} {k l fence : Link} {row : Row} {status : FenceState}
  {kind : RegKind} {kept : Prop}

/-! ## The invariant -/

/-- The registrations that a row has queued. -/
def Row.queue (row : Row) : RegKind → List ℕ
  | .callback => row.callbackList.map CallbackInfo.reg
  | .payload => row.userPayloadList.map UserPayload.reg

/-- Callbacks are always dispatched, payloads to an open event queue. -/
def RegKind.Enabled (eventq : Bool) (kind : RegKind) : Prop := kind = .payload → eventq = true

/-- The registrations that have been dispatched. -/
def World.logged (w : World) : List ℕ := w.log.map Dispatch.reg

/-- The row has dispatched once its fence has completed, and has nothing more to
    dispatch, unless the thread that signals it is outside the lock. -/
structure World.Settled (w : World) (i : ℕ) : Prop where
  empty : (w.rows i).signaled = true → (w.rows i).state ≠ .active ∧
    ∀ kind, RegKind.Enabled w.eventq kind → (w.rows i).queue kind = []
  done : (w.rows i).state ≠ .active →
    (w.rows i).signaled = true ∨ ∃ t status, w.thr t = .signalSynx (w.self i) status

/-- **Registrations**, the queues of the rows and the log. -/
structure CbInv (w : World) : Prop where
  known : ∀ r reg, w.regs r = some reg → r < w.nextReg ∧ w.Born reg.fence
  queued : ∀ kind i, ∀ r ∈ (w.rows i).queue kind,
    w.regs r = some ⟨kind, w.self i, false⟩ ∧ r ∉ w.logged
  queueNodup : ∀ kind i, ((w.rows i).queue kind).Nodup
  logFence : ∀ d ∈ w.log, ∃ reg, w.regs d.reg = some reg ∧ reg.fence = d.fence
  logFinal : ∀ d ∈ w.log, w.final d.fence = some d.status ∧ ∀ k ∈ w.kids d.fence, w.final k ≠ none
  logNodup : w.logged.Nodup
  waits : ∀ r reg, w.regs r = some reg → reg.dropped = false → w.Alive reg.fence →
    r ∈ w.logged ∨ r ∈ (w.rows reg.fence.syncId).queue reg.kind
  settled : ∀ i, (w.rows i).type ≠ .group → (w.rows i).state ≠ .invalid → w.Settled i

theorem Row.queue_nil (hc : row.callbackList = []) (hp : row.userPayloadList = [])
    (kind : RegKind) :
    row.queue kind = [] := by
  cases kind <;> simp [Row.queue, hc, hp]

theorem Row.queue_congr {r r' : Row} (hc : r'.callbackList = r.callbackList)
    (hp : r'.userPayloadList = r.userPayloadList) (kind : RegKind) :
    r'.queue kind = r.queue kind := by
  cases kind <;> simp [Row.queue, hc, hp]

theorem cbInv_init (eventq : Bool) : CbInv (World.init eventq) := by
  have hq : ∀ i kind, ((World.init eventq).rows i).queue kind = [] := fun i =>
    Row.queue_nil (by grind [World.init, Row.zero]) (by grind [World.init, Row.zero])
  have hst : ∀ i, ((World.init eventq).rows i).state = .invalid := by grind [World.init, Row.zero]
  exact
    { known := fun r reg hr => by simp [World.init] at hr
      queued := fun kind i r hr => by simp [hq] at hr
      queueNodup := fun kind i => by simp [hq]
      logFence := fun d hd => by simp [World.init] at hd
      logFinal := fun d hd => by simp [World.init] at hd
      logNodup := List.nodup_nil
      waits := fun r reg hr => by simp [World.init] at hr
      settled := fun i _ hi => absurd (hst i) hi }

/-! ## Sections that dispatch nothing -/

/-- A section that queues and dispatches nothing: a row keeps its queues, or has
    none of them and no fence that has been created. -/
theorem CbInv.frame (h : CbInv w)
    (hq : ∀ i, w'.self i = w.self i ∧ (∀ kind, (w'.rows i).queue kind = (w.rows i).queue kind) ∨
      ∀ kind, (w'.rows i).queue kind = [])
    (hal : ∀ l, w.Born l → w'.Alive l →
      w.Alive l ∧ ∀ kind, (w'.rows l.syncId).queue kind = (w.rows l.syncId).queue kind)
    (hb : ∀ l, w.Born l → w'.Born l) (hf : ∀ l, w.final l ≠ none → w'.final l = w.final l)
    (hk : ∀ l, w.final l ≠ none → w'.kids l = w.kids l)
    (hr : w'.regs = w.regs) (hn : w'.nextReg = w.nextReg) (hlog : w'.log = w.log)
    (hs : ∀ i, (w'.rows i).type ≠ .group → (w'.rows i).state ≠ .invalid → w'.Settled i) :
    CbInv w' := by
  have hlog' : w'.logged = w.logged := by rw [World.logged, hlog, World.logged]
  constructor
  · intro r reg hreg
    rw [hr] at hreg
    rw [hn]
    exact (h.known r reg hreg).imp id (hb _)
  · intro kind i r hrq
    rcases hq i with ⟨hi, hq⟩ | hq
    · rw [hr, hi, hlog']
      exact h.queued kind i r (hq kind ▸ hrq)
    · simp [hq kind] at hrq
  · intro kind i
    rcases hq i with ⟨-, hq⟩ | hq
    · exact hq kind ▸ h.queueNodup kind i
    · exact hq kind ▸ List.nodup_nil
  · exact hlog ▸ hr ▸ h.logFence
  · intro d hd
    obtain ⟨hfd, hkd⟩ := h.logFinal d (hlog ▸ hd)
    have hne : w.final d.fence ≠ none := by simp [hfd]
    refine ⟨(hf _ hne).trans hfd, fun k hkk => ?_⟩
    rw [hk _ hne] at hkk
    exact fun he => hkd k hkk (by rwa [hf k (hkd k hkk)] at he)
  · exact hlog' ▸ h.logNodup
  · intro r reg hreg hdrop halive
    rw [hr] at hreg
    obtain ⟨ha, hq'⟩ := hal _ (h.known r reg hreg).2 halive
    rw [hlog', hq']
    exact h.waits r reg hreg hdrop ha
  · exact hs

/-- What a section that dispatches nothing keeps of a row. -/
structure Row.Keeps (r r' : Row) : Prop where
  gen : r'.gen = r.gen
  callbacks : r'.callbackList = r.callbackList
  payloads : r'.userPayloadList = r.userPayloadList
  taken : r.bit = true ∨ r.locked = true → r'.bit = true ∨ r'.locked = true
  type : r'.type = r.type
  dead : r.state = .invalid → r'.state = .invalid
  single : r.type ≠ .group → r'.state ≠ .invalid → r'.state = r.state ∧ r'.signaled = r.signaled

theorem Row.Keeps.refl (r : Row) : r.Keeps r :=
  ⟨rfl, rfl, rfl, id, rfl, id, fun _ _ => ⟨rfl, rfl⟩⟩

theorem World.Settled.keep (h : w.Settled i) (hr : (w.rows i).Keeps (w'.rows i))
    (htype : (w'.rows i).type ≠ .group) (hst : (w'.rows i).state ≠ .invalid)
    (he : w'.eventq = w.eventq)
    (ht : ∀ t status, w.thr t = .signalSynx (w.self i) status →
      w'.thr t = .signalSynx (w.self i) status ∨ (w'.rows i).signaled = true) : w'.Settled i := by
  obtain ⟨hs, hsig⟩ := hr.single (hr.type ▸ htype) hst
  have hself : w'.self i = w.self i := by simp [World.self, hr.gen]
  constructor
  · rw [hs, hsig, he]
    intro hd
    exact (h.empty hd).imp id fun hq kind hk =>
      (Row.queue_congr hr.callbacks hr.payloads kind).trans (hq kind hk)
  · rw [hs, hself]
    intro hd
    rcases h.done hd with hd | ⟨t, st, hts⟩
    · exact .inl (hsig.trans hd)
    · exact (ht t st hts).symm.imp id fun hts => ⟨t, st, hts⟩

theorem CbInv.keep (h : CbInv w) (hrow : ∀ i, (w.rows i).Keeps (w'.rows i))
    (he : w'.eventq = w.eventq)
    (ht : ∀ i t status, (w'.rows i).state ≠ .invalid → w.thr t = .signalSynx (w.self i) status →
      w'.thr t = .signalSynx (w.self i) status ∨ (w'.rows i).signaled = true)
    (hf : ∀ l, w.final l ≠ none → w'.final l = w.final l)
    (hk : ∀ l, w.final l ≠ none → w'.kids l = w.kids l)
    (hr : w'.regs = w.regs) (hn : w'.nextReg = w.nextReg) (hlog : w'.log = w.log) : CbInv w' := by
  have hq : ∀ i kind, (w'.rows i).queue kind = (w.rows i).queue kind := fun i =>
    Row.queue_congr (hrow i).callbacks (hrow i).payloads
  refine h.frame (fun i => .inl ⟨by simp [World.self, (hrow i).gen], hq i⟩) (fun l _ hl => ?_)
    (fun l hl => ?_) hf hk hr hn hlog fun i htype hst => ?_
  · exact ⟨⟨(hrow _).gen ▸ hl.1, fun hd => hl.2 ((hrow _).dead hd)⟩, hq _⟩
  · rw [World.Born, (hrow _).gen]
    exact hl.imp id (And.imp id (hrow _).taken)
  · refine (h.settled i ((hrow i).type ▸ htype) fun hd => hst ((hrow i).dead hd)).keep (hrow i)
      htype hst he fun t st => ht i t st hst

/-- A section of one row and one thread that keeps the books. -/
theorem CbInv.keepRow (h : CbInv w) (i t : ℕ) (hi : (w.rows i).Keeps (w'.rows i))
    (hj : ∀ j, j ≠ i → w'.rows j = w.rows j) (he : w'.eventq = w.eventq)
    (ht : w'.thr t = w.thr t ∨ ∀ fence status, w.thr t ≠ .signalSynx fence status)
    (ht' : ∀ t', t' ≠ t → w'.thr t' = w.thr t')
    (hf : w'.final = w.final) (hk : w'.kids = w.kids)
    (hr : w'.regs = w.regs) (hn : w'.nextReg = w.nextReg) (hlog : w'.log = w.log) : CbInv w' := by
  refine h.keep (fun j => ?_) he (fun j t' st _ hts => .inl ?_) (fun _ _ => by rw [hf])
    (fun _ _ => by rw [hk]) hr hn hlog
  · by_cases hji : j = i
    · exact hji ▸ hi
    · rw [hj j hji]
      exact .refl _
  · by_cases hte : t' = t
    · subst hte
      rcases ht with ht | ht
      · rw [ht, hts]
      · exact absurd hts (ht _ st)
    · rw [ht' t' hte, hts]

/-- A free row is taken, and nothing is queued in it. -/
theorem CbInv.newRow (h : CbInv w) (hfree : w.Free i)
    (hg : (w'.rows i).gen = (w.rows i).gen) (hst : (w'.rows i).state = .active)
    (hsig : (w'.rows i).signaled = false) (hcb : (w'.rows i).callbackList = [])
    (hpl : (w'.rows i).userPayloadList = []) (hbit : (w'.rows i).bit = true)
    (hj : ∀ j, j ≠ i → w'.rows j = w.rows j) (he : w'.eventq = w.eventq)
    (ht : ∀ t fence status, w.thr t = .signalSynx fence status →
      w'.thr t = .signalSynx fence status)
    (hf : w'.final = w.final) (hk : w'.kids = w.kids)
    (hr : w'.regs = w.regs) (hn : w'.nextReg = w.nextReg) (hlog : w'.log = w.log) : CbInv w' := by
  obtain ⟨⟨-, -, hl⟩, hb⟩ := hfree
  have hq : ∀ kind, (w'.rows i).queue kind = [] := Row.queue_nil hcb hpl
  refine h.frame (fun j => ?_) (fun l hborn hl' => ?_) (fun l hborn => ?_) (fun _ _ => by rw [hf])
    (fun _ _ => by rw [hk]) hr hn hlog fun j htype hjs => ?_
  · by_cases hji : j = i
    · exact .inr (hji ▸ hq)
    · exact .inl ⟨by simp [World.self, hj j hji], by simp [hj j hji]⟩
  · -- no fence of the free row has been created
    have hli : l.syncId ≠ i := by
      intro hli
      obtain ⟨hgen, -⟩ := hl'
      simp [World.Born, hli, hb, hl] at hborn
      rw [hli] at hgen
      omega
    rw [World.Alive, hj _ hli] at hl'
    exact ⟨hl', by simp [hj _ hli]⟩
  · by_cases hli : l.syncId = i
    · rw [World.Born, hli] at hborn ⊢
      rw [hg]
      exact hborn.imp id (And.imp id fun _ => .inl hbit)
    · rwa [World.Born, hj _ hli]
  · by_cases hji : j = i
    · subst hji
      exact ⟨fun hs => by simp [hsig] at hs, fun ha => absurd hst ha⟩
    · rw [hj j hji] at htype hjs
      exact (h.settled j htype hjs).keep (hj j hji ▸ .refl _) (by rwa [hj j hji])
        (by rwa [hj j hji]) he fun t st hts => .inl (ht t _ st hts)

/-- A row is given back. -/
theorem CbInv.giveBack (h : CbInv w) (hi : w'.rows i = camSyncDeinitRow (w.rows i))
    (hj : ∀ j, j ≠ i → w'.rows j = w.rows j) (he : w'.eventq = w.eventq)
    (ht : ∀ t fence status, w.thr t = .signalSynx fence status →
      w'.thr t = .signalSynx fence status)
    (hf : w'.final = w.final) (hk : w'.kids = w.kids)
    (hr : w'.regs = w.regs) (hn : w'.nextReg = w.nextReg) (hlog : w'.log = w.log) : CbInv w' := by
  refine h.frame (fun j => ?_) (fun l _ hl => ?_) (fun l hborn => ?_) (fun _ _ => by rw [hf])
    (fun _ _ => by rw [hk]) hr hn hlog fun j htype hjs => ?_
  · by_cases hji : j = i
    · exact .inr (hji ▸ hi ▸ Row.queue_nil rfl rfl)
    · exact .inl ⟨by simp [World.self, hj j hji], by simp [hj j hji]⟩
  · have hli : l.syncId ≠ i := fun hli => hl.2 (by rw [hli, hi]; rfl)
    rw [World.Alive, hj _ hli] at hl
    exact ⟨hl, by simp [hj _ hli]⟩
  · by_cases hli : l.syncId = i
    · refine .inl ?_
      rw [World.Born, hli] at hborn
      rw [hli, hi]
      simp only [camSyncDeinitRow]
      omega
    · rwa [World.Born, hj _ hli]
  · have hji : j ≠ i := fun hji => hjs (by rw [hji, hi]; rfl)
    rw [hj j hji] at htype hjs
    exact (h.settled j htype hjs).keep (hj j hji ▸ .refl _) (by rwa [hj j hji])
      (by rwa [hj j hji]) he fun t st hts => .inl (ht t _ st hts)

/-! ## Dispatching -/

/-- The registrations of the dispatches of a row. -/
theorem mem_dispatches {eventq : Bool} {r : ℕ} :
    r ∈ (dispatches eventq row fence status).map Dispatch.reg ↔
      ∃ kind, RegKind.Enabled eventq kind ∧ r ∈ row.queue kind := by
  constructor
  · intro hr
    simp only [dispatches, List.map_append, List.mem_append, List.map_map] at hr
    rcases hr with hr | hr
    · exact ⟨.callback, by simp [RegKind.Enabled], by simpa [Row.queue, Function.comp_def] using hr⟩
    · split at hr
      · rename_i he
        exact ⟨.payload, by simp [RegKind.Enabled, he],
          by simpa [Row.queue, Function.comp_def] using hr⟩
      · simp at hr
  · rintro ⟨kind, hk, hr⟩
    cases kind with
    | callback =>
      simp only [dispatches, List.map_append, List.mem_append, List.map_map]
      exact .inl (by simpa [Row.queue, Function.comp_def] using hr)
    | payload =>
      simp only [dispatches, List.map_append, List.mem_append, List.map_map, if_pos (hk rfl)]
      exact .inr (by simpa [Row.queue, Function.comp_def] using hr)

theorem dispatched_queue {eventq : Bool} (hst : row.state ≠ .invalid) :
    (dispatched eventq row).queue kind =
      if kind = .payload ∧ eventq = false then row.queue kind else [] := by
  rw [dispatched, if_neg hst]
  cases kind <;> cases eventq <;> simp [Row.queue]

/-- The dispatch of a row whose fence has completed. -/
theorem CbInv.dispatch (h : CbInv w) (hst : (w.rows i).state ≠ .invalid)
    (hact : (w.rows i).type ≠ .group → (w.rows i).state ≠ .active)
    (hf : w.final (w.self i) = some status) (hk : ∀ k ∈ w.kids (w.self i), w.final k ≠ none) :
    CbInv (camSyncUtilDispatchSignaledCb w i status) := by
  have hrow := dispatch_row w i status
  have hj : ∀ j, j ≠ i → (camSyncUtilDispatchSignaledCb w i status).rows j = w.rows j := fun j =>
    dispatch_row_ne w i status
  have hself : ∀ j, (camSyncUtilDispatchSignaledCb w i status).self j = w.self j := fun j => by
    by_cases hji : j = i
    · simp [World.self, hji, hrow]
    · simp [World.self, hj j hji]
  have hlog := dispatch_log w i status
  rw [if_neg hst] at hlog
  have hlogged : (camSyncUtilDispatchSignaledCb w i status).logged = w.logged ++
      (dispatches w.eventq (w.rows i) (w.self i) status).map Dispatch.reg := by
    rw [World.logged, hlog, List.map_append, World.logged]
  have hq : ∀ kind, (dispatched w.eventq (w.rows i)).queue kind =
      if kind = .payload ∧ w.eventq = false then (w.rows i).queue kind else [] :=
    fun _ => dispatched_queue hst
  -- what is queued afterwards was queued before and is not dispatched now
  have hmem : ∀ kind j r, r ∈ ((camSyncUtilDispatchSignaledCb w i status).rows j).queue kind →
      r ∈ (w.rows j).queue kind ∧ (j = i → ¬ RegKind.Enabled w.eventq kind) := by
    intro kind j r hr
    by_cases hji : j = i
    · subst hji
      rw [hrow, hq kind] at hr
      split at hr
      · rename_i hp
        exact ⟨hr, fun _ he => by simp [he hp.1] at hp⟩
      · simp at hr
    · exact ⟨hj j hji ▸ hr, fun he => absurd he hji⟩
  constructor
  · intro r reg hr
    obtain ⟨hlt, hb⟩ := h.known r reg (by simpa using hr)
    refine ⟨by simpa using hlt, ?_⟩
    by_cases hji : reg.fence.syncId = i
    · rw [World.Born, hji] at hb ⊢
      simpa [hrow] using hb
    · rwa [World.Born, hj _ hji]
  · intro kind j r hr
    obtain ⟨hr, hne⟩ := hmem kind j r hr
    obtain ⟨hreg, hnl⟩ := h.queued kind j r hr
    refine ⟨by simpa [hself] using hreg, ?_⟩
    rw [hlogged, List.mem_append, mem_dispatches]
    rintro (hl | ⟨kind', he, hr'⟩)
    · exact hnl hl
    · have hreg' := (h.queued kind' i r hr').1
      rw [hreg] at hreg'
      obtain ⟨rfl, hji⟩ : kind = kind' ∧ j = i := by simpa using hreg'
      exact hne hji he
  · intro kind j
    by_cases hji : j = i
    · subst hji
      rw [hrow, hq kind]
      split
      · exact h.queueNodup kind j
      · exact List.nodup_nil
    · exact hj j hji ▸ h.queueNodup kind j
  · intro d hd
    rw [hlog, List.mem_append] at hd
    rcases hd with hd | hd
    · simpa using h.logFence d hd
    · obtain ⟨kind, -, hr⟩ := mem_dispatches.1 (List.mem_map_of_mem (f := Dispatch.reg) hd)
      exact ⟨_, by simpa using (h.queued kind i d.reg hr).1, (dispatches_fence hd).1.symm⟩
  · intro d hd
    rw [hlog, List.mem_append] at hd
    rcases hd with hd | hd
    · simpa using h.logFinal d hd
    · obtain ⟨hfence, hstatus⟩ := dispatches_fence hd
      simpa [hfence, hstatus] using ⟨hf, hk⟩
  · rw [hlogged]
    refine List.nodup_append.2 ⟨h.logNodup, ?_, ?_⟩
    · rw [dispatches, List.map_append, List.map_map]
      refine List.nodup_append.2 ⟨h.queueNodup .callback i, ?_, ?_⟩
      · split
        · simpa [Row.queue, Function.comp_def] using h.queueNodup .payload i
        · exact List.nodup_nil
      · -- a registration is of one kind
        intro r hr r' hr'
        split at hr'
        · have hc := (h.queued .callback i r (by simpa [Row.queue, Function.comp_def] using hr)).1
          have hp := (h.queued .payload i r' (by simpa [Row.queue, Function.comp_def] using hr')).1
          rintro rfl
          simp [hc] at hp
        · simp at hr'
    · intro r hr r' hr'
      obtain ⟨kind, -, hr'⟩ := mem_dispatches.1 hr'
      rintro rfl
      exact (h.queued kind i r hr').2 hr
  · intro r reg hr hdrop hal
    have hal' : w.Alive reg.fence := by
      by_cases hji : reg.fence.syncId = i
      · rw [World.Alive, hji] at hal ⊢
        simpa [hrow] using hal
      · rwa [World.Alive, hj _ hji] at hal
    rw [hlogged, List.mem_append, mem_dispatches]
    rcases h.waits r reg (by simpa using hr) hdrop hal' with hl | hrq
    · exact .inl (.inl hl)
    · by_cases hji : reg.fence.syncId = i
      · rw [hji] at hrq ⊢
        by_cases he : RegKind.Enabled w.eventq reg.kind
        · exact .inl (.inr ⟨reg.kind, he, hrq⟩)
        · rw [hrow, hq, if_pos (by simpa [RegKind.Enabled] using he)]
          exact .inr hrq
      · rw [hj _ hji]
        exact .inr hrq
  · intro j htype hjs
    by_cases hji : j = i
    · subst hji
      rw [hrow] at htype
      refine ⟨fun _ => ⟨by simpa [hrow] using hact (by simpa using htype), fun kind he => ?_⟩,
        fun _ => .inl (by simp [hrow, dispatched, hst])⟩
      rw [hrow, hq, if_neg]
      rintro ⟨hp, hn⟩
      simp [hn, RegKind.Enabled, hp] at he
    · rw [hj j hji] at htype hjs
      exact (h.settled j htype hjs).keep (hj j hji ▸ .refl _) (by rwa [hj j hji])
        (by rwa [hj j hji]) (by simp) fun t st hts => .inl (by simpa using hts)

/-- The end of the child's section of a signal. -/
theorem CbInv.finish (hi : Inv w) (hg : GroupInv kept w) (h : CbInv w)
    (ht : w.thr t = .signalSynx fence status)
    (hgen : (w.rows fence.syncId).gen = fence.gen ∨ (w.rows fence.syncId).state = .invalid) :
    CbInv (signalFinish w t fence status) := by
  have hd : CbInv (camSyncUtilDispatchSignaledCb w fence.syncId status) := by
    by_cases hst : (w.rows fence.syncId).state = .invalid
    · rwa [camSyncUtilDispatchSignaledCb, if_pos hst]
    have hgen := hgen.resolve_right hst
    have hself : w.self fence.syncId = fence := w.self_eq hgen.symm
    have hown : (w.thr t).owner = some fence := by rw [ht]; rfl
    have htype := hg.ownerSingle t fence hown hgen hst
    have hfin := hg.carried t fence status hown (by rw [ht]; rfl)
    have hkids : w.kids (w.self fence.syncId) = [] := by
      by_contra hne
      exact htype (hg.kidsGroup _ hne)
    refine h.dispatch hst (fun _ ha => ?_) (hself ▸ hfin) (by simp [hkids])
    rw [← hself, hi.noFinal _ ha] at hfin
    cases hfin
  refine hd.keep (fun j => ?_) (by simp) (fun j t' st hst hts => ?_) (fun _ _ => by simp)
    (fun _ _ => by simp) (by simp) (by simp) ?_
  · by_cases hj : j = fence.syncId
    · subst hj
      rw [signalFinish_row, dispatch_row]
      exact ⟨rfl, rfl, rfl, id, rfl, id, fun _ _ => ⟨rfl, rfl⟩⟩
    · rw [signalFinish_row_ne _ _ _ _ hj, dispatch_row_ne _ _ _ hj]
      exact .refl _
  · by_cases hte : t' = t
    · subst hte
      -- the thread that goes on has dispatched the row
      have hj : fence.syncId = j := by
        rw [dispatch_frame w fence.syncId status |>.1, ht] at hts
        simpa [Task.owner] using congrArg (fun task => task.owner.map Link.syncId) hts
      subst hj
      have hst' : (w.rows fence.syncId).state ≠ .invalid := by simpa [signalFinish_row] using hst
      exact .inr (by simp [signalFinish_row, dispatched, hst'])
    · refine .inl ?_
      rw [signalFinish_thr, Function.update_of_ne hte]
      simpa using hts
  · rw [signalFinish_log, dispatch_log]

/-- A parent as it is when it hears of the status, before it dispatches. -/
def heard (w : World) (fence : Link) (status : FenceState) (l : Link) : World :=
  let w := { w with
    waiting := Function.update w.waiting (w.self l.syncId)
      ((w.waiting (w.self l.syncId)).erase fence) }
  w.setRow l.syncId { w.rows l.syncId with
    remaining := dec32 (w.rows l.syncId).remaining
    state := parentState (w.rows l.syncId).state status }

theorem signalParent_eq (hst : (w.rows l.syncId).state ≠ .invalid) :
    signalParent w fence status l =
      if dec32 (w.rows l.syncId).remaining = 0 then
        camSyncUtilDispatchSignaledCb
          ((heard w fence status l).setFinal l.syncId (parentState (w.rows l.syncId).state status))
          l.syncId (parentState (w.rows l.syncId).state status)
      else heard w fence status l := by
  simp only [signalParent, camSyncUtilUpdateParentState_eq, if_neg hst]
  rfl

theorem parentState_ne_invalid {state : FenceState} (hs : state ≠ .invalid)
    (hsig : status.signaled = true) : parentState state status ≠ .invalid := by
  rw [parentState]
  split
  · exact hs
  · exact (FenceState.signaled_iff.1 hsig).1

/-- The visit of a parent. -/
theorem CbInv.parent {parents : List Link} (hi : Inv w) (hg : GroupInv kept w) (h : CbInv w)
    (ht : w.thr t = .signalParents fence status (l :: parents))
    (hgen : (w.rows l.syncId).gen = l.gen)
    (hi' : Inv ((signalParent w fence status l).setTask t (nextParents fence status parents)))
    (hg' : GroupInv kept
      ((signalParent w fence status l).setTask t (nextParents fence status parents))) :
    CbInv ((signalParent w fence status l).setTask t (nextParents fence status parents)) := by
  have hself : w.self l.syncId = l := w.self_eq hgen.symm
  have hwait : fence ∈ w.waiting l :=
    (hi.thrLink t fence status _ ht l List.mem_cons_self).2 hgen.symm
  have hgroup : (w.rows l.syncId).type = .group :=
    hg.kidsGroup _ (by rw [hself]; exact List.ne_nil_of_mem (hi.waitingKids l hwait))
  have hnot : ∀ f st, w.thr t ≠ .signalSynx f st := by simp [ht]
  by_cases hst : (w.rows l.syncId).state = .invalid
  · -- the group is being destroyed
    refine h.keepRow l.syncId t ?_ (fun j hj => ?_) (by simp) (.inr hnot)
      (fun t' hte => by simp [hte]) ?_ (by simp) (by simp) (by simp) ?_
    · simp only [World.setTask_frame, signalParent_row, visited]
      split <;> simp [dispatched, hst, parentState] <;>
        exact ⟨rfl, rfl, rfl, id, rfl, fun _ => by simp, fun hng => absurd hgroup hng⟩
    · simpa using signalParent_row_ne w fence status l hj
    · simp [signalParent_final, hst]
    · simp [signalParent_log, hst, parentState]
  have hsig : status.signaled = true := hi.carries t status (by rw [ht]; rfl)
  have hps := parentState_ne_invalid hst hsig
  have hnone : w.final l = none := by
    have := (hg.groupWaits l.syncId hgroup hst
      (.inr (by rw [hself]; exact List.ne_nil_of_mem hwait))).1
    rwa [hself] at this
  have hkeep : (w.rows l.syncId).Keeps ((heard w fence status l).rows l.syncId) := by
    simpa [heard] using ⟨rfl, rfl, rfl, id, rfl, fun hd => absurd hd hst,
      fun hng => absurd hgroup hng⟩
  rw [signalParent_eq hst] at hi' hg' ⊢
  by_cases hr : dec32 (w.rows l.syncId).remaining = 0
  · rw [if_pos hr] at hi' hg' ⊢
    rw [← dispatch_setTask] at hi' hg' ⊢
    set wp := ((heard w fence status l).setFinal l.syncId
      (parentState (w.rows l.syncId).state status)).setTask t (nextParents fence status parents)
      with hwp
    have hrow : wp.rows l.syncId = (heard w fence status l).rows l.syncId := rfl
    have hself' : wp.self l.syncId = l := by simp [hwp, heard, World.self, hgen]
    have hfin : wp.final l = some (parentState (w.rows l.syncId).state status) := by
      rw [← hself', hwp]
      simp [heard, World.self]
    have hfin' : ∀ m, m ≠ l → wp.final m = w.final m := fun m hm => by
      rw [← hself'] at hm
      exact Function.update_of_ne (by simpa [hwp, heard, World.self] using hm) ..
    have hwait' : wp.waiting l = [] := by
      have hcount := hi'.count l.syncId fun _ => by simpa [dispatch_row, hrow, heard] using hps
      have hs : (camSyncUtilDispatchSignaledCb wp l.syncId
          (parentState (w.rows l.syncId).state status)).self l.syncId = l := by
        simpa [World.self, dispatch_row] using hself'
      rw [hs] at hcount
      simpa [dispatch_row, hrow, heard, hr] using hcount.symm
    have hp : CbInv wp := by
      refine h.keep (fun j => ?_) rfl (fun j t' st _ hts => .inl ?_) (fun m hm => ?_)
        (fun _ _ => rfl)
        rfl rfl rfl
      · by_cases hj : j = l.syncId
        · subst hj
          exact hrow ▸ hkeep
        · simpa [hwp, heard, hj] using Row.Keeps.refl _
      · have hte : t' ≠ t := fun hte => hnot _ _ (hte ▸ hts)
        simpa [hwp, heard, hte] using hts
      · exact hfin' m fun hml => hm (hml ▸ hnone)
    refine hp.dispatch (by simpa [hrow, heard] using hps) (fun hng => ?_) (hself' ▸ hfin) ?_
    · exact absurd hgroup (by simpa [hrow, heard] using hng)
    · rw [hself']
      exact fun k hk => by simpa using hg'.reached l k (by simpa using hk) (by simp [hwait'])
  · rw [if_neg hr]
    refine h.keepRow l.syncId t hkeep (fun j hj => by simp [heard, hj]) rfl (.inr hnot)
      (fun t' hte => by simp [heard, hte]) rfl rfl rfl rfl rfl

/-! ## Registrations -/

theorem CbInv.fresh (h : CbInv w) : w.regs w.nextReg = none ∧ w.nextReg ∉ w.logged ∧
    ∀ kind i, w.nextReg ∉ (w.rows i).queue kind := by
  have hnone : w.regs w.nextReg = none := by
    cases hr : w.regs w.nextReg with
    | none => rfl
    | some reg => exact absurd (h.known _ reg hr).1 (Nat.lt_irrefl _)
  refine ⟨hnone, fun hl => ?_, fun kind i hq => ?_⟩
  · obtain ⟨d, hd, he⟩ := List.mem_map.1 hl
    obtain ⟨reg, hr, -⟩ := h.logFence d hd
    rw [he, hnone] at hr
    cases hr
  · have := (h.queued kind i _ hq).1
    rw [hnone] at this
    cases this

/-- What a registration keeps of the world. -/
structure Registers (w w' : World) (kind : RegKind) (i : ℕ) : Prop where
  regs : w'.regs = Function.update w.regs w.nextReg (some ⟨kind, w.self i, false⟩)
  nextReg : w'.nextReg = w.nextReg + 1
  final : w'.final = w.final
  kids : w'.kids = w.kids
  thr : w'.thr = w.thr
  eventq : w'.eventq = w.eventq
  row : (w'.rows i).gen = (w.rows i).gen ∧ (w'.rows i).bit = (w.rows i).bit ∧
    (w'.rows i).locked = (w.rows i).locked ∧ (w'.rows i).type = (w.rows i).type ∧
    (w'.rows i).state = (w.rows i).state ∧ (w'.rows i).signaled = (w.rows i).signaled
  rows : ∀ j, j ≠ i → w'.rows j = w.rows j

theorem Registers.self (hr : Registers w w' kind i) (j : ℕ) : w'.self j = w.self j := by
  by_cases hji : j = i
  · simp [World.self, hji, hr.row.1]
  · simp [World.self, hr.rows j hji]

theorem Registers.alive (hr : Registers w w' kind i) (l : Link) : w'.Alive l ↔ w.Alive l := by
  by_cases hji : l.syncId = i
  · simp [World.Alive, hji, hr.row.1, hr.row.2.2.2.2.1]
  · simp [World.Alive, hr.rows _ hji]

theorem Registers.born (hr : Registers w w' kind i) (l : Link) : w'.Born l ↔ w.Born l := by
  by_cases hji : l.syncId = i
  · simp [World.Born, hji, hr.row.1, hr.row.2.1, hr.row.2.2.1]
  · simp [World.Born, hr.rows _ hji]

theorem Registers.known (h : CbInv w) (hr : Registers w w' kind i) (hborn : w.Born (w.self i))
    {r : ℕ} {reg : Registration} (hreg : w'.regs r = some reg) :
    r < w'.nextReg ∧ w'.Born reg.fence := by
  rw [hr.regs] at hreg
  rw [hr.nextReg, hr.born]
  by_cases hrn : r = w.nextReg
  · obtain rfl : ⟨kind, w.self i, false⟩ = reg := by simpa [hrn] using hreg
    exact ⟨by omega, hborn⟩
  · obtain ⟨hlt, hb⟩ := h.known r reg (by simpa [hrn] using hreg)
    exact ⟨by omega, hb⟩

/-- An old registration is still there. -/
theorem Registers.old (h : CbInv w) (hr : Registers w w' kind i) {r : ℕ} {reg : Registration}
    (hreg : w.regs r = some reg) : w'.regs r = some reg := by
  have hne : r ≠ w.nextReg := fun he => by simp [he, h.fresh.1] at hreg
  rwa [hr.regs, Function.update_of_ne hne]

/-- A registration is queued in a row that has not dispatched. -/
theorem CbInv.enqueue (h : CbInv w) (kind : RegKind) (hr : Registers w w' kind i)
    (hborn : w.Born (w.self i))
    (hact : (w.rows i).type ≠ .group → (w.rows i).state = .active)
    (hq : (w'.rows i).queue kind = (w.rows i).queue kind ++ [w.nextReg])
    (hq' : ∀ kind', kind' ≠ kind → (w'.rows i).queue kind' = (w.rows i).queue kind')
    (hlog : w'.log = w.log) : CbInv w' := by
  have hlog' : w'.logged = w.logged := by rw [World.logged, hlog, World.logged]
  have hmem : ∀ kind' j r, r ∈ (w'.rows j).queue kind' ↔ r ∈ (w.rows j).queue kind' ∨
      kind' = kind ∧ j = i ∧ r = w.nextReg := by
    intro kind' j r
    by_cases hji : j = i
    · subst hji
      by_cases hk : kind' = kind
      · subst hk; simp [hq]
      · simp [hq' kind' hk, hk]
    · simp [hr.rows j hji, hji]
  constructor
  · exact fun r reg => hr.known h hborn
  · intro kind' j r hrq
    rw [hlog', hr.self]
    rcases (hmem kind' j r).1 hrq with hrq | ⟨rfl, rfl, rfl⟩
    · exact (h.queued kind' j r hrq).imp (hr.old h) id
    · exact ⟨by simp [hr.regs], h.fresh.2.1⟩
  · intro kind' j
    by_cases hji : j = i
    · subst hji
      by_cases hk : kind' = kind
      · subst hk
        rw [hq]
        refine List.nodup_append.2 ⟨h.queueNodup _ j, List.nodup_singleton _, ?_⟩
        rintro r hrq r' hr' rfl
        obtain rfl := List.mem_singleton.1 hr'
        exact h.fresh.2.2 _ j hrq
      · exact hq' kind' hk ▸ h.queueNodup kind' j
    · exact hr.rows j hji ▸ h.queueNodup kind' j
  · intro d hd
    obtain ⟨reg, hreg, he⟩ := h.logFence d (hlog ▸ hd)
    exact ⟨reg, hr.old h hreg, he⟩
  · exact hlog ▸ hr.final ▸ hr.kids ▸ h.logFinal
  · exact hlog' ▸ h.logNodup
  · intro r reg hreg hdrop hal
    rw [hlog', hmem]
    by_cases hrn : r = w.nextReg
    · obtain rfl : ⟨kind, w.self i, false⟩ = reg := by simpa [hrn, hr.regs] using hreg
      exact .inr (.inr ⟨rfl, rfl, hrn⟩)
    · have hreg' : w.regs r = some reg := by simpa [hrn, hr.regs] using hreg
      exact (h.waits r reg hreg' hdrop ((hr.alive _).1 hal)).imp id .inl
  · intro j htype hjs
    by_cases hji : j = i
    · subst hji
      have ha := hact (hr.row.2.2.2.1 ▸ htype)
      have hs := h.settled j (hr.row.2.2.2.1 ▸ htype) (by simp [ha])
      refine ⟨fun hd => ?_, fun hd => absurd (hr.row.2.2.2.2.1.trans ha) hd⟩
      exact absurd ha (hs.empty (hr.row.2.2.2.2.2 ▸ hd)).1
    · rw [hr.rows j hji] at htype hjs
      exact (h.settled j htype hjs).keep (hr.rows j hji ▸ .refl _) (by rwa [hr.rows j hji])
        (by rwa [hr.rows j hji]) hr.eventq fun t st hts => .inl (hr.thr ▸ hts)

/-- A registration on a fence that has completed is dispatched at once. -/
theorem CbInv.logNow (h : CbInv w) (kind : RegKind) (hr : Registers w w' kind i)
    (hborn : w.Born (w.self i))
    (hf : w.final (w.self i) = some status) (hk : ∀ k ∈ w.kids (w.self i), w.final k ≠ none)
    (hq : w'.rows i = w.rows i) (hlog : w'.log = w.log ++ [⟨w.nextReg, w.self i, status⟩]) :
    CbInv w' := by
  have hlog' : w'.logged = w.logged ++ [w.nextReg] := by
    rw [World.logged, hlog, List.map_append, World.logged]; rfl
  have hrows : w'.rows = w.rows := funext fun j => by
    by_cases hji : j = i
    · exact hji ▸ hq
    · exact hr.rows j hji
  constructor
  · exact fun r reg => hr.known h hborn
  · intro kind' j r hrq
    rw [hrows] at hrq
    obtain ⟨hreg, hnl⟩ := h.queued kind' j r hrq
    refine ⟨hr.self j ▸ hr.old h hreg, ?_⟩
    rw [hlog', List.mem_append, List.mem_singleton]
    rintro (hl | rfl)
    · exact hnl hl
    · exact h.fresh.2.2 kind' j hrq
  · exact hrows ▸ h.queueNodup
  · intro d hd
    rw [hlog, List.mem_append, List.mem_singleton] at hd
    rcases hd with hd | rfl
    · obtain ⟨reg, hreg, he⟩ := h.logFence d hd
      exact ⟨reg, hr.old h hreg, he⟩
    · exact ⟨_, by rw [hr.regs, Function.update_self], rfl⟩
  · intro d hd
    rw [hr.final, hr.kids]
    rw [hlog, List.mem_append, List.mem_singleton] at hd
    rcases hd with hd | rfl
    · exact h.logFinal d hd
    · exact ⟨hf, hk⟩
  · rw [hlog']
    refine List.nodup_append.2 ⟨h.logNodup, List.nodup_singleton _, ?_⟩
    rintro r hrq r' hr' rfl
    obtain rfl := List.mem_singleton.1 hr'
    exact h.fresh.2.1 hrq
  · intro r reg hreg hdrop hal
    rw [hlog', hrows, List.mem_append, List.mem_singleton]
    by_cases hrn : r = w.nextReg
    · exact .inl (.inr hrn)
    · have hreg' : w.regs r = some reg := by simpa [hrn, hr.regs] using hreg
      exact (h.waits r reg hreg' hdrop ((hr.alive _).1 hal)).imp .inl id
  · intro j htype hjs
    rw [hrows] at htype hjs
    exact (h.settled j htype hjs).keep (hrows ▸ .refl _) (by rwa [hrows]) (by rwa [hrows])
      hr.eventq fun t st hts => .inl (hr.thr ▸ hts)

/-- The registrations of a list are split into those that a deregistration finds
    and those it leaves. -/
structure Splits (queue left found : List ℕ) : Prop where
  all : ∀ r ∈ queue, r ∈ left ∨ r ∈ found
  sublist : left.Sublist queue
  subset : found ⊆ queue
  disjoint : ∀ r ∈ left, r ∉ found

theorem splits_filter {α : Type} (reg : α → ℕ) (p : α → Bool) {list : List α}
    (hnd : (list.map reg).Nodup) :
    Splits (list.map reg) ((list.filter fun a => !p a).map reg) ((list.filter p).map reg) := by
  constructor
  · intro r hr
    obtain ⟨a, ha, rfl⟩ := List.mem_map.1 hr
    cases hp : p a with
    | false => exact .inl (List.mem_map_of_mem (List.mem_filter.2 ⟨ha, by simp [hp]⟩))
    | true => exact .inr (List.mem_map_of_mem (List.mem_filter.2 ⟨ha, hp⟩))
  · exact List.filter_sublist.map _
  · exact (List.filter_sublist.map _).subset
  · intro r hr hr'
    obtain ⟨a, ha, rfl⟩ := List.mem_map.1 hr
    obtain ⟨b, hb, he⟩ := List.mem_map.1 hr'
    obtain ⟨ha, hpa⟩ := List.mem_filter.1 ha
    obtain ⟨hb, hpb⟩ := List.mem_filter.1 hb
    obtain rfl := List.inj_on_of_nodup_map hnd hb ha he
    simp [hpb] at hpa

/-- Registrations are taken out of a queue. -/
theorem CbInv.dropQueue {found : List ℕ} (h : CbInv w) (kind : RegKind)
    (hrow : row.gen = (w.rows i).gen ∧ row.bit = (w.rows i).bit ∧
      row.locked = (w.rows i).locked ∧ row.type = (w.rows i).type ∧
      row.state = (w.rows i).state ∧ row.signaled = (w.rows i).signaled)
    (hq : Splits ((w.rows i).queue kind) (row.queue kind) found)
    (hq' : ∀ kind', kind' ≠ kind → row.queue kind' = (w.rows i).queue kind') :
    CbInv ((w.setRow i row).drop found) := by
  obtain ⟨hg, hb, hl, htype, hst, hsig⟩ := hrow
  have hi : ((w.setRow i row).drop found).rows i = row := Function.update_self ..
  have hj : ∀ j, j ≠ i → ((w.setRow i row).drop found).rows j = w.rows j := fun j hji =>
    Function.update_of_ne hji ..
  have hself : ∀ j, ((w.setRow i row).drop found).self j = w.self j := fun j => by
    by_cases hji : j = i
    · simp [World.self, hji, hi, hg]
    · simp [World.self, hj j hji]
  have hregs : ∀ r reg, ((w.setRow i row).drop found).regs r = some reg ↔
      ∃ reg', w.regs r = some reg' ∧
      (if r ∈ found then { reg' with dropped := true } else reg') = reg := fun r reg => by
    simp [World.drop]
  have hold : ∀ r reg, w.regs r = some reg →
      ∃ reg', ((w.setRow i row).drop found).regs r = some reg' ∧
      reg'.fence = reg.fence := fun r reg hr => by
    refine ⟨_, (hregs r _).2 ⟨reg, hr, rfl⟩, ?_⟩
    split <;> rfl
  have hsub : ∀ kind' j, ((((w.setRow i row).drop found).rows j).queue kind').Sublist
      ((w.rows j).queue kind') := fun kind' j => by
    by_cases hji : j = i
    · subst hji
      rw [hi]
      by_cases hk : kind' = kind
      · exact hk ▸ hq.sublist
      · exact hq' kind' hk ▸ List.Sublist.refl _
    · exact hj j hji ▸ List.Sublist.refl _
  -- what is left in a queue is not found
  have hleft : ∀ kind' j, ∀ r ∈ (((w.setRow i row).drop found).rows j).queue kind', r ∉ found := by
    intro kind' j r hr hrf
    have hreg := (h.queued kind' j r ((hsub kind' j).subset hr)).1
    rw [(h.queued kind i r (hq.subset hrf)).1] at hreg
    obtain ⟨rfl, rfl⟩ : kind = kind' ∧ i = j := by simpa using hreg
    exact hq.disjoint r (hi ▸ hr) hrf
  constructor
  · intro r reg hr
    obtain ⟨reg', hr', he⟩ := (hregs r reg).1 hr
    obtain ⟨hlt, hborn⟩ := h.known r reg' hr'
    have hfence : reg.fence = reg'.fence := by rw [← he]; split <;> rfl
    refine ⟨hlt, hfence ▸ ?_⟩
    by_cases hji : reg'.fence.syncId = i
    · simpa [World.Born, hji, hi, hg, hb, hl] using hborn
    · rwa [World.Born, hj _ hji]
  · intro kind' j r hr
    obtain ⟨hreg, hnl⟩ := h.queued kind' j r ((hsub kind' j).subset hr)
    exact ⟨(hregs r _).2 ⟨_, hreg, by rw [if_neg (hleft kind' j r hr), hself]⟩, hnl⟩
  · exact fun kind' j => (hsub kind' j).nodup (h.queueNodup kind' j)
  · intro d hd
    obtain ⟨reg, hr, he⟩ := h.logFence d hd
    obtain ⟨reg', hr', he'⟩ := hold d.reg reg hr
    exact ⟨reg', hr', he'.trans he⟩
  · exact h.logFinal
  · exact h.logNodup
  · intro r reg hr hdrop hal
    obtain ⟨reg', hr', he⟩ := (hregs r reg).1 hr
    have hrf : r ∉ found := fun hrf => by
      rw [if_pos hrf] at he
      simp [← he] at hdrop
    obtain rfl : reg' = reg := by rwa [if_neg hrf] at he
    have hal' : w.Alive reg'.fence := by
      by_cases hji : reg'.fence.syncId = i
      · simpa [World.Alive, hji, hi, hg, hst] using hal
      · rwa [World.Alive, hj _ hji] at hal
    refine (h.waits r reg' hr' hdrop hal').imp id fun hrq => ?_
    by_cases hji : reg'.fence.syncId = i
    · rw [hji, hi]
      rw [hji] at hrq
      by_cases hk : reg'.kind = kind
      · rw [hk] at hrq ⊢
        exact (hq.all r hrq).resolve_right hrf
      · rwa [hq' _ hk]
    · rwa [hj _ hji]
  · intro j htype' hjs
    by_cases hji : j = i
    · subst hji
      rw [hi] at htype' hjs
      have hs := h.settled j (htype ▸ htype') (hst ▸ hjs)
      constructor
      · rw [hi, hst, hsig]
        refine fun hd => (hs.empty hd).imp id fun he kind' hen => ?_
        have := hsub kind' j
        rwa [he kind' hen, hi, List.sublist_nil] at this
      · rw [hi, hst, hsig, hself]
        exact hs.done
    · rw [hj j hji] at htype' hjs
      exact (h.settled j htype' hjs).keep (hj j hji ▸ .refl _) (by rwa [hj j hji])
        (by rwa [hj j hji]) rfl fun t st hts => .inl hts

/-! ## Every section -/

/-- A payload is not registered on a group that looks signaled while children of
    it remain. -/
def Op.SeesDone (w : World) : Op → Prop
  | .registerPayload i _ => (w.rows i).state.signaled = true → (w.rows i).remaining = 0
  | _ => True

/-- A fence that looks signaled and has nothing left has completed. -/
theorem GroupInv.completed (hi : Inv w) (hg : GroupInv kept w) (hl : (w.rows i).locked = false)
    (hs : (w.rows i).state.signaled = true) (hr : (w.rows i).remaining = 0) :
    w.final (w.self i) = some (w.rows i).state ∧ ∀ k ∈ w.kids (w.self i), w.final k ≠ none := by
  obtain ⟨hst, hact⟩ := FenceState.signaled_iff.1 hs
  have hwait : w.waiting (w.self i) = [] := by
    rw [← List.length_eq_zero_iff, ← hi.count i fun he => by simp [hl] at he, hr]
  refine ⟨?_, fun k hk => hg.reached _ k hk (by simp [hwait])⟩
  by_cases htype : (w.rows i).type = .group
  · exact (hg.groupDone i htype hst hl hwait).1
  · exact hg.single i htype hst hact

/-- A fence that is no group never has children left. -/
theorem GroupInv.single_remaining (hi : Inv w) (hg : GroupInv kept w)
    (hl : (w.rows i).locked = false) (htype : (w.rows i).type ≠ .group) :
    (w.rows i).remaining = 0 := by
  have hkids : w.kids (w.self i) = [] := by_contra fun hne => htype (hg.kidsGroup i hne)
  have hwait := hi.waitingKids (w.self i)
  rw [hkids, List.subset_nil] at hwait
  rw [hi.count i fun he => by simp [hl] at he, hwait]
  rfl

theorem CbInv.setRow (h : CbInv w) (hk : (w.rows i).Keeps row) : CbInv (w.setRow i row) :=
  h.keepRow i 0 (by simpa using hk) (fun j hj => by simp [hj]) rfl (.inl rfl) (fun _ _ => rfl) rfl
    rfl rfl rfl rfl

theorem CbInv.setTask (h : CbInv w) (ht : ∀ fence status, w.thr t ≠ .signalSynx fence status)
    (task : Task) : CbInv (w.setTask t task) :=
  h.keepRow 0 t (.refl _) (fun _ _ => rfl) rfl (.inr ht) (fun t' hte => by simp [hte]) rfl rfl rfl
    rfl rfl

/-- The child has its status. -/
theorem CbInv.mark (hi : Inv w) (h : CbInv w) (hst : (w.rows i).state = .active)
    (htype : (w.rows i).type ≠ .group) (ht : w.thr t = .idle) : CbInv (marked w t i status) := by
  have hrow : (marked w t i status).rows i =
      { w.rows i with state := status, refCnt := (w.rows i).refCnt - 1 } := by simp [marked]
  have hj : ∀ j, j ≠ i → (marked w t i status).rows j = w.rows j := fun j hj => by simp [marked, hj]
  have hself : ∀ j, (marked w t i status).self j = w.self j := fun j => by
    by_cases hji : j = i
    · simp [World.self, hji, hrow]
    · simp [World.self, hj j hji]
  have hq : ∀ j kind, ((marked w t i status).rows j).queue kind = (w.rows j).queue kind := by
    intro j kind
    by_cases hji : j = i
    · rw [hji, hrow]
      exact Row.queue_congr rfl rfl kind
    · rw [hj j hji]
  refine h.frame (fun j => .inl ⟨hself j, hq j⟩) (fun l _ hl => ⟨?_, hq _⟩) (fun l hl => ?_)
    (fun l hl => ?_) (fun _ _ => rfl) rfl rfl rfl fun j htype' hjs => ?_
  · by_cases hli : l.syncId = i
    · rw [World.Alive, hli, hrow] at hl
      exact ⟨hli ▸ hl.1, by simp [hli, hst]⟩
    · rwa [World.Alive, hj _ hli] at hl
  · by_cases hli : l.syncId = i
    · rw [World.Born, hli] at hl ⊢
      rwa [hrow]
    · rwa [World.Born, hj _ hli]
  · have hli : l ≠ w.self i := fun hli => hl (hli ▸ hi.noFinal i hst)
    exact Function.update_of_ne (by simpa [World.self] using hli) ..
  · by_cases hji : j = i
    · subst hji
      have hs := h.settled j htype (by simp [hst])
      refine ⟨fun hd => ?_, fun _ => .inr ⟨t, status, by simp [marked, World.self]⟩⟩
      exact absurd hst (hs.empty (by simpa [hrow] using hd)).1
    · rw [hj j hji] at htype' hjs
      refine (h.settled j htype' hjs).keep (hj j hji ▸ .refl _) (by rwa [hj j hji])
        (by rwa [hj j hji]) rfl fun t' st hts => .inl ?_
      have hte : t' ≠ t := fun hte => by simp [hte, ht] at hts
      simpa [marked, hte] using hts

section
variable {objs todo : List ℕ} (hi : Inv w) (hg : GroupInv kept w) (h : CbInv w)
include hi hg h

theorem CbInv.mergeChild (ht : w.thr t = .mergeChildren idx objs (c :: todo)) (ho : w.Open c)
    (alloc : Bool × Bool) : CbInv (mergeChild w t idx objs todo c alloc) := by
  obtain ⟨hlock, hbit, hgroup, hst, -⟩ := hi.merging t idx objs _ ht
  have hne : c ≠ idx := fun he => by simp [← he, ho.2.2] at hlock
  have he : (CamSync.mergeChild w t idx objs todo c alloc).eventq = w.eventq := by
    rw [CamSync.mergeChild]
    simp only []
    split_ifs <;> rfl
  have hnone : w.final (w.self idx) = none := (hg.groupWaits idx hgroup hst (.inl hlock)).1
  have hthr : ∀ {w' : World}, (∀ t', t' ≠ t → w'.thr t' = w.thr t') → ∀ j t' st,
      (w'.rows j).state ≠ .invalid → w.thr t' = .signalSynx (w.self j) st →
      w'.thr t' = .signalSynx (w.self j) st ∨ (w'.rows j).signaled = true := by
    intro w' hw' j t' st _ hts
    have hte : t' ≠ t := fun hte => by simp [hte, ht] at hts
    exact .inl (hw' t' hte ▸ hts)
  have hkids : ∀ l, w.final l ≠ none → l ≠ w.self idx := fun l hl hli => hl (hli ▸ hnone)
  rcases mergeChild_cases w t hne objs todo alloc with hm | hm | hm
  · obtain ⟨rem, ch, hrow⟩ := hm.row
    refine h.keep (fun j => ?_) he (hthr hm.thr_ne) (fun l _ => hm.final l) (fun l _ => hm.kids l)
      hm.regs hm.nextReg hm.log
    by_cases hji : j = idx
    · subst hji
      rw [hrow]
      exact ⟨rfl, rfl, rfl, id, rfl, fun _ => rfl, fun hng => absurd hgroup hng⟩
    · rw [hm.rows j hji]
      exact .refl _
  · refine h.keep (fun j => ?_) he (hthr hm.thr_ne) (fun l _ => hm.final l)
      (fun l hl => hm.kids l (hkids l hl)) hm.regs hm.nextReg hm.log
    by_cases hji : j = idx
    · subst hji
      rw [hm.row]
      exact ⟨rfl, rfl, rfl, id, rfl, fun hd => absurd hd hst, fun hng => absurd hgroup hng⟩
    · rw [hm.rows j hji]
      exact .refl _
  · obtain ⟨ch, hrow⟩ := hm.row
    refine h.keep (fun j => ?_) he (hthr hm.thr_ne) (fun l _ => hm.final l)
      (fun l hl => hm.kids l (hkids l hl)) hm.regs hm.nextReg hm.log
    by_cases hji : j = idx
    · subst hji
      rw [hrow]
      exact ⟨rfl, rfl, rfl, id, rfl, id, fun _ _ => ⟨rfl, rfl⟩⟩
    · by_cases hjc : j = c
      · subst hjc
        rw [hm.childRow]
        exact ⟨rfl, rfl, rfl, id, rfl, id, fun _ _ => ⟨rfl, rfl⟩⟩
      · rw [hm.rows j hji hjc]
        exact .refl _

theorem CbInv.mergeEnd (ht : w.thr t = .mergeChildren idx objs []) : CbInv (mergeEnd w t idx) := by
  obtain ⟨hlock, hbit, hgroup, hst, -⟩ := hi.merging t idx objs _ ht
  have hm := mergeEnds w t idx
  have he : (CamSync.mergeEnd w t idx).eventq = w.eventq := by
    rw [CamSync.mergeEnd]
    simp only []
    split_ifs <;> rfl
  have hnone : w.final (w.self idx) = none := (hg.groupWaits idx hgroup hst (.inl hlock)).1
  refine h.keep (fun j => ?_) he (fun j t' st _ hts => .inl ?_) (fun l hl => ?_)
    (fun l _ => hm.kids l) hm.regs hm.nextReg hm.log
  · by_cases hji : j = idx
    · subst hji
      rw [hm.row]
      exact ⟨rfl, rfl, rfl, fun _ => .inl hbit, rfl, fun hd => absurd hd hst,
        fun hng => absurd hgroup hng⟩
    · rw [hm.rows j hji]
      exact .refl _
  · have hte : t' ≠ t := fun hte => by simp [hte, ht] at hts
    rw [hm.thr_ne t' hte, hts]
  · exact hm.final l fun hli => hl (hli ▸ hnone)

end

theorem CbInv.exec (hi : Inv w) (hg : GroupInv kept w) (h : CbInv w) (op : Op) (ha : op.Allowed w)
    (hc : op.Current w) (hd : kept → op.KeepsChildren w) (hsd : op.SeesDone w) :
    CbInv (op.exec w) := by
  have hi' := hi.exec op ha hc
  have hg' := hg.exec hi op ha hc hd
  cases op with
  | create i synx =>
    exact h.newRow ha (by simp [Op.exec, camSyncInitRow]) (by simp [Op.exec, camSyncInitRow])
      (by simp [Op.exec, camSyncInitRow]) (by simp [Op.exec, camSyncInitRow])
      (by simp [Op.exec, camSyncInitRow]) (by simp [Op.exec, camSyncInitRow])
      (fun j hj => by simp [Op.exec, hj]) rfl (fun _ _ _ hts => hts) rfl rfl rfl rfl rfl
  | mergeStart t objs => exact h.setTask (by simp [ha.1]) _
  | mergeCheck t =>
    obtain ⟨objs, c, todo, ht, ho⟩ := ha
    simp only [Op.exec, ht]
    split_ifs <;> exact h.setTask (by simp [ht]) _
  | mergeInit t i =>
    obtain ⟨⟨objs, ht⟩, hf⟩ := ha
    simp only [Op.exec, ht]
    refine h.newRow hf (by simp [camSyncInitRow]) (by simp [camSyncInitRow])
      (by simp [camSyncInitRow]) (by simp [camSyncInitRow]) (by simp [camSyncInitRow])
      (by simp [camSyncInitRow]) (fun j hj => by simp [hj]) rfl (fun t' f st hts => ?_) rfl rfl rfl
      rfl rfl
    have hte : t' ≠ t := fun hte => by simp [hte, ht] at hts
    simpa [hte] using hts
  | mergeChild t alloc =>
    obtain ⟨idx, objs, c, todo, ht, ho⟩ := ha
    simp only [Op.exec, ht]
    exact h.mergeChild hi hg ht ho alloc
  | mergeEnd t =>
    obtain ⟨idx, objs, ht⟩ := ha
    simp only [Op.exec, ht]
    exact h.mergeEnd hi hg ht
  | mergeUndo t =>
    obtain ⟨idx, c, todo, ht, -⟩ := ha
    simp only [Op.exec, ht]
    refine (h.setRow ?_).setTask (by simp [ht]) _
    exact ⟨rfl, rfl, rfl, id, rfl, id, fun _ _ => ⟨rfl, rfl⟩⟩
  | mergeFail t =>
    obtain ⟨idx, ht⟩ := ha
    obtain ⟨hlock, hst⟩ := hi.undoing t idx _ ht
    simp only [Op.exec, ht]
    refine (h.setRow ?_).setTask (by simp [ht]) _
    exact ⟨rfl, rfl, rfl, fun _ => .inr hlock, rfl, id, fun _ _ => ⟨rfl, rfl⟩⟩
  | signal t i status =>
    simp only [Op.exec] at hi' hg' ⊢
    rcases camSyncSignal_cases w t i status with he | he | ⟨hst, htype, hsig, he⟩
    · rwa [he]
    · rw [he]
      refine h.setRow ?_
      exact ⟨rfl, rfl, rfl, id, rfl, id, fun _ _ => ⟨rfl, rfl⟩⟩
    have hm : CbInv (marked w t i status) := h.mark hi hst htype ha.1
    rcases he with he | he
    · rwa [he]
    · rw [he]
      refine hm.finish (hi.exec_mark ha.2 hst hsig htype ha.1)
        (hg.mark hi ha.2 hst hsig htype ha.1) (by simp [marked]) (.inl (by simp [marked]))
  | signalResume t =>
    obtain ⟨fence, status, ht, ho⟩ := ha
    simp only [Op.exec, ht]
    exact h.finish hi hg ht (by simpa [Op.Current, ht] using hc)
  | signalParent t =>
    obtain ⟨fence, status, l, parents, ht, ho⟩ := ha
    simp only [Op.exec, ht] at hi' hg' ⊢
    exact h.parent hi hg ht (by simpa [Op.Current, ht] using hc) hi' hg'
  | destroy t i =>
    simp only [Op.exec]
    split_ifs
    · exact h
    · refine (h.setRow ?_).setTask (by simp [ha.1]) _
      exact ⟨rfl, rfl, rfl, id, rfl, fun _ => rfl, fun _ hd => absurd rfl hd⟩
  | destroyChild t =>
    obtain ⟨i, c, children, parents, ht, ho⟩ := ha
    simp only [Op.exec, ht]
    split_ifs
    · exact h.setTask (by simp [ht]) _
    · refine (h.setRow ?_).setTask (by simp [ht]) _
      exact ⟨rfl, rfl, rfl, id, rfl, id, fun _ _ => ⟨rfl, rfl⟩⟩
  | destroyParent t =>
    obtain ⟨i, p, parents, ht, ho⟩ := ha
    simp only [Op.exec, ht]
    split_ifs
    · exact h.setTask (by simp [ht]) _
    · refine (h.setRow ?_).setTask (by simp [ht]) _
      exact ⟨rfl, rfl, rfl, id, rfl, id, fun _ _ => ⟨rfl, rfl⟩⟩
  | destroyEnd t =>
    obtain ⟨i, ht, ho⟩ := ha
    simp only [Op.exec, ht]
    refine h.giveBack (i := i) (by simp) (fun j hj => by simp [hj]) rfl (fun t' f st hts => ?_) rfl
      rfl rfl rfl rfl
    have hte : t' ≠ t := fun hte => by simp [hte, ht] at hts
    simpa [hte] using hts
  | getRef i =>
    simp only [Op.exec]
    split_ifs
    · refine h.setRow ?_
      exact ⟨rfl, rfl, rfl, id, rfl, id, fun _ _ => ⟨rfl, rfl⟩⟩
    · exact h
  | putRef i =>
    refine h.setRow ?_
    exact ⟨rfl, rfl, rfl, id, rfl, id, fun _ _ => ⟨rfl, rfl⟩⟩
  | registerCallback i func data =>
    have hl : (w.rows i).locked = false := ha.2.2
    simp only [Op.exec, camSyncRegisterCallback]
    split_ifs with hst hdone
    · exact h
    · obtain ⟨hf, hk⟩ := hg.completed hi hl hdone.1 hdone.2
      refine h.logNow .callback ⟨rfl, rfl, rfl, rfl, rfl, rfl, ?_, fun _ _ => rfl⟩
        (.inr ⟨rfl, hi.live i hst⟩) hf hk rfl rfl
      exact ⟨rfl, rfl, rfl, rfl, rfl, rfl⟩
    · refine h.enqueue .callback (i := i) ⟨rfl, rfl, rfl, rfl, rfl, rfl, ?_, ?_⟩
        (.inr ⟨rfl, hi.live i hst⟩) (fun htype => ?_) ?_ (fun kind' hk => ?_) rfl
      · simp [World.addReg]
      · exact fun j hj => by simp [World.addReg, hj]
      · by_contra hact
        exact hdone ⟨FenceState.signaled_iff.2 ⟨hst, hact⟩, hg.single_remaining hi hl htype⟩
      · simp [Row.queue]
      · cases kind' with
        | callback => exact absurd rfl hk
        | payload => simp [Row.queue, World.addReg]
  | deregisterCallback i func data =>
    simp only [Op.exec, camSyncDeregisterCallback]
    split_ifs
    · exact h
    · refine h.dropQueue .callback ⟨rfl, rfl, rfl, rfl, rfl, rfl⟩
        (splits_filter _ _ (h.queueNodup .callback i)) fun kind' hk => ?_
      cases kind' with
      | callback => exact absurd rfl hk
      | payload => rfl
  | registerPayload i words =>
    have hl : (w.rows i).locked = false := ha.2.2
    simp only [Op.exec, camSyncHandleRegisterUserPayload]
    split_ifs with hst hsig hdup
    · exact h
    · obtain ⟨hf, hk⟩ := hg.completed hi hl hsig (hsd hsig)
      refine h.logNow .payload ⟨rfl, rfl, rfl, rfl, rfl, rfl, ?_, fun _ _ => rfl⟩
        (.inr ⟨rfl, hi.live i hst⟩) hf hk rfl rfl
      exact ⟨rfl, rfl, rfl, rfl, rfl, rfl⟩
    · exact h
    · refine h.enqueue .payload (i := i) ⟨rfl, rfl, rfl, rfl, rfl, rfl, ?_, ?_⟩
        (.inr ⟨rfl, hi.live i hst⟩) (fun htype => ?_) ?_ (fun kind' hk => ?_) rfl
      · simp [World.addReg]
      · exact fun j hj => by simp [World.addReg, hj]
      · by_contra hact
        exact hsig (FenceState.signaled_iff.2 ⟨hst, hact⟩)
      · simp [Row.queue]
      · cases kind' with
        | callback => simp [Row.queue, World.addReg]
        | payload => exact absurd rfl hk
  | deregisterPayload i words =>
    simp only [Op.exec, camSyncHandleDeregisterUserPayload]
    split_ifs
    · exact h
    · refine h.dropQueue .payload ⟨rfl, rfl, rfl, rfl, rfl, rfl⟩
        (splits_filter _ _ (h.queueNodup .payload i)) fun kind' hk => ?_
      cases kind' with
      | callback => rfl
      | payload => exact absurd rfl hk

/-- The condition on every step of a run. -/
def Op.Prompt (w : World) (op : Op) : Prop := op.Current w ∧ op.SeesDone w

theorem cbInv_reachable {eventq : Bool} (h : ReachableUnder (fun w op => op.Prompt w) eventq w) :
    CbInv w := by
  induction h with
  | init => exact cbInv_init eventq
  | step h op ha hc ih =>
    exact ih.exec (inv_reachable (fun _ _ hc => hc.1) h)
      (groupInv_reachable (fun _ _ hc => hc.1) (fun hf : False => hf.elim) h) op ha hc.1
      (fun hf => hf.elim) hc.2

/-! ## What becomes of a registration -/

/-- Nothing is taken back from the log. -/
theorem Op.log_grows (w : World) (op : Op) : w.log <+: (op.exec w).log := by
  have hrefl := List.prefix_refl w.log
  have hfinish : ∀ w' t (fence : Link) status, w'.log = w.log →
      w.log <+: (signalFinish w' t fence status).log := by
    intro w' t fence status he
    rw [signalFinish_log, he]
    split
    · exact hrefl
    · exact List.prefix_append ..
  cases op with
  | mergeChild t alloc =>
    simp only [Op.exec]
    split
    · rw [CamSync.mergeChild]
      simp only []
      split_ifs <;> exact hrefl
    · exact hrefl
  | mergeEnd t =>
    simp only [Op.exec]
    split
    · rw [CamSync.mergeEnd]
      simp only []
      split_ifs <;> exact hrefl
    · exact hrefl
  | signal t i status =>
    have hlog : ∀ w', camSyncSignal w t i status = w' → w.log <+: w'.log →
        w.log <+: (Op.exec w (.signal t i status)).log := by
      rintro w' rfl h
      exact h
    rcases camSyncSignal_cases w t i status with he | he | ⟨-, -, -, he | he⟩
    · exact hlog _ he hrefl
    · exact hlog _ he hrefl
    · exact hlog _ he hrefl
    · exact hlog _ he (hfinish _ _ _ _ rfl)
  | signalResume t =>
    simp only [Op.exec]
    split
    · exact hfinish _ _ _ _ rfl
    · exact hrefl
  | signalParent t =>
    simp only [Op.exec]
    split
    · simp only [World.setTask_frame, signalParent_log]
      split
      · exact List.prefix_append ..
      · exact hrefl
    · exact hrefl
  | registerCallback i func data =>
    simp only [Op.exec, camSyncRegisterCallback]
    split_ifs
    · exact hrefl
    · exact List.prefix_append ..
    · exact hrefl
  | registerPayload i words =>
    simp only [Op.exec, camSyncHandleRegisterUserPayload]
    split_ifs
    · exact hrefl
    · exact List.prefix_append ..
    · exact hrefl
    · exact hrefl
  | create _ _ | mergeStart _ _ | mergeCheck _ | mergeInit _ _ | mergeUndo _ | mergeFail _
  | destroy _ _ | destroyChild _ | destroyParent _ | destroyEnd _ | getRef _ | putRef _
  | deregisterCallback _ _ _ | deregisterPayload _ _ =>
    simp only [Op.exec]
    repeat' split
    all_goals exact hrefl

theorem execAll_log_grows (ops : List Op) : w.log <+: (execAll w ops).log := by
  induction ops generalizing w with
  | nil => exact List.prefix_refl _
  | cons op ops ih => exact (op.log_grows w).trans ih

/-- The registration `r` is dispatched once its fence has completed, with the
    final state of the fence, never before, and never again: `C` is the condition
    on the runs that go on from here. -/
structure Delivered (C : World → Op → Prop) (w : World) (r : ℕ) (reg : Registration) : Prop where
  once : w.logged.count r ≤ 1
  atEnd : ∀ d ∈ w.log, d.reg = r → d.fence = reg.fence ∧ w.final reg.fence = some d.status ∧
    ∀ k ∈ w.kids reg.fence, w.final k ≠ none
  completed : reg.dropped = false → w.Alive reg.fence → RegKind.Enabled w.eventq reg.kind →
    (w.rows reg.fence.syncId).signaled = true → w.logged.count r = 1
  completes : w.Alive reg.fence → w.final reg.fence ≠ none →
    (w.rows reg.fence.syncId).signaled = true ∨ ∃ t status, w.thr t = .signalSynx reg.fence status
  stays : ∀ ops, AllAllowed C w ops → w.logged.count r = 1 → (execAll w ops).logged.count r = 1

/-- **What becomes of a registration**, in every run whose signals meet the fences
    they mean and that registers no payload on a group that only looks signaled. -/
theorem dispatched_once {eventq : Bool} {r : ℕ} {reg : Registration}
    (hw : ReachableUnder (fun w op => op.Prompt w) eventq w) (hr : w.regs r = some reg) :
    Delivered (fun w op => op.Prompt w) w r reg := by
  have hi := inv_reachable (fun _ _ hc => hc.1) hw
  have hg : GroupInv False w := groupInv_reachable (fun _ _ hc => hc.1) (fun hf => hf.elim) hw
  have h := cbInv_reachable hw
  have hself : w.Alive reg.fence → w.self reg.fence.syncId = reg.fence := fun hal =>
    w.self_eq hal.1.symm
  refine ⟨List.nodup_iff_count_le_one.1 h.logNodup r, ?_, ?_, ?_, ?_⟩
  · intro d hd he
    obtain ⟨reg', hr', hf⟩ := h.logFence d hd
    obtain rfl : reg' = reg := by rw [he, hr] at hr'; exact (Option.some.inj hr').symm
    exact ⟨hf.symm, hf ▸ h.logFinal d hd⟩
  · intro hdrop hal hen hs
    have hq : (w.rows reg.fence.syncId).queue reg.kind = [] := by
      by_cases htype : (w.rows reg.fence.syncId).type = .group
      · have hwaits := hg.groupWaits _ htype hal.2
        have hdone := hg.groupDone _ htype hal.2
          (Bool.eq_false_iff.2 fun hl => by simpa [hs] using (hwaits (.inl hl)).2)
          (by_contra fun hne => by simpa [hs] using (hwaits (.inr hne)).2)
        cases hk : reg.kind with
        | callback => simp [Row.queue, hdone.2.2.2.1]
        | payload => simp [Row.queue, hdone.2.2.2.2 (hen hk)]
      · exact ((h.settled _ htype hal.2).empty hs).2 _ hen
    refine List.count_eq_one_of_mem h.logNodup ((h.waits r reg hr hdrop hal).resolve_right ?_)
    simp [hq]
  · intro hal hf
    by_cases htype : (w.rows reg.fence.syncId).type = .group
    · have hwaits := hg.groupWaits _ htype hal.2
      rw [hself hal] at hwaits
      refine .inl (hg.groupDone _ htype hal.2 ?_ ?_).2.1
      · exact Bool.eq_false_iff.2 fun hl => hf (hwaits (.inl hl)).1
      · rw [hself hal]
        exact by_contra fun hne => hf (hwaits (.inr hne)).1
    · rw [← hself hal] at hf ⊢
      exact (h.settled _ htype hal.2).done fun ha => hf (hi.noFinal _ ha)
  · intro ops hops hone
    have hnd := (cbInv_reachable (hw.execAll hops)).logNodup
    refine List.count_eq_one_of_mem hnd ?_
    have hmem : r ∈ w.logged := List.count_pos_iff.1 (by omega)
    exact ((execAll_log_grows ops).map Dispatch.reg).subset hmem

instance (w : World) (op : Op) : Decidable (op.SeesDone w) :=
  match op with
  | .registerPayload i _ => inferInstanceAs (Decidable
      ((w.rows i).state.signaled = true → (w.rows i).remaining = 0))
  | .create .. | .mergeStart .. | .mergeCheck _ | .mergeInit .. | .mergeChild .. | .mergeEnd _
  | .mergeUndo _ | .mergeFail _ | .signal .. | .signalResume _ | .signalParent _ | .destroy ..
  | .destroyChild _ | .destroyParent _ | .destroyEnd _ | .getRef _ | .putRef _
  | .registerCallback .. | .deregisterCallback .. | .deregisterPayload .. => isTrue trivial

instance (w : World) (op : Op) : Decidable (op.Prompt w) := inferInstanceAs (Decidable (_ ∧ _))

/-- A payload on the group 3 before its first child is signaled, and a callback
    between its children. -/
def callbackOps : List Op :=
  mergeOps ++ [.registerPayload 3 (7, 7), .signal 1 1 .signaledSuccess, .signalParent 1,
    .registerCallback 3 5 5, .signal 1 2 .signaledSuccess, .signalParent 1]

theorem dispatched_once_group : Delivered (fun w op => op.Prompt w)
    (execAll (World.init true) callbackOps) 1 ⟨.callback, ⟨3, 0⟩, false⟩ := by
  have hops : AllAllowed (fun w op => op.Prompt w) (World.init true) callbackOps := by
    simp only [callbackOps, mergeOps, List.cons_append, List.nil_append, AllAllowed, and_true]
    decide
  exact dispatched_once (ReachableUnder.execAll .init hops) (by decide)

/-! ## A payload on a group that looks signaled -/

/-- A payload on the group 3 after the first of its two children. -/
def earlyOps : List Op :=
  mergeOps ++ [.signal 1 1 .signaledSuccess, .signalParent 1, .registerPayload 3 (7, 7)]

/-- **An early payload**: the event is sent while fence 2 is active. -/
theorem early_payload : ¬ ∀ eventq w, ReachableUnder (fun _ _ => True) eventq w →
    ∀ r reg, w.regs r = some reg → Delivered (fun _ _ => True) w r reg := by
  intro h
  have hops : AllAllowed (fun _ _ => True) (World.init true) earlyOps := by
    simp only [earlyOps, mergeOps, List.cons_append, List.nil_append, AllAllowed, and_true]
    decide
  have hd := h true _ (ReachableUnder.execAll .init hops) 0 ⟨.payload, ⟨3, 0⟩, false⟩ (by decide)
  exact absurd (hd.atEnd ⟨0, ⟨3, 0⟩, .signaledSuccess⟩ (by decide) rfl).2.1 (by decide)

end Sm8850.CamSync
