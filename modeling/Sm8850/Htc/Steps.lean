/-
  What a step of an endpoint does.

  * `Turn`, `Moves`: a turn of the drain loop, and the steps, with what each of them needs and
    changes.
  * `drainLoop_turn`, `moves_of_step`: the code does nothing else.
  * `found_htcLookupTxPacket`: the search for a completed packet.
  * `Threads.moves`: at most one thread drains the endpoint.
-/
import Sm8850.Htc.Passes

namespace Sm8850.Htc

variable {ep : Endpoint} {env : Env} {s s' : State} {a : Action}

namespace State

/-- The send queue of the draining thread. -/
def sendQueue (s : State) : List Packet :=
  match s.drain with
  | none => []
  | some d => d.sendQueue

/-- The packets that the draining thread has yet to send. -/
def inflight (s : State) : List Packet :=
  match s.drain with
  | none => []
  | some { sendQueue, phase := .posted p, .. } => p :: sendQueue
  | some d => d.sendQueue

end State

/-! ## A turn of the loop -/

/-- What a turn of the loop makes of the endpoint. -/
inductive Turn (ep : Endpoint) (env : Env) (reported : Bool) (s : State) : State → Prop
  | stop (h : s.txQueue = [] ∨ ep.txCreditFlowEnabled = false) :
      Turn ep env reported s (s.finish .drained)
  | empty {g : Pass} (hfrom : g.From ep env s.txCredits s.votes s.txQueue) (hnil : g.queue = []) :
      Turn ep env reported s (State.finish
        { s with txQueue := g.txQueue, txCredits := g.txCredits, votes := g.votes } .drained)
  | got {g : Pass} (hfrom : g.From ep env s.txCredits s.votes s.txQueue) (hne : g.queue ≠ []) :
      Turn ep env reported s
        { s with
          txQueue := g.txQueue
          txCredits := g.txCredits
          votes := g.votes
          drain := some ⟨g.queue, .issue, g.doPmGet, reported⟩ }

theorem drainLoop_turn {reported : Bool} {s : State} :
    Turn ep env reported s (drainLoop ep env reported s) := by
  unfold drainLoop
  split
  · exact .stop (.inl ‹_›)
  split
  · rename_i hasync
    exact .stop (.inr hasync.2.1)
  dsimp only
  split
  · exact .empty pass_from ‹_›
  · exact .got pass_from ‹_›

/-! ## Steps -/

/-- The steps of an endpoint. -/
inductive Moves (ep : Endpoint) (s : State) : Action → State → Prop
  | handOver {q : List Packet} {depth depth' : ℕ} {keep : Packet → Bool}
      (hfresh : (s.hist.handed ++ q.map Packet.id).Nodup) :
      Moves ep s (.handOver q depth depth' keep) (handOver ep depth depth' keep q s)
  | trySend : Moves ep s .trySend { s with callers := s.callers ++ [[]] }
  | setNodropPkt {isNodropPkt : Bool} :
      Moves ep s (.setNodropPkt isNodropPkt) { s with isNodropPkt }
  | enter {i : ℕ} {env : Env} {q : List Packet} (hcaller : s.callers[i]? = some q) :
      Moves ep s (.enter i env) (enter ep env q { s with callers := s.callers.eraseIdx i })
  | noHeader {p : Packet} {q : List Packet} {v r mapped : Bool}
      (hd : s.drain = some ⟨p :: q, .issue, v, r⟩) (hflow : ep.txCreditFlowEnabled = true) :
      Moves ep s (.take false mapped)
        { s with txCredits := s.txCredits + p.creditsUsed, drain := some ⟨q, .reclaim q, v, r⟩ }
  | notMapped {p : Packet} {q : List Packet} {v r : Bool}
      (hd : s.drain = some ⟨p :: q, .issue, v, r⟩) (hflow : ep.txCreditFlowEnabled = true) :
      Moves ep s (.take true false)
        { s with drain := some ⟨p :: q, .reclaim (p :: q), v, r⟩ }
  | posted {p : Packet} {q : List Packet} {v r header mapped : Bool}
      (hd : s.drain = some ⟨p :: q, .issue, v, r⟩) :
      Moves ep s (.take header mapped)
        { s with txLookupQueue := s.txLookupQueue ++ [p], drain := some ⟨q, .posted p, v, r⟩ }
  | accepted {p : Packet} {q : List Packet} {v r : Bool}
      (hd : s.drain = some ⟨q, .posted p, v, r⟩) :
      Moves ep s (.sent true)
        { s with
          votes := if p.tag = .runtimePut then s.votes.put .htt else s.votes
          drain := some ⟨q, .issue, v, r⟩
          hist := { s.hist with accepted := s.hist.accepted ++ [p] } }
  | refused {p : Packet} {q : List Packet} {v r : Bool}
      (hd : s.drain = some ⟨q, .posted p, v, r⟩) :
      Moves ep s (.sent false)
        { s with
          txLookupQueue := s.txLookupQueue.erase p
          drain := some ⟨p :: q, .reclaim (p :: q), v, r⟩ }
  | noPadCredit {q : List Packet} {v r : Bool} (hd : s.drain = some ⟨q, .issue, v, r⟩) :
      Moves ep s .noPadCredit { s with drain := some ⟨q, .reclaim q, v, r⟩ }
  | more {env : Env} {v r : Bool} (hd : s.drain = some ⟨[], .issue, v, r⟩) :
      Moves ep s (.more env) (drainLoop ep env r s)
  | giveBack {p : Packet} {q todo : List Packet} {v r : Bool}
      (hd : s.drain = some ⟨q, .reclaim (p :: todo), v, r⟩) :
      Moves ep s .giveBack
        { s with
          txCredits := s.txCredits + p.creditsUsed
          drain := some ⟨q, .reclaim todo, v, r⟩ }
  | putBack {q : List Packet} {v r : Bool} (hd : s.drain = some ⟨q, .reclaim [], v, r⟩) :
      Moves ep s .putBack (State.finish
        { s with
          votes := q.foldl (fun v _ => v.put ep.rtpmId) s.votes
          txQueue := q ++ s.txQueue } (.failed (r && decide (q ≠ []))))
  | completed {netbuf : ℕ} (hposted : s.posted ≠ some netbuf) :
      Moves ep s (.completed netbuf) (htcTxCompletionHandler ep netbuf s)
  | creditRpt {rptCredits : ℕ} :
      Moves ep s (.creditRpt rptCredits) (htcProcessCreditRpt rptCredits s)

theorem moves_of_take {header mapped : Bool} {d : Drain} (hd : s.drain = some d)
    (h : take ep header mapped d s = some s') : Moves ep s (.take header mapped) s' := by
  rcases d with ⟨q, phase, v, r⟩
  cases phase with
  | posted | reclaim => cases h
  | issue =>
    cases q with
    | nil => cases h
    | cons p q =>
      simp only [take] at h
      split at h
      · rename_i hheader
        obtain ⟨hflow, rfl⟩ := hheader
        cases h
        exact .noHeader hd hflow
      · rename_i hheader
        split at h
        · rename_i hmapped
          obtain ⟨hflow, rfl⟩ := hmapped
          have hhas : header = true := by
            cases header with
            | true => rfl
            | false => exact absurd ⟨hflow, rfl⟩ hheader
          cases h
          rw [hhas]
          exact .notMapped hd hflow
        · cases h
          exact .posted hd

theorem moves_of_sent {ok : Bool} {d : Drain} (hd : s.drain = some d)
    (h : sent ok d s = some s') : Moves ep s (.sent ok) s' := by
  rcases d with ⟨q, phase, v, r⟩
  cases phase with
  | issue | reclaim => cases h
  | posted p =>
    cases ok with
    | true =>
      cases h
      exact .accepted hd
    | false =>
      cases h
      exact .refused hd

/-- **The steps are these.** -/
theorem moves_of_step (h : step ep s a = some s') : Moves ep s a s' := by
  cases a with
  | handOver q depth depth' keep =>
    dsimp only [step] at h
    split at h
    · cases h
      exact .handOver ‹_›
    · cases h
  | trySend =>
    cases h
    exact .trySend
  | setNodropPkt isNodropPkt =>
    cases h
    exact .setNodropPkt
  | enter i env =>
    dsimp only [step] at h
    split at h
    · obtain ⟨q, hcaller, rfl⟩ := Option.map_eq_some_iff.1 h
      exact .enter hcaller
    · cases h
  | take header mapped =>
    obtain ⟨d, hd, h⟩ := Option.bind_eq_some_iff.1 h
    exact moves_of_take hd h
  | sent ok =>
    obtain ⟨d, hd, h⟩ := Option.bind_eq_some_iff.1 h
    exact moves_of_sent hd h
  | noPadCredit =>
    obtain ⟨⟨q, phase, v, r⟩, hd, h⟩ := Option.bind_eq_some_iff.1 h
    cases phase with
    | posted | reclaim => cases h
    | issue =>
      unfold noPadCredit at h
      dsimp only at h
      split at h
      · cases h
        exact .noPadCredit hd
      · cases h
  | more env =>
    obtain ⟨⟨q, phase, v, r⟩, hd, h⟩ := Option.bind_eq_some_iff.1 h
    cases phase with
    | posted | reclaim => cases h
    | issue =>
      cases q with
      | cons p q => cases h
      | nil =>
        cases h
        exact .more hd
  | giveBack =>
    obtain ⟨⟨q, phase, v, r⟩, hd, h⟩ := Option.bind_eq_some_iff.1 h
    cases phase with
    | issue | posted => cases h
    | reclaim todo =>
      cases todo with
      | nil => cases h
      | cons p todo =>
        cases h
        exact .giveBack hd
  | putBack =>
    obtain ⟨⟨q, phase, v, r⟩, hd, h⟩ := Option.bind_eq_some_iff.1 h
    cases phase with
    | issue | posted => cases h
    | reclaim todo =>
      cases todo with
      | cons p todo => cases h
      | nil =>
        cases h
        exact .putBack hd
  | completed netbuf =>
    dsimp only [step] at h
    split at h
    · rename_i hhif
      cases h
      exact .completed hhif.2
    · cases h
  | creditRpt rptCredits =>
    dsimp only [step] at h
    split at h
    · cases h
      exact .creditRpt
    · cases h

/-! ## Completed packets -/

/-- What the search for a completed packet finds. -/
inductive Found (netbuf : ℕ) (l : List Packet) : Option Packet → List Packet → Prop
  | none (h : ∀ p ∈ l, p.id ≠ netbuf) : Found netbuf l none l
  | some {p : Packet} {rest : List Packet} (hid : p.id = netbuf) (hrest : l.Perm (p :: rest)) :
      Found netbuf l (some p) rest

theorem found_htcLookupTxPacket (netbuf : ℕ) (l : List Packet) :
    Found netbuf l (htcLookupTxPacket netbuf l).1 (htcLookupTxPacket netbuf l).2 := by
  cases l with
  | nil => exact .none (by intros; contradiction)
  | cons p l =>
    rw [htcLookupTxPacket]
    split
    · exact .some (Eq.symm ‹_›) (.refl _)
    split
    · rename_i hfind
      exact .none fun x hx => by simpa using List.find?_eq_none.1 hfind x hx
    · rename_i hfind
      exact .some (by simpa using List.find?_some hfind)
        (List.perm_cons_erase (List.mem_of_find?_eq_some hfind))

theorem cnt_perm {i : ℕ} {l l' : List Packet} (h : l.Perm l') : cnt i l = cnt i l' :=
  (h.map Packet.id).count_eq i

/-! ## Entering -/

/-- What gets into the TxQueue, and what does not change. -/
theorem enqueue_spec (q : List Packet) (s : State) :
    ∃ txQueue isNodropPkt new,
      enqueue q s = { s with
        txQueue, isNodropPkt, hist := { s.hist with entered := s.hist.entered ++ new } } ∧
      (∀ i, cnt i txQueue = cnt i s.txQueue + cnt i q) ∧
      ordinary txQueue = ordinary s.txQueue ++ new := by
  have hcnt : ∀ i (nodrop : Bool), cnt i (q.map fun p => { p with nodrop }) = cnt i q := by
    intro i nodrop
    rw [cnt, List.map_map, cnt]
    rfl
  unfold enqueue
  split
  · rename_i hnil
    exact ⟨s.txQueue, s.isNodropPkt, [], by rw [List.append_nil], fun i => by rw [hnil]; rfl,
      (List.append_nil _).symm⟩
  split
  · refine ⟨_, false, [], by rw [List.append_nil], fun i => ?_, ?_⟩
    · rw [cnt_append, hcnt, Nat.add_comm]
    · have hnone : ordinary (q.map fun p => { p with nodrop := true }) = [] := by
        refine ordinary_eq_nil fun p hp hord => ?_
        obtain ⟨x, -, rfl⟩ := List.mem_map.1 hp
        cases hord.2.2
      rw [ordinary_append, hnone, List.append_nil]
      rfl
  · refine ⟨_, s.isNodropPkt, _, rfl, fun i => ?_, ?_⟩
    · rw [cnt_append, hcnt]
    · rw [ordinary_append]
      rfl

theorem txQueue_enqueue_callers (q : List Packet) (s : State) (callers : List (List Packet)) :
    (enqueue q { s with callers }).txQueue = (enqueue q s).txQueue := by
  unfold enqueue
  split
  · rfl
  split
  · rfl
  · rfl

/-! ## Threads -/

theorem Turn.hist {reported : Bool} (h : Turn ep env reported s s') :
    s'.hist.handed = s.hist.handed ∧ s'.hist.accepted = s.hist.accepted ∧
      s'.hist.entered = s.hist.entered := by
  cases h with
  | stop | empty | got => exact ⟨rfl, rfl, rfl⟩

theorem Turn.drain {reported : Bool} (h : Turn ep env reported s s') :
    (s'.txProcessCount = 0 ∧ s'.drain = none) ∨
      (s'.txProcessCount = s.txProcessCount ∧
        ∃ q v, s'.drain = some ⟨q, .issue, v, reported⟩) := by
  cases h with
  | stop | empty => exact .inl ⟨rfl, rfl⟩
  | got => exact .inr ⟨rfl, _, _, rfl⟩

/-- The processing count tells whether a thread is draining the endpoint, and a packet that is in
    `hif_send_head` is in the TxLookupQueue. -/
structure Threads (s : State) : Prop where
  count : s.txProcessCount = 0 ↔ s.drain = none
  posted : ∀ p q v r, s.drain = some ⟨q, .posted p, v, r⟩ → p ∈ s.txLookupQueue

theorem Threads.count_ne (h : Threads s) {d : Drain} (hd : s.drain = some d) :
    s.txProcessCount ≠ 0 := by
  intro hzero
  rw [h.count.1 hzero] at hd
  cases hd

/-- The thread that drains the endpoint goes on. -/
theorem Threads.of_same {d d' : Drain} (h : Threads s) (hd : s.drain = some d)
    (hcount : s'.txProcessCount = s.txProcessCount) (hd' : s'.drain = some d')
    (hposted : ∀ p, d'.phase = .posted p → p ∈ s'.txLookupQueue) : Threads s' := by
  refine ⟨?_, fun p q v r hp => ?_⟩
  · rw [hcount, hd']
    exact iff_of_false (h.count_ne hd) nofun
  · rw [hd'] at hp
    cases hp
    exact hposted p rfl

theorem Turn.threads {reported : Bool} (h : Turn ep env reported s s')
    (hcount : s.txProcessCount ≠ 0) : Threads s' := by
  rcases h.drain with ⟨hzero, hnone⟩ | ⟨hsame, q, v, hsome⟩
  · exact ⟨iff_of_true hzero hnone, fun p q v r hd => by rw [hnone] at hd; cases hd⟩
  · refine ⟨?_, fun p q v r hd => by rw [hsome] at hd; cases hd⟩
    rw [hsame, hsome]
    exact iff_of_false hcount nofun

theorem Threads.completed {netbuf : ℕ} (h : Threads s) (hposted : s.posted ≠ some netbuf) :
    Threads (htcTxCompletionHandler ep netbuf s) := by
  have hfound := found_htcLookupTxPacket netbuf s.txLookupQueue
  unfold htcTxCompletionHandler
  generalize htcLookupTxPacket netbuf s.txLookupQueue = result at hfound ⊢
  rcases result with ⟨found, rest⟩
  dsimp only at hfound ⊢
  cases hfound with
  | none => exact ⟨h.count, h.posted⟩
  | @some x rest hid hperm =>
    refine ⟨h.count, fun p q v r hd => ?_⟩
    have hp := hperm.mem_iff.1 (h.posted p q v r hd)
    rcases List.mem_cons.1 hp with rfl | hp
    · dsimp only at hd
      rw [State.posted, hd] at hposted
      exact absurd (congrArg some hid) hposted
    · exact hp

/-- **At most one thread drains the endpoint**, in every run. -/
theorem Threads.moves (h : Threads s) (hmoves : Moves ep s a s') : Threads s' := by
  cases hmoves with
  | handOver | trySend | setNodropPkt => exact ⟨h.count, h.posted⟩
  | @enter n env q hcaller =>
    obtain ⟨txQueue, isNodropPkt, new, henq, -⟩ :=
      enqueue_spec q { s with callers := s.callers.eraseIdx n }
    unfold Htc.enter
    rw [henq]
    dsimp only
    split
    · exact ⟨h.count, h.posted⟩
    · exact drainLoop_turn.threads (Nat.succ_ne_zero _)
  | noHeader hd | notMapped hd | accepted hd | refused hd | noPadCredit hd | giveBack hd =>
    exact h.of_same hd rfl rfl (by intros; contradiction)
  | posted hd =>
    refine h.of_same hd rfl rfl fun p hp => ?_
    cases hp
    exact List.mem_append_right _ (List.mem_singleton_self _)
  | more hd => exact drainLoop_turn.threads (h.count_ne hd)
  | putBack => exact ⟨iff_of_true rfl rfl, by intros; contradiction⟩
  | completed hposted => exact h.completed hposted
  | creditRpt =>
    unfold htcProcessCreditRpt
    refine ⟨h.count.trans (by simp only [Option.map_eq_none_iff]), fun p q v r hd => ?_⟩
    obtain ⟨⟨q, phase, v, r'⟩, hd', heq⟩ := Option.map_eq_some_iff.1 hd
    cases heq
    exact h.posted p _ _ r' hd'

theorem threads_init {txCredits : ℕ} {votes : Votes} : Threads (State.init txCredits votes) :=
  ⟨iff_of_true rfl rfl, by intros; contradiction⟩

end Sm8850.Htc
