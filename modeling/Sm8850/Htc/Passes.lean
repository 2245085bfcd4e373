/-
  What one pass over the TxQueue takes and leaves.

  * `cnt`, `ordinary`, `used`: how often a packet is in a list, the packets whose order counts,
    and the credits that a list of packets uses.
  * `grabCredits_rest_eq_nil_iff`: when all packets of a queue are taken.
  * `Pass.From`: what there is to take in a pass, with the credits, the votes and the order of
    the packets over it.
  * `Pass.Keeps`: the passes in which no packet is lost.
  * `Pass.Grants`: the passes that take something if the credits are there.
-/
import Mathlib.Algebra.GroupWithZero.Nat
import Sm8850.Htc.Send

namespace Sm8850.Htc

/-! ## Lists of packets -/

/-- How often the packet with an id is in the list. -/
def cnt (i : ℕ) (l : List Packet) : ℕ := (l.map Packet.id).count i

/-- The ids of the packets in the list whose order counts. -/
def ordinary (l : List Packet) : List ℕ := (l.filter (·.Ordinary)).map Packet.id

/-- The credits of the packets in the list. -/
def used (l : List Packet) : ℕ := (l.map Packet.creditsUsed).sum

/-- What a pass does not change of a packet. -/
def Packet.mark (p : Packet) : ℕ × Tag × Bool := (p.id, p.tag, p.nodrop)

section Lists

variable {i : ℕ} {p : Packet} {l l' : List Packet}

@[simp] theorem cnt_nil : cnt i [] = 0 := rfl

@[simp] theorem cnt_cons : cnt i (p :: l) = cnt i l + if p.id = i then 1 else 0 := by
  rw [cnt, List.map_cons, List.count_cons]
  simp only [beq_iff_eq, cnt]

@[simp] theorem cnt_append : cnt i (l ++ l') = cnt i l + cnt i l' := by
  rw [cnt, List.map_append, List.count_append, cnt, cnt]

@[simp] theorem ordinary_append : ordinary (l ++ l') = ordinary l ++ ordinary l' := by
  rw [ordinary, List.filter_append, List.map_append, ordinary, ordinary]

theorem ordinary_eq_nil (h : ∀ p ∈ l, ¬ p.Ordinary) : ordinary l = [] := by
  rw [ordinary, List.filter_eq_nil_iff.2 fun p hp => by simpa using h p hp]
  rfl

@[simp] theorem used_nil : used [] = 0 := rfl

@[simp] theorem used_cons : used (p :: l) = p.creditsUsed + used l := by
  rw [used, List.map_cons, List.sum_cons, used]

@[simp] theorem used_append : used (l ++ l') = used l + used l' := by
  rw [used, List.map_append, List.sum_append, used, used]

theorem cnt_of_marks (h : l.map Packet.mark = l'.map Packet.mark) : cnt i l = cnt i l' := by
  have hids := congrArg (List.map Prod.fst) h
  rw [List.map_map, List.map_map] at hids
  exact congrArg (List.count i) hids

theorem ordinary_of_marks (h : l.map Packet.mark = l'.map Packet.mark) :
    ordinary l = ordinary l' := by
  induction l generalizing l' with
  | nil =>
    cases l' with
    | nil => rfl
    | cons q l' => cases h
  | cons p l ih =>
    cases l' with
    | nil => cases h
    | cons q l' =>
      rw [List.map_cons, List.map_cons, List.cons.injEq] at h
      have hid : p.id = q.id := congrArg Prod.fst h.1
      have hord : p.Ordinary ↔ q.Ordinary := by
        have htag : p.tag = q.tag := congrArg (·.2.1) h.1
        have hnodrop : p.nodrop = q.nodrop := congrArg (·.2.2) h.1
        rw [Packet.Ordinary, Packet.Ordinary, htag, hnodrop]
      have hrest := ih h.2
      unfold ordinary at hrest ⊢
      by_cases hp : p.Ordinary
      · rw [List.filter_cons_of_pos (by simpa using hp),
          List.filter_cons_of_pos (by simpa using hord.1 hp), List.map_cons, List.map_cons, hid,
          hrest]
      · rw [List.filter_cons_of_neg (by simpa using hp),
          List.filter_cons_of_neg (by simpa using fun h => hp (hord.2 h)), hrest]

theorem cnt_filter_add (q : Packet → Bool) :
    cnt i (l.filter q) + cnt i (l.filter (!q ·)) = cnt i l := by
  induction l with
  | nil => rfl
  | cons p l ih =>
    cases hq : q p with
    | true =>
      rw [List.filter_cons_of_pos hq, List.filter_cons_of_neg (by rw [hq]; decide), cnt_cons,
        cnt_cons]
      omega
    | false =>
      rw [List.filter_cons_of_neg (by rw [hq]; decide), List.filter_cons_of_pos (by rw [hq]; rfl),
        cnt_cons, cnt_cons]
      omega

end Lists

/-! ## Votes -/

/-- The votes of a number of packets more. -/
def Votes.add (v : Votes) (id : RtpmId) (n : ℕ) : Votes := Function.update v id (v id + n)

theorem Votes.get_eq_add (v : Votes) (id : RtpmId) : v.get id = v.add id 1 := rfl

@[simp] theorem Votes.add_zero (v : Votes) (id : RtpmId) : v.add id 0 = v :=
  Function.update_eq_self id v

@[simp] theorem Votes.add_add (v : Votes) (id : RtpmId) (m n : ℕ) :
    (v.add id m).add id n = v.add id (m + n) := by
  simp only [Votes.add, Function.update_self, Function.update_idem, Nat.add_assoc]

@[simp] theorem Votes.add_self (v : Votes) (id : RtpmId) (n : ℕ) : v.add id n id = v id + n :=
  Function.update_self ..

theorem Votes.add_of_ne (v : Votes) {id id' : RtpmId} (n : ℕ) (h : id' ≠ id) :
    v.add id n id' = v id' :=
  Function.update_of_ne h ..

/-! ## The loops -/

/-- What a loop makes of the queue that it takes packets from. -/
structure Grab.Of (ep : Endpoint) (doPmGet : Bool) (txCredits : ℕ) (votes : Votes)
    (q : List Packet) (g : Grab) : Prop where
  marks : (g.queue ++ g.rest).map Packet.mark = q.map Packet.mark
  credits : g.txCredits + used g.queue = txCredits
  votes : g.votes = if doPmGet then votes.add ep.rtpmId g.queue.length else votes

section Loops

variable {ep : Endpoint} {env : Env} {doPmGet sysPmCheck : Bool} {i txCredits : ℕ} {votes : Votes}
  {q : List Packet} {p : Packet} {g : Grab}

theorem Grab.Of.stop : Grab.Of ep doPmGet txCredits votes q ⟨[], q, txCredits, votes⟩ := by
  refine ⟨rfl, rfl, ?_⟩
  cases doPmGet with
  | true => exact (votes.add_zero _).symm
  | false => rfl

/-- One more packet in front. -/
theorem Grab.Of.cons {p' : Packet} {n : ℕ} (hp : p'.mark = p.mark)
    (hn : n + p'.creditsUsed = txCredits)
    (h : Grab.Of ep doPmGet n (if doPmGet then votes.get ep.rtpmId else votes) q g) :
    Grab.Of ep doPmGet txCredits votes (p :: q) { g with queue := p' :: g.queue } where
  marks := by
    rw [List.cons_append, List.map_cons, h.marks, hp, List.map_cons]
  credits := by
    rw [used_cons, ← hn, ← h.credits]
    exact (Nat.add_assoc ..).symm.trans ((Nat.add_right_comm ..).trans rfl)
  votes := by
    rw [h.votes]
    cases doPmGet with
    | true =>
      simp only [if_true, Votes.get_eq_add, Votes.add_add, List.length_cons, Nat.add_comm 1]
    | false => rfl

theorem grabCredits_of : Grab.Of ep doPmGet txCredits votes q
    (grabCredits ep env doPmGet sysPmCheck i txCredits votes q) := by
  induction q generalizing i txCredits votes with
  | nil => exact .stop
  | cons p q ih =>
    rw [grabCredits]
    split
    · exact .stop
    split
    · exact .stop
    split
    · exact .stop
    · exact .cons rfl (Nat.sub_add_cancel (Nat.le_of_not_lt ‹_›)) ih

theorem grabResources_of {resources : ℤ} : Grab.Of ep doPmGet txCredits votes q
    (grabResources ep env doPmGet i resources txCredits votes q) := by
  induction q generalizing i resources votes with
  | nil => exact .stop
  | cons p q ih =>
    rw [grabResources]
    split
    · exact .stop
    split
    · exact .stop
    split
    · exact .stop
    · exact .cons rfl rfl ih

/-- All packets are taken if and only if there is a vote for each, and the credits of all are
    there. -/
theorem grabCredits_rest_eq_nil_iff :
    (grabCredits ep env true false i txCredits votes q).rest = [] ↔
      (∀ j < q.length, env.rtpmGet (i + j) = true) ∧
        (q.map (creditsRequired ep)).sum ≤ txCredits := by
  induction q generalizing i txCredits votes with
  | nil => exact iff_of_true rfl ⟨nofun, Nat.zero_le _⟩
  | cons p q ih =>
    rw [grabCredits, List.map_cons, List.sum_cons]
    by_cases hget : env.rtpmGet i = false
    · rw [if_pos ⟨rfl, hget⟩]
      refine iff_of_false (List.cons_ne_nil _ _) fun h => ?_
      have h0 := h.1 0 (Nat.zero_lt_succ _)
      rw [Nat.add_zero, hget] at h0
      cases h0
    · rw [if_neg fun h => hget h.2, if_neg fun h => nomatch h.1]
      by_cases hlt : txCredits < creditsRequired ep p
      · rw [if_pos hlt]
        exact iff_of_false (List.cons_ne_nil _ _) fun h => by omega
      · rw [if_neg hlt]
        refine ih.trans (and_congr ?_ ?_)
        · constructor
          · intro h j hj
            cases j with
            | zero => exact by rwa [Bool.not_eq_false] at hget
            | succ j =>
              have hj' := h j (Nat.lt_of_succ_lt_succ hj)
              rwa [Nat.add_right_comm, Nat.add_assoc] at hj'
          · intro h j hj
            have hj' := h (j + 1) (Nat.succ_lt_succ hj)
            rwa [← Nat.add_assoc, Nat.add_right_comm] at hj'
        · omega

end Loops

/-! ## Packets that go first -/

section Extract

variable {ep : Endpoint} {built : Bool} {tag : Tag} {q : List Packet} {i : ℕ}

theorem extractPackets_nil (h : (extractPackets built tag ep q).1 = []) :
    (extractPackets built tag ep q).2 = q := by
  unfold extractPackets at h ⊢
  split at h
  · rw [if_pos ‹_›]
    refine List.filter_eq_self.2 fun p hp => ?_
    have hnot := List.filter_eq_nil_iff.1 h p hp
    simpa using hnot
  · rw [if_neg ‹_›]

theorem tag_of_mem_extractPackets {p : Packet} (h : p ∈ (extractPackets built tag ep q).1) :
    p.tag = tag := by
  unfold extractPackets at h
  split at h
  · exact of_decide_eq_true (List.mem_filter.1 h).2
  · cases h

theorem cnt_extractPackets (built : Bool) (tag : Tag) (ep : Endpoint) (q : List Packet) :
    cnt i (extractPackets built tag ep q).1 + cnt i (extractPackets built tag ep q).2 =
      cnt i q := by
  unfold extractPackets
  split
  · have hsplit := cnt_filter_add (i := i) (l := q) fun p => decide (p.tag = tag)
    simpa only [ne_eq, decide_not] using hsplit
  · rw [cnt_nil, Nat.zero_add]

theorem ordinary_extractPackets (built : Bool) (ep : Endpoint) (q : List Packet)
    (htag : tag = .autoPm ∨ tag = .systemResume) :
    ordinary (extractPackets built tag ep q).2 = ordinary q := by
  unfold extractPackets
  split
  · unfold ordinary
    rw [List.filter_filter]
    refine congrArg (List.map Packet.id) (List.filter_congr fun p _ => ?_)
    by_cases hp : p.Ordinary
    · have hne : p.tag ≠ tag := by
        rintro rfl
        rcases htag with htag | htag
        · exact hp.1 htag
        · exact hp.2.1 htag
      simp [hp, hne]
    · simp [hp]
  · rfl

end Extract

/-! ## The pass -/

/-- What there is to take in a pass: the power management packets, else the system resume
    packets of an endpoint with credits, else all. -/
inductive Pass.From (ep : Endpoint) (env : Env) (txCredits : ℕ) (votes : Votes)
    (txQueue : List Packet) : Pass → Prop
  | pm {pm others : List Packet} {g : Grab} (hext : extractHtcPmPackets ep txQueue = (pm, others))
      (hne : pm ≠ []) (hof : Grab.Of ep false txCredits votes pm g)
      (hgrab : ep.txCreditFlowEnabled = true →
        g = grabCredits ep env false false 0 txCredits votes pm) :
      From ep env txCredits votes txQueue
        { g with txQueue := g.rest ++ others, doPmGet := false }
  | resume {resume others : List Packet} {g : Grab} (hflow : ep.txCreditFlowEnabled = true)
      (hnil : (extractHtcPmPackets ep txQueue).1 = [])
      (hext : extractHtcSystemResumePkts ep txQueue = (resume, others)) (hne : resume ≠ [])
      (hgrab : g = grabCredits ep env true false 0 txCredits votes resume) :
      From ep env txCredits votes txQueue { g with txQueue := others, doPmGet := true }
  | all {g : Grab} (hnil : (extractHtcPmPackets ep txQueue).1 = [])
      (hresume : ep.txCreditFlowEnabled = true → (extractHtcSystemResumePkts ep txQueue).1 = [])
      (hof : Grab.Of ep true txCredits votes txQueue g)
      (hgrab : ep.txCreditFlowEnabled = true →
        g = grabCredits ep env true true 0 txCredits votes txQueue) :
      From ep env txCredits votes txQueue { g with txQueue := g.rest, doPmGet := true }

section Passes

variable {ep : Endpoint} {env : Env} {txCredits : ℕ} {votes : Votes} {txQueue : List Packet}
  {g : Pass} {i : ℕ}

theorem pass_from : (pass ep env txCredits votes txQueue).From ep env txCredits votes txQueue := by
  unfold pass
  split
  · rename_i hflow
    rcases hpm : extractHtcPmPackets ep txQueue with ⟨pm, others⟩
    cases pm with
    | cons p pm =>
      simp only [getHtcSendPacketsCreditBased, hpm]
      exact .pm hpm (List.cons_ne_nil _ _) grabCredits_of fun _ => rfl
    | nil =>
      have hothers : others = txQueue := by
        have hnil := extractPackets_nil (show (extractHtcPmPackets ep txQueue).1 = [] by rw [hpm])
        exact (congrArg Prod.snd hpm).symm.trans hnil
      rcases hres : extractHtcSystemResumePkts ep txQueue with ⟨resume, others'⟩
      cases resume with
      | cons p resume =>
        simp only [getHtcSendPacketsCreditBased, hpm, hothers, hres]
        exact .resume hflow (by rw [hpm]) hres (List.cons_ne_nil _ _) rfl
      | nil =>
        have hothers' : others' = txQueue := by
          have hnil := extractPackets_nil
            (show (extractHtcSystemResumePkts ep txQueue).1 = [] by rw [hres])
          exact (congrArg Prod.snd hres).symm.trans hnil
        simp only [getHtcSendPacketsCreditBased, hpm, hothers, hres, hothers']
        exact .all (by rw [hpm]) (fun _ => by rw [hres]) grabCredits_of fun _ => rfl
  · rename_i hflow
    rcases hpm : extractHtcPmPackets ep txQueue with ⟨pm, others⟩
    cases pm with
    | cons p pm =>
      simp only [getHtcSendPackets, hpm]
      exact .pm hpm (List.cons_ne_nil _ _) grabResources_of fun h => absurd h hflow
    | nil =>
      have hothers : others = txQueue := by
        have hnil := extractPackets_nil (show (extractHtcPmPackets ep txQueue).1 = [] by rw [hpm])
        exact (congrArg Prod.snd hpm).symm.trans hnil
      simp only [getHtcSendPackets, hpm, hothers]
      exact .all (by rw [hpm]) (fun h => absurd h hflow) grabResources_of
        fun h => absurd h hflow

namespace Pass.From

/-- The credits of the packets come from the endpoint. -/
theorem credits (h : g.From ep env txCredits votes txQueue) :
    g.txCredits + used g.queue = txCredits := by
  cases h with
  | pm _ _ hof => exact hof.credits
  | resume _ _ _ _ hgrab => exact hgrab ▸ grabCredits_of.credits
  | all _ _ hof => exact hof.credits

theorem votes_eq (h : g.From ep env txCredits votes txQueue) :
    g.votes = if g.doPmGet then votes.add ep.rtpmId g.queue.length else votes := by
  cases h with
  | pm _ _ hof => exact hof.votes
  | resume _ _ _ _ hgrab => exact hgrab ▸ grabCredits_of.votes
  | all _ _ hof => exact hof.votes

/-- A pass that does not vote takes power management packets. -/
theorem autoPm (h : g.From ep env txCredits votes txQueue) (hget : g.doPmGet = false) :
    ∀ p ∈ g.queue, p.tag = .autoPm := by
  cases h with
  | @pm pm others gr hext _ hof =>
    intro p hp
    have hmark : p.mark ∈ pm.map Packet.mark := by
      rw [← hof.marks]
      exact List.mem_map_of_mem (List.mem_append_left _ hp)
    obtain ⟨x, hx, hmark⟩ := List.mem_map.1 hmark
    have htag : x.tag = p.tag := congrArg (·.2.1) hmark
    rw [← htag]
    exact tag_of_mem_extractPackets
      (show x ∈ (extractHtcPmPackets ep txQueue).1 by rw [hext]; exact hx)
  | resume | all => cases hget

/-- The order of the other packets is kept. -/
theorem ordinary_eq (h : g.From ep env txCredits votes txQueue) :
    ordinary g.queue ++ ordinary g.txQueue = ordinary txQueue := by
  cases h with
  | @pm pm others gr hext _ hof =>
    have hnone : ordinary (gr.queue ++ gr.rest) = [] := by
      rw [ordinary_of_marks hof.marks]
      refine ordinary_eq_nil fun p hp hord => hord.1 ?_
      exact tag_of_mem_extractPackets
        (show p ∈ (extractHtcPmPackets ep txQueue).1 by rw [hext]; exact hp)
    have hothers : ordinary others = ordinary txQueue := by
      rw [← ordinary_extractPackets ep.featureRuntimePm ep txQueue (.inl rfl)]
      exact congrArg ordinary (congrArg Prod.snd hext).symm
    rw [ordinary_append, List.append_eq_nil_iff] at hnone
    rw [ordinary_append, hnone.1, hnone.2, hothers]
    rfl
  | @resume resume others gr _ _ hext _ hgrab =>
    have hnone : ordinary (gr.queue ++ gr.rest) = [] := by
      rw [hgrab, ordinary_of_marks grabCredits_of.marks]
      refine ordinary_eq_nil fun p hp hord => hord.2.1 ?_
      exact tag_of_mem_extractPackets
        (show p ∈ (extractHtcSystemResumePkts ep txQueue).1 by rw [hext]; exact hp)
    have hothers : ordinary others = ordinary txQueue := by
      rw [← ordinary_extractPackets ep.systemPmCheck ep txQueue (.inr rfl)]
      exact congrArg ordinary (congrArg Prod.snd hext).symm
    rw [ordinary_append, List.append_eq_nil_iff] at hnone
    rw [hnone.1, hothers]
    rfl
  | all _ _ hof => rw [← ordinary_append, ordinary_of_marks hof.marks]

end Pass.From

/-- The resume packets that a pass takes out of the TxQueue are all sent: there is a vote for
    each, and the credits of all are there. -/
def Pass.Keeps (ep : Endpoint) (env : Env) (txCredits : ℕ) (txQueue : List Packet) : Prop :=
  ep.txCreditFlowEnabled = true → (extractHtcPmPackets ep txQueue).1 = [] →
    (∀ j < (extractHtcSystemResumePkts ep txQueue).1.length, env.rtpmGet j = true) ∧
      ((extractHtcSystemResumePkts ep txQueue).1.map (creditsRequired ep)).sum ≤ txCredits

namespace Pass.From

/-- **No packet is lost in a pass** that sends all resume packets. -/
theorem cnt_eq (h : g.From ep env txCredits votes txQueue)
    (hkeeps : Pass.Keeps ep env txCredits txQueue) :
    cnt i g.queue + cnt i g.txQueue = cnt i txQueue := by
  cases h with
  | @pm pm others gr hext _ hof =>
    have hsplit := cnt_extractPackets (i := i) ep.featureRuntimePm .autoPm ep txQueue
    have hgrab := cnt_of_marks (i := i) hof.marks
    rw [show extractPackets ep.featureRuntimePm .autoPm ep txQueue = (pm, others) from hext]
      at hsplit
    rw [cnt_append] at hgrab ⊢
    dsimp only at hsplit ⊢
    omega
  | @resume resume others gr hflow hnil hext _ hgrab =>
    have hsplit := cnt_extractPackets (i := i) ep.systemPmCheck .systemResume ep txQueue
    have hall := hkeeps hflow hnil
    rw [hext] at hall
    have hrest : gr.rest = [] := by
      rw [hgrab]
      exact grabCredits_rest_eq_nil_iff.2
        ⟨fun j hj => by rw [Nat.zero_add]; exact hall.1 j hj, hall.2⟩
    have hmarks : cnt i (gr.queue ++ gr.rest) = cnt i resume := by
      rw [hgrab]
      exact cnt_of_marks grabCredits_of.marks
    rw [show extractPackets ep.systemPmCheck .systemResume ep txQueue = (resume, others) from hext]
      at hsplit
    rw [hrest, List.append_nil] at hmarks
    dsimp only at hsplit ⊢
    omega
  | all _ _ hof =>
    rw [← cnt_append]
    exact cnt_of_marks hof.marks

end Pass.From

/-! ## An empty pass -/

/-- The head packet needs more credits than there are. -/
def Blocked (ep : Endpoint) (txCredits : ℕ) (txQueue : List Packet) : Prop :=
  ∀ p ∈ txQueue.head?, txCredits < creditsRequired ep p

instance : Decidable (Blocked ep txCredits txQueue) := inferInstanceAs (Decidable (∀ _ ∈ _, _))

theorem grabCredits_queue_eq_nil {doPmGet sysPmCheck : Bool} {q : List Packet}
    (h : (grabCredits ep env doPmGet sysPmCheck i txCredits votes q).queue = [])
    (hget : doPmGet = true → env.rtpmGet i = true)
    (hpm : sysPmCheck = true → env.systemPmState i = true) :
    (grabCredits ep env doPmGet sysPmCheck i txCredits votes q).rest = q ∧
      (grabCredits ep env doPmGet sysPmCheck i txCredits votes q).txCredits = txCredits ∧
      Blocked ep txCredits q := by
  cases q with
  | nil => exact ⟨rfl, rfl, nofun⟩
  | cons p q =>
    have hget' : ¬ (doPmGet = true ∧ env.rtpmGet i = false) := fun ⟨hdo, hno⟩ => by
      rw [hget hdo] at hno
      cases hno
    have hpm' : ¬ (sysPmCheck = true ∧ env.systemPmState i = false) := fun ⟨hdo, hno⟩ => by
      rw [hpm hdo] at hno
      cases hno
    rw [grabCredits, if_neg hget', if_neg hpm'] at h ⊢
    by_cases hlt : txCredits < creditsRequired ep p
    · rw [if_pos hlt]
      refine ⟨rfl, rfl, fun x hx => ?_⟩
      cases hx
      exact hlt
    · rw [if_neg hlt] at h
      cases h

/-- The first vote of a pass and the first check of the system's state are given, where it asks
    for them, and so are the credits of the first resume packet, unless the packets behind wait
    for credits too. -/
structure Pass.Grants (ep : Endpoint) (env : Env) (txCredits : ℕ) (txQueue : List Packet) :
    Prop where
  rtpmGet : (extractHtcPmPackets ep txQueue).1 = [] → env.rtpmGet 0 = true
  systemPmState : (extractHtcPmPackets ep txQueue).1 = [] →
    (extractHtcSystemResumePkts ep txQueue).1 = [] → env.systemPmState 0 = true
  resume : (extractHtcPmPackets ep txQueue).1 = [] →
    ∀ p ∈ (extractHtcSystemResumePkts ep txQueue).1.head?, txCredits < creditsRequired ep p →
      Blocked ep txCredits (extractHtcSystemResumePkts ep txQueue).2

/-- **A pass that takes nothing** leaves a head packet that needs more credits. -/
theorem Pass.From.blocked (h : g.From ep env txCredits votes txQueue)
    (hflow : ep.txCreditFlowEnabled = true) (hgrants : Pass.Grants ep env txCredits txQueue)
    (hnil : g.queue = []) : Blocked ep g.txCredits g.txQueue := by
  cases h with
  | @pm pm others gr hext hne hof hgrab =>
    obtain rfl := hgrab hflow
    obtain ⟨hrest, hcredits, hblocked⟩ := grabCredits_queue_eq_nil hnil nofun nofun
    dsimp only
    rw [hrest, hcredits]
    cases pm with
    | nil => exact absurd rfl hne
    | cons p pm => exact hblocked
  | @resume resume others gr _ hpmNil hext hne hgrab =>
    subst hgrab
    obtain ⟨-, hcredits, hblocked⟩ :=
      grabCredits_queue_eq_nil hnil (fun _ => hgrants.rtpmGet hpmNil) nofun
    have hothers := hgrants.resume hpmNil
    rw [hext] at hothers
    dsimp only at hothers ⊢
    rw [hcredits]
    cases resume with
    | nil => exact absurd rfl hne
    | cons p resume => exact hothers p rfl (hblocked p rfl)
  | @all gr hpmNil hresNil hof hgrab =>
    obtain rfl := hgrab hflow
    obtain ⟨hrest, hcredits, hblocked⟩ := grabCredits_queue_eq_nil hnil
      (fun _ => hgrants.rtpmGet hpmNil) fun _ => hgrants.systemPmState hpmNil (hresNil hflow)
    dsimp only
    rw [hrest, hcredits]
    exact hblocked

/-! ## Credits of the packets taken -/

theorem creditsUsed_grabCredits {doPmGet sysPmCheck : Bool} {q : List Packet} :
    ∀ p ∈ (grabCredits ep env doPmGet sysPmCheck i txCredits votes q).queue,
      p.creditsUsed = creditsRequired ep p := by
  induction q generalizing i txCredits votes with
  | nil => intros; contradiction
  | cons p q ih =>
    rw [grabCredits]
    split
    · intros; contradiction
    split
    · intros; contradiction
    split
    · intros; contradiction
    · intro x hx
      rcases List.mem_cons.1 hx with rfl | hx
      · rfl
      · exact ih x hx

theorem Pass.From.creditsUsed (h : g.From ep env txCredits votes txQueue)
    (hflow : ep.txCreditFlowEnabled = true) :
    ∀ p ∈ g.queue, p.creditsUsed = creditsRequired ep p := by
  cases h with
  | pm _ _ _ hgrab | all _ _ _ hgrab =>
    rw [hgrab hflow]
    exact creditsUsed_grabCredits
  | resume _ _ _ _ hgrab =>
    rw [hgrab]
    exact creditsUsed_grabCredits

end Passes

end Sm8850.Htc
