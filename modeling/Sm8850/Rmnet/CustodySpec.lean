/-
  Frag descriptors are given back once, or they are not.

  * `Owes held ok` reads a pool as a ledger: `held` is still to be given back, and the rest was
    given back once just if `ok`.
  * `LeftBehind` says what rest of a buffer costs a descriptor, `Doubled` which packets give
    theirs back twice.
  * **`conserved_iff`**: the descriptors of a chain of buffers are conserved, whatever fails,
    just if there is neither.
-/
import Mathlib.Algebra.GroupWithZero.Nat
import Sm8850.Lib.Ledger
import Sm8850.Lib.Triple
import Sm8850.Rmnet.Custody
import Sm8850.Rmnet.Deaggregate

namespace Sm8850.Rmnet.Custody

open Lib

/-! ## The ledger of a pool -/

def Pool.ledger (s : Pool) : Ledger :=
  ⟨s.got, fun t => s.recycled.count t + s.offloaded.count t⟩

def Owes (held : List ℕ) (ok : Prop) (s : Pool) : Prop := s.ledger.Kept held ok

/-- The descriptor has just been given back. -/
def Gone (t : ℕ) (held : List ℕ) (ok : Prop) (s : Pool) : Prop := Ledger.Gone t held ok s.ledger

/-- There is memory, and the hook takes nothing. -/
def Answers.Good (w : Answers) : Prop := (∀ n, w.alloc n = true) ∧ ∀ n, w.offload n = false

variable {w : Answers} {held : List ℕ} {ok : Prop} {t : ℕ} {d : FragDescriptor} {mem : Pages}
  {K : Csum}

theorem count_concat (l : List ℕ) (t u : ℕ) :
    (l ++ [t]).count u = if u = t then l.count u + 1 else l.count u := by
  rw [List.count_append, List.count_singleton]
  by_cases hu : u = t
  · rw [if_pos hu, if_pos (by rw [beq_iff_eq]; exact hu.symm)]
  · rw [if_neg hu, if_neg (by rw [beq_iff_eq]; exact Ne.symm hu), Nat.add_zero]

theorem ledger_recycle (t : ℕ) (s : Pool) :
    (rmnetRecycleFragDescriptor t s).2.ledger = s.ledger.give t := by
  refine Ledger.ext rfl (funext fun u => ?_)
  show (s.recycled ++ [t]).count u + s.offloaded.count u = _
  rw [Ledger.gives_give, count_concat]
  split
  · exact Nat.add_right_comm _ _ _
  · rfl

theorem ledger_offload (x : Taken) (s : Pool) :
    (offloadAll [x] s).2.ledger = s.ledger.give x.1 := by
  refine Ledger.ext rfl (funext fun u => ?_)
  show s.recycled.count u + (s.offloaded ++ [x.1]).count u = _
  rw [Ledger.gives_give, count_concat]
  split
  · rfl
  · rfl

theorem offloadAll_cons (x : Taken) (list : List Taken) (s : Pool) :
    (offloadAll (x :: list) s).2 = (offloadAll list (offloadAll [x] s).2).2 := by
  show Pool.mk _ _ _ _ _ = Pool.mk _ _ _ _ _
  congr 1
  show s.offloaded ++ (x.1 :: list.map Prod.fst) = s.offloaded ++ [x.1] ++ list.map Prod.fst
  rw [List.append_assoc, List.singleton_append]

/-! ## Taking and giving back -/

theorem recycle_spec : Triple (Owes (t :: held) ok) (rmnetRecycleFragDescriptor t)
    fun _ s => Owes held ok s ∧ Gone t held ok s := by
  intro s hs
  have hgone : Gone t held ok (rmnetRecycleFragDescriptor t s).2 :=
    ⟨s.ledger, hs, ledger_recycle t s⟩
  exact ⟨hgone.kept, hgone⟩

/-- What is given back twice is never made up for. -/
theorem recycle_gone : Triple (Gone t held ok) (rmnetRecycleFragDescriptor t)
    fun _ => Owes held False := by
  intro s hs
  rw [Owes, ledger_recycle]
  exact hs.give

theorem offloadAll_spec (list : List Taken) :
    Triple (Owes (list.map Prod.fst ++ held) ok) (offloadAll list) fun _ => Owes held ok := by
  intro s hs
  induction list generalizing s with
  | nil => rwa [offloadAll, List.map_nil, List.append_nil]
  | cons x list ih =>
    rw [offloadAll_cons]
    refine ih _ ?_
    rw [Owes, ledger_offload]
    exact Ledger.Kept.give hs

theorem take_spec : Triple (Owes held ok) take fun t => Owes (t :: held) ok :=
  fun _ hs => Ledger.Kept.take hs

theorem alloc_spec : Triple (Owes held ok) (alloc w)
    fun b s => (b = false → ¬ w.Good) ∧ Owes held ok s := by
  intro s hs
  refine ⟨fun hb hw => ?_, hs⟩
  cases hb.symm.trans (hw.1 s.asked)

theorem hook_spec : Triple (Owes held ok) (rmnetModuleHookOffloadIngress w)
    fun b s => (b = true → ¬ w.Good) ∧ Owes held ok s := by
  intro s hs
  refine ⟨fun hb hw => ?_, hs⟩
  cases hb.symm.trans (hw.2 s.offered)

theorem get_spec : Triple (Owes held ok) (rmnetGetFragDescriptor w)
    fun r s => (r = none → ¬ w.Good) ∧ Owes (r.toList ++ held) ok s := by
  refine alloc_spec.bind fun b => Triple.intro fun hb => ?_
  cases b with
  | false => exact Triple.pure fun s hs => ⟨fun _ => hb rfl, hs⟩
  | true => exact take_spec.bind fun t => Triple.pure fun s hs => ⟨nofun, hs⟩

theorem allocFragments_spec (n : ℕ) : Triple (Owes held ok) (allocFragments w n)
    fun b s => (b = false → ¬ w.Good) ∧ Owes held ok s := by
  induction n with
  | zero => exact Triple.pure fun s hs => ⟨nofun, hs⟩
  | succ n ih =>
    refine alloc_spec.bind fun b => Triple.intro fun hb => ?_
    cases b with
    | false => exact Triple.pure fun s hs => ⟨fun _ => hb rfl, hs⟩
    | true => exact ih

/-- What pulling and trimming leave. -/
theorem pull_spec (size : ℕ) : Triple (Owes (t :: held) ok) (rmnetFragPull t d size)
    fun r s => r = Rmnet.rmnetFragPull d size ∧
      (r = none → Gone t held ok s) ∧ (r ≠ none → Owes (t :: held) ok s) := by
  unfold rmnetFragPull
  cases Rmnet.rmnetFragPull d size with
  | none =>
    refine recycle_spec.bind fun _ => Triple.pure fun s hs => ?_
    exact ⟨rfl, fun _ => hs.2, fun h => absurd rfl h⟩
  | some d' => exact Triple.pure fun s hs => ⟨rfl, nofun, fun _ => hs⟩

theorem trim_spec (size : ℕ) : Triple (Owes (t :: held) ok) (rmnetFragTrim t d size)
    fun r s => r = Rmnet.rmnetFragTrim d size ∧
      (r = none → Gone t held ok s) ∧ (r ≠ none → Owes (t :: held) ok s) := by
  unfold rmnetFragTrim
  cases Rmnet.rmnetFragTrim d size with
  | none =>
    refine recycle_spec.bind fun _ => Triple.pure fun s hs => ?_
    exact ⟨rfl, fun _ => hs.2, fun h => absurd rfl h⟩
  | some d' => exact Triple.pure fun s hs => ⟨rfl, nofun, fun _ => hs⟩

theorem pull_eq_none {size : ℕ} : Rmnet.rmnetFragPull d size = none ↔ d.len ≤ size := by
  unfold Rmnet.rmnetFragPull
  split
  · rename_i h
    exact iff_of_true rfl h
  · rename_i h
    exact iff_of_false nofun h

theorem trim_eq_none {size : ℕ} : Rmnet.rmnetFragTrim d size = none ↔ size = 0 := by
  unfold Rmnet.rmnetFragTrim
  split
  · rename_i h
    exact iff_of_true rfl h
  · rename_i h
    split
    · exact iff_of_false nofun h
    · exact iff_of_false nofun h

/-- Neither knows headers that were not there. -/
theorem hdrsValid_pull {size : ℕ} {d' : FragDescriptor} (h : Rmnet.rmnetFragPull d size = some d') :
    d'.hdrsValid = d.hdrsValid := by
  unfold Rmnet.rmnetFragPull at h
  split at h
  · cases h
  · obtain rfl := Option.some.inj h
    rfl

theorem hdrsValid_trim {size : ℕ} {d' : FragDescriptor} (h : Rmnet.rmnetFragTrim d size = some d') :
    d'.hdrsValid = d.hdrsValid := by
  unfold Rmnet.rmnetFragTrim at h
  split at h
  · cases h
  · split at h
    · obtain rfl := Option.some.inj h
      rfl
    · obtain rfl := Option.some.inj h
      rfl

theorem strip_spec (size len : ℕ) : Triple (Owes (t :: held) ok) (stripPacket t d size len)
    fun r s => match r with
      | none => (d.len ≤ size ∨ len = 0) ∧ Gone t held ok s
      | some list => ¬ (d.len ≤ size ∨ len = 0) ∧
          (∃ d', list = [(t, d')] ∧ d'.hdrsValid = d.hdrsValid) ∧ Owes (t :: held) ok s := by
  refine (pull_spec size).bind fun r => Triple.intro fun hr => ?_
  cases r with
  | none =>
    exact Triple.pure fun s hs => ⟨.inl (pull_eq_none.1 hr.symm), hs.1 rfl⟩
  | some d' =>
    have hpull : ¬ d.len ≤ size := fun hle => by cases hr.trans (pull_eq_none.2 hle)
    refine ((trim_spec len).of_pre fun s hs => hs.2 nofun).bind fun r =>
      Triple.intro fun htrim => ?_
    cases r with
    | none => exact Triple.pure fun s hs => ⟨.inr (trim_eq_none.1 htrim.symm), hs.1 rfl⟩
    | some d'' =>
      have hlen : len ≠ 0 := fun h0 => by cases htrim.trans (trim_eq_none.2 h0)
      refine Triple.pure fun s hs => ⟨not_or.2 ⟨hpull, hlen⟩, ⟨d'', rfl, ?_⟩, hs.2 nofun⟩
      rw [hdrsValid_trim htrim.symm, hdrsValid_pull hr.symm]

/-! ## Delivery -/

/-- The headers of a packet are in it. -/
def Fits (d : FragDescriptor) : Prop :=
  d.hdrsValid = true → (d.ipLen + d.transLen) % 2 ^ 16 ≤ d.len

/-- What a function leaves to be given back, and what it says about the books. -/
def Leaves (w : Answers) (held : List ℕ) (wrong ok : Prop) (s : Pool) : Prop :=
  ∃ ok', Owes held ok' s ∧ Fails w.Good wrong ok ok'

theorem Leaves.mono {wrong wrong' : Prop} {s : Pool} (h : Leaves w held wrong ok s)
    (hle : wrong → wrong') (htold : w.Good → wrong' → wrong) : Leaves w held wrong' ok s := by
  obtain ⟨ok', hs, hf⟩ := h
  exact ⟨ok', hs, hf.mono hle htold⟩

/-- One function after another. -/
theorem leaves_seq {α β : Type} {x : Run α} {f : α → Run β} {held' : α → List ℕ}
    {wrong wrong' : Prop} {P : Pool → Prop} {held'' : β → List ℕ}
    (hx : Triple P x fun a => Leaves w (held' a) wrong ok)
    (hf : ∀ a ok', Triple (Owes (held' a) ok') (f a) fun b => Leaves w (held'' b) wrong' ok') :
    Triple P (x >>= f) fun b => Leaves w (held'' b) (wrong ∨ wrong') ok := by
  refine hx.bind fun a => Triple.intro_exists fun ok' s hs => ?_
  obtain ⟨ok'', hs', hf'⟩ := hf a ok' s hs.1
  exact ⟨ok'', hs', hs.2.trans hf'⟩

theorem allocSkb_spec : Triple (Owes (t :: held) ok) (rmnetAllocSkb w t d) fun _ s =>
    (w.Good → Fits d) ∧ Owes (t :: held) ok s ∨ ¬ Fits d ∧ Gone t held ok s := by
  refine alloc_spec.bind fun b => Triple.intro fun hb => ?_
  cases b with
  | false => exact Triple.pure fun s hs => .inl ⟨fun hw => absurd hw (hb rfl), hs⟩
  | true =>
    show Triple _ (if (d.hdrsValid && decide ((d.ipLen + d.transLen) % 2 ^ 16 ≠ d.len)) = true
      then discard (rmnetFragPull t d ((d.ipLen + d.transLen) % 2 ^ 16)) else pure ()) _
    split
    · rename_i hvalid
      rw [Bool.and_eq_true, decide_eq_true_eq] at hvalid
      refine (pull_spec _).bind fun r => Triple.intro fun hr => Triple.pure fun s hs => ?_
      by_cases hle : d.len ≤ (d.ipLen + d.transLen) % 2 ^ 16
      · have hnot : ¬ Fits d := fun hfits =>
          hvalid.2 (Nat.le_antisymm (hfits hvalid.1) hle)
        exact .inr ⟨hnot, hs.1 (hr.trans (pull_eq_none.2 hle))⟩
      · refine .inl ⟨fun _ _ => Nat.le_of_not_le hle, hs.2 fun h0 => hle ?_⟩
        exact pull_eq_none.1 (hr.symm.trans h0)
    · rename_i hvalid
      refine Triple.pure fun s hs => .inl ⟨fun _ h => ?_, hs⟩
      rw [h, Bool.true_and, decide_eq_true_eq, not_not] at hvalid
      exact Nat.le_of_eq hvalid

theorem deliver_spec (x : Taken) : Triple (Owes (x.1 :: held) ok) (rmnetFragDeliver w x)
    fun _ => Leaves w held (¬ Fits x.2) ok := by
  refine allocSkb_spec.bind fun _ => Triple.or (Triple.intro fun hfits => ?_)
    (Triple.intro fun hnot => ?_)
  · refine recycle_spec.mono fun _ s hs => ⟨ok, hs.1, id, fun h _ => h, fun hw _ => ?_⟩
    exact not_not.2 (hfits hw)
  · exact recycle_gone.mono fun _ s hs => ⟨False, hs, .always hnot⟩

theorem deliverAll_spec (list : List Taken) :
    Triple (Owes (list.map Prod.fst ++ held) ok) (deliverAll w list)
      fun _ => Leaves w held (∃ x ∈ list, ¬ Fits x.2) ok := by
  induction list generalizing ok with
  | nil => exact Triple.pure fun s hs => ⟨ok, hs, .fine fun ⟨x, hx, _⟩ => nomatch hx⟩
  | cons x list ih =>
    refine (leaves_seq (deliver_spec x) fun _ ok' => ih).mono fun _ s hs => hs.mono ?_ ?_
    · exact (List.exists_mem_cons_iff (fun y : Taken => ¬ Fits y.2) x list).2
    · exact fun _ => (List.exists_mem_cons_iff (fun y : Taken => ¬ Fits y.2) x list).1

theorem dispatch_spec (priority : ℕ) (list : List Taken) :
    Triple (Owes (list.map Prod.fst ++ held) ok) (dispatch w priority list)
      fun _ => Leaves w held (∃ x ∈ list, ¬ Fits x.2) ok := by
  unfold dispatch
  split
  · exact deliverAll_spec list
  · refine hook_spec.bind fun b => Triple.intro fun hb => ?_
    cases b with
    | true => exact (offloadAll_spec list).mono fun _ s hs => ⟨ok, hs, .silent (hb rfl)⟩
    | false => exact deliverAll_spec list

/-! ## Cutting -/

theorem addFragsFrom_spec (dst src : FragDescriptor) (off len : ℕ) :
    Triple (Owes held ok) (rmnetFragDescriptorAddFragsFrom w dst src off len) fun r s =>
      (∀ new, r = some new → Rmnet.rmnetFragDescriptorAddFragsFrom dst src off len = some new) ∧
      Owes held ok s := by
  unfold rmnetFragDescriptorAddFragsFrom
  cases Rmnet.rmnetFragDescriptorAddFragsFrom dst src off len with
  | none => exact Triple.pure fun s hs => ⟨by intros; contradiction, hs⟩
  | some new =>
    refine (allocFragments_spec _).bind fun b => Triple.intro fun _ => ?_
    cases b with
    | false => exact Triple.pure fun s hs => ⟨by intros; contradiction, hs⟩
    | true => exact Triple.pure fun s hs => ⟨fun _ h => h, hs⟩

/-- A segment is the one that is made when there is memory. -/
theorem fillSegment_spec (coal : FragDescriptor) (csumValid : Bool) :
    Triple (Owes held ok) (fillSegment w mem coal csumValid) fun r s =>
      (∀ new, r = some new → Rmnet.fragSegmentData mem coal csumValid = some new) ∧
      Owes held ok s := by
  refine (addFragsFrom_spec _ _ _ _).bind fun r => Triple.intro fun hr => ?_
  cases r with
  | none => exact Triple.pure fun s hs => ⟨by intros; contradiction, hs⟩
  | some new =>
    refine (addFragsFrom_spec _ _ _ _).bind fun r => Triple.intro fun hr' => ?_
    cases r with
    | none => exact Triple.pure fun s hs => ⟨by intros; contradiction, hs⟩
    | some new' =>
      refine Triple.pure fun s hs => ⟨fun x hx => ?_, hs⟩
      simp only [Rmnet.fragSegmentData, hr new rfl, Option.bind_eq_bind, Option.bind_some,
        hr' new' rfl]
      exact hx

/-- Neither the length nor the headers change with the fields of the transport header. -/
theorem fragSegmentTrans_len {coal new : FragDescriptor} {valid : Bool}
    {r : FragDescriptor × Bool} (h : fragSegmentTrans mem coal new valid = some r) :
    r.1.len = new.len ∧ r.1.toPktHeaders = new.toPktHeaders := by
  unfold fragSegmentTrans at h
  split at h
  · obtain ⟨th, -, rfl⟩ := Option.map_eq_some_iff.1 h
    dsimp only
    split
    · exact ⟨rfl, rfl⟩
    · exact ⟨rfl, rfl⟩
  · split at h
    · obtain ⟨uh, -, rfl⟩ := Option.map_eq_some_iff.1 h
      exact ⟨rfl, rfl⟩
    · obtain rfl := Option.some.inj h
      exact ⟨rfl, rfl⟩

theorem fragSegmentIpId_len {coal new r : FragDescriptor}
    (h : fragSegmentIpId mem coal new = some r) :
    r.len = new.len ∧ r.toPktHeaders = new.toPktHeaders := by
  unfold fragSegmentIpId at h
  split at h
  · obtain ⟨iph, -, rfl⟩ := Option.map_eq_some_iff.1 h
    exact ⟨rfl, rfl⟩
  · obtain rfl := Option.some.inj h
    exact ⟨rfl, rfl⟩

/-- A segment has its headers. -/
theorem fragSegmentData_fits {coal new : FragDescriptor} {valid : Bool} (hs : coal.Sized)
    (h : Rmnet.fragSegmentData mem coal valid = some new) : Fits new := by
  unfold Rmnet.fragSegmentData at h
  simp only [Option.bind_eq_bind, Option.bind_eq_some_iff] at h
  obtain ⟨new1, h1, new2, h2, ⟨new3, v⟩, h3, new4, h4, hlast⟩ := h
  obtain rfl := Option.some.inj hlast
  have hle : 0 + (coal.ipLen + coal.transLen) ≤ coal.len := by
    unfold Rmnet.rmnetFragDescriptorAddFragsFrom at h1
    split at h1
    · cases h1
    · omega
  obtain ⟨frags, hnew1, -, hlen1⟩ := addFragsFrom_eq mem { coal with frags := [], len := 0 } 0
    (coal.ipLen + coal.transLen) hs hle
  obtain rfl := Option.some.inj (h1.symm.trans hnew1)
  obtain ⟨frags', hadd, -⟩ := addFrags_spec mem
    { coal with frags := [] ++ frags, len := 0 + fragsLen frags } coal.frags
    (coal.ipLen + coal.transLen + coal.dataOffset) (coal.gsoSize * coal.gsoSegs)
  unfold Rmnet.rmnetFragDescriptorAddFragsFrom at h2
  split at h2
  · cases h2
  obtain rfl := hadd.symm.trans (Option.some.inj h2)
  obtain ⟨hlen3, hhdr3⟩ := fragSegmentTrans_len h3
  obtain ⟨hlen4, hhdr4⟩ := fragSegmentIpId_len h4
  intro _
  have hip : new4.ipLen = coal.ipLen := congrArg PktHeaders.ipLen (hhdr4.trans hhdr3)
  have htrans : new4.transLen = coal.transLen := congrArg PktHeaders.transLen (hhdr4.trans hhdr3)
  have hlen : new4.len = 0 + fragsLen frags + fragsLen frags' := hlen4.trans hlen3
  show (new4.ipLen + new4.transLen) % 2 ^ 16 ≤ new4.len
  have hmod := Nat.mod_le (coal.ipLen + coal.transLen) (2 ^ 16)
  rw [hip, htrans]
  omega

/-- The packets cut so far are to be given back, and have their headers. -/
def Listed (held : List ℕ) (ok : Prop) (list : List Taken) (s : Pool) : Prop :=
  (∀ x ∈ list, Fits x.2) ∧ Owes (list.map Prod.fst ++ held) ok s

theorem fragSegmentData_spec {coal : FragDescriptor} (hs : coal.Sized) (csumValid : Bool)
    (list : List Taken) : Triple (Listed held ok list) (fragSegmentData w mem coal csumValid)
      fun r => Listed held ok (list ++ r.toList) := by
  refine Triple.intro fun hlist => get_spec.bind fun r => Triple.intro fun _ => ?_
  have hnone : ∀ s, Owes (list.map Prod.fst ++ held) ok s → Listed held ok (list ++ []) s := by
    intro s hs
    rw [List.append_nil]
    exact ⟨hlist, hs⟩
  cases r with
  | none => exact Triple.pure hnone
  | some t =>
    refine (fillSegment_spec coal csumValid).bind fun r => Triple.intro fun hr => ?_
    cases r with
    | none => exact recycle_spec.bind fun _ => Triple.pure fun s hs => hnone s hs.1
    | some new =>
      refine Triple.pure fun s hs => ⟨fun x hx => ?_, ?_⟩
      · rcases List.mem_append.1 hx with hx | hx
        · exact hlist x hx
        · obtain rfl := List.mem_singleton.1 hx
          exact fragSegmentData_fits ‹_› (hr new rfl)
      · refine Ledger.Kept.perm hs ?_
        rw [List.map_append, List.append_assoc]
        show (t :: (list.map Prod.fst ++ held)).Perm (list.map Prod.fst ++ t :: held)
        exact List.perm_middle.symm

section Loops

variable {emit : CoalMeta → Bool → Run (Option Taken)}
  (hemit : ∀ m valid list, Triple (Listed held ok list) (emit m valid)
    fun r => Listed held ok (list ++ r.toList))

include hemit

theorem segmentData_spec (pktId : ℕ) (csumValid : Bool) (s : CoalMeta × List Taken) :
    Triple (Listed held ok s.2) (segmentData emit pktId csumValid s)
      fun s' => Listed held ok s'.2 := by
  refine (hemit s.1 csumValid s.2).bind fun r => ?_
  cases r with
  | none => exact Triple.pure fun _ hs => by rwa [Option.toList_none, List.append_nil] at hs
  | some x => exact Triple.pure fun _ hs => hs

theorem flushData_spec (pktId : ℕ) (s : CoalMeta × List Taken) :
    Triple (Listed held ok s.2) (flushData emit pktId s) fun s' => Listed held ok s'.2 := by
  unfold flushData
  split
  · exact segmentData_spec hemit pktId true s
  · exact Triple.pure fun _ hs => hs

theorem segmentPacket_spec (gro : Bool) (totalPkt : ℕ) (csumErr : Bool)
    (s : CoalMeta × List Taken) :
    Triple (Listed held ok s.2) (segmentPacket emit gro totalPkt csumErr s)
      fun s' => Listed held ok s'.2 := by
  unfold segmentPacket
  split
  · exact segmentData_spec hemit _ _ (setSegs 1 s)
  · split
    · exact (flushData_spec hemit totalPkt s).bind fun s' =>
        segmentData_spec hemit _ _ (setSegs 1 s')
    · exact Triple.pure fun _ hs => hs

theorem segmentPackets_spec (gro : Bool) (n totalPkt mask : ℕ) (s : CoalMeta × List Taken) :
    Triple (Listed held ok s.2) (segmentPackets emit gro n totalPkt mask s)
      fun r => Listed held ok r.2.2.2 := by
  induction n generalizing totalPkt mask s with
  | zero => exact Triple.pure fun _ hs => hs
  | succ n ih => exact (segmentPacket_spec hemit _ _ _ s).bind fun s' => ih _ _ s'

theorem segmentNlos_spec (gro : Bool) (hlen : ℕ) (nlos : List NlPair) (totalPkt mask : ℕ)
    (s : CoalMeta × List Taken) :
    Triple (Listed held ok s.2) (segmentNlos emit gro hlen nlos totalPkt mask s)
      fun s' => Listed held ok s'.2 := by
  induction nlos generalizing totalPkt mask s with
  | nil => exact Triple.pure fun _ hs => hs
  | cons p nlos ih =>
    unfold segmentNlos
    refine (segmentPackets_spec hemit gro p.numPackets totalPkt mask
      ({ s.1 with gsoSize := (p.pktLen + 2 ^ 16 - hlen % 2 ^ 16) % 2 ^ 16 }, s.2)).bind ?_
    rintro ⟨totalPkt, mask, s'⟩
    exact (flushData_spec hemit totalPkt s').bind fun s'' => ih _ _ s''

end Loops

/-! ## Coalesced frames -/

theorem coalFrame_sized {frame : CoalFrame} (hs : d.Sized) (h : coalFrame mem d = some frame) :
    frame.desc.Sized ∧ frame.desc.hdrsValid = true := by
  unfold coalFrame at h
  simp only [Option.bind_eq_bind, Option.bind_eq_some_iff] at h
  obtain ⟨hdr, -, d', hpull, ⟨page, off⟩, -, headers, -, hlast⟩ := h
  obtain rfl := Option.some.inj hlast
  have hlt : mapHeaderSize + coalHeaderSize < d.len := by
    by_contra hle
    cases hpull.symm.trans (pull_eq_none.2 (Nat.le_of_not_lt hle))
  obtain ⟨frags, heq, -, hsum⟩ := rmnetFragPull_eq mem hs hlt
  obtain rfl := Option.some.inj (hpull.symm.trans heq)
  exact ⟨hsum, rfl⟩

/-- A frame that goes on as it is, with headers that are longer than it. -/
def Overlong (mem : Pages) (d : FragDescriptor) (gro : Bool) : Prop :=
  ∃ frame, coalFrame mem d = some frame ∧ reuses frame gro = true ∧
    frame.desc.len < (frame.desc.ipLen + frame.desc.transLen) % 2 ^ 16

/-- The header of a packet does not depend on how it is to be cut. -/
theorem fits_with (d : FragDescriptor) (csumValid : Bool) (gsoSize gsoSegs : ℕ) :
    Fits { d with csumValid, gsoSize, gsoSegs } ↔ Fits d := Iff.rfl

theorem not_fits_reuse {frame : CoalFrame} {valid : Bool} (hv : frame.desc.hdrsValid = true) :
    ¬ Fits (reuseDescriptor frame.hdr frame.desc valid) ↔
      frame.desc.len < (frame.desc.ipLen + frame.desc.transLen) % 2 ^ 16 := by
  have hiff : Fits frame.desc ↔
      (frame.desc.ipLen + frame.desc.transLen) % 2 ^ 16 ≤ frame.desc.len :=
    ⟨fun h => h hv, fun h _ => h⟩
  rw [reuseDescriptor, fits_with, hiff, Nat.not_le]

theorem overlong_iff {frame : CoalFrame} {gro : Bool} (h : coalFrame mem d = some frame) :
    Overlong mem d gro ↔ reuses frame gro = true ∧
      frame.desc.len < (frame.desc.ipLen + frame.desc.transLen) % 2 ^ 16 := by
  constructor
  · rintro ⟨frame', h', hr⟩
    obtain rfl := Option.some.inj (h.symm.trans h')
    exact hr
  · exact fun hr => ⟨frame, h, hr⟩

/-- What is left of a frame: it is the list, or it is still to be given back. -/
def Cut (t : ℕ) (held : List ℕ) (ok : Prop) (list : List Taken) (s : Pool) : Prop :=
  list.head?.map Prod.fst = some t ∧ Owes (list.map Prod.fst ++ held) ok s ∨
  list.head?.map Prod.fst ≠ some t ∧ Owes (list.map Prod.fst ++ t :: held) ok s

/-- A list of new descriptors does not begin with the old one. -/
theorem Cut.of_owes {list : List Taken} {s : Pool}
    (h : Owes (list.map Prod.fst ++ t :: held) ok s) : Cut t held ok list s := by
  refine .inr ⟨fun hhead => ?_, h⟩
  have hmem : t ∈ list.map Prod.fst := by
    rw [← List.head?_map] at hhead
    exact List.mem_of_mem_head? hhead
  exact (List.nodup_append.1 h.nodup).2.2 t hmem t List.mem_cons_self rfl

theorem segmentCoalData_spec (hs : d.Sized) (hlen : mapHeaderSize + coalHeaderSize ≤ d.len)
    (mask : ℕ) (gro : Bool) :
    Triple (Owes (t :: held) ok) (rmnetFragSegmentCoalData w K mem t d mask gro) fun list s =>
      d.len ≤ mapHeaderSize + coalHeaderSize ∧ list = [] ∧ Gone t held ok s ∨
      ¬ d.len ≤ mapHeaderSize + coalHeaderSize ∧
        ((∃ x ∈ list, ¬ Fits x.2) ↔ Overlong mem d gro) ∧ Cut t held ok list s := by
  have hcopy : ∃ b, rmnetFragCopyData mem d mapHeaderSize coalHeaderSize = some b := by
    unfold rmnetFragCopyData
    rw [if_neg (by omega)]
    exact ⟨_, rfl⟩
  obtain ⟨b, hb⟩ := hcopy
  unfold rmnetFragSegmentCoalData
  rw [hb]
  refine (pull_spec _).bind fun r => Triple.intro fun hr => ?_
  cases r with
  | none =>
    exact Triple.pure fun s hs => .inl ⟨pull_eq_none.1 hr.symm, rfl, hs.1 rfl⟩
  | some d' =>
    have hlt : ¬ d.len ≤ mapHeaderSize + coalHeaderSize := fun hle => by
      cases hr.trans (pull_eq_none.2 hle)
    refine Triple.of_pre ?_ fun s hs => hs.2 nofun
    cases hframe : coalFrame mem d with
    | none =>
      refine Triple.pure fun s hs => .inr ⟨hlt, iff_of_false ?_ ?_, Cut.of_owes hs⟩
      · exact fun ⟨x, hx, _⟩ => nomatch hx
      · rintro ⟨frame, hf, -⟩
        cases hframe.symm.trans hf
    | some frame =>
      obtain ⟨hsized, hvalid⟩ := coalFrame_sized hs hframe
      rw [overlong_iff hframe]
      have hreuse : reuses frame gro = true → ∀ valid s, Owes (t :: held) ok s →
          ((∃ x ∈ [(t, reuseDescriptor frame.hdr frame.desc valid)], ¬ Fits x.2) ↔
            reuses frame gro = true ∧
              frame.desc.len < (frame.desc.ipLen + frame.desc.transLen) % 2 ^ 16) ∧
          Cut t held ok [(t, reuseDescriptor frame.hdr frame.desc valid)] s := by
        intro hr valid s hs
        refine ⟨?_, .inl ⟨rfl, hs⟩⟩
        rw [← @not_fits_reuse frame valid hvalid, and_iff_right hr]
        constructor
        · rintro ⟨x, hx, hnot⟩
          obtain rfl := List.mem_singleton.1 hx
          exact hnot
        · exact fun hnot => ⟨_, List.mem_singleton_self _, hnot⟩
      obtain ⟨hdr, headers, coal⟩ := frame
      show Triple _ (if (rmnetMapV5CsumBuggy hdr && !headers.zeroCsum) = true then
          pure [(t, reuseDescriptor hdr coal (coal.csumValid || rmnetFragValidateCsum K mem coal))]
        else if (gro && headers.plain && hdr.numNlos == 1 && hdr.csumValid) = true then
          pure [(t, reuseDescriptor hdr coal true)]
        else _) _
      split
      · rename_i hbuggy
        refine Triple.pure fun s hs => .inr ⟨hlt, hreuse ?_ _ s hs⟩
        rw [reuses, hbuggy, Bool.true_or]
      · rename_i hnot
        split
        · rename_i hfast
          refine Triple.pure fun s hs => .inr ⟨hlt, hreuse ?_ _ s hs⟩
          rw [reuses, hfast, Bool.or_true]
        · rename_i hslow
          have hno : reuses ⟨hdr, headers, coal⟩ gro = false := by
            rw [reuses, Bool.or_eq_false_iff]
            exact ⟨Bool.eq_false_iff.2 hnot, Bool.eq_false_iff.2 hslow⟩
          refine ((segmentNlos_spec (fun m valid list =>
            @fragSegmentData_spec w (t :: held) ok mem { coal with toCoalMeta := m } hsized valid
              list) _ _ _ _ _ (coal.toCoalMeta, [])).of_pre fun s hs =>
                ⟨by intros; contradiction, hs⟩).bind
            fun r => ?_
          refine Triple.pure fun s hl => .inr ⟨hlt, iff_of_false ?_ ?_, Cut.of_owes hl.2⟩
          · exact fun ⟨x, hx, hnot⟩ => hnot (hl.1 x hx)
          · rw [hno]
            exact fun h => nomatch h.1

/-! ## One packet -/

/-- The v5 header makes the descriptor be given back twice: the frame ends with the header or
    goes on with headers that are longer than it, or all of the packet is padding. -/
def DoubledNext (mem : Pages) (dev : Dev) (d : FragDescriptor) (len : ℕ) : Prop :=
  ∃ hdr, rmnetFragHeaderPtr mem d mapHeaderSize csumHeaderSize = some hdr ∧
    (headerType hdr = RMNET_MAP_HEADER_TYPE_COALESCING ∧
      rmnetFragDataCheckCoalHeader mem d ≠ none ∧
      (d.len ≤ mapHeaderSize + coalHeaderSize ∨ Overlong mem d dev.gro) ∨
    headerType hdr = RMNET_MAP_HEADER_TYPE_CSUM_OFFLOAD ∧
      (d.len ≤ mapHeaderSize + csumHeaderSize ∨ len = 0))

section Next

variable {dev : Dev} {hdr : List UInt8} {len : ℕ}
  (hptr : rmnetFragHeaderPtr mem d mapHeaderSize csumHeaderSize = some hdr)

include hptr

theorem doubledNext_coal (htype : headerType hdr = RMNET_MAP_HEADER_TYPE_COALESCING) :
    DoubledNext mem dev d len ↔ rmnetFragDataCheckCoalHeader mem d ≠ none ∧
      (d.len ≤ mapHeaderSize + coalHeaderSize ∨ Overlong mem d dev.gro) := by
  constructor
  · rintro ⟨hdr', hptr', ⟨-, h⟩ | ⟨hother, -⟩⟩
    · exact h
    · obtain rfl := Option.some.inj (hptr.symm.trans hptr')
      cases htype.symm.trans hother
  · exact fun h => ⟨hdr, hptr, .inl ⟨htype, h⟩⟩

theorem doubledNext_csum (htype : headerType hdr = RMNET_MAP_HEADER_TYPE_CSUM_OFFLOAD) :
    DoubledNext mem dev d len ↔ d.len ≤ mapHeaderSize + csumHeaderSize ∨ len = 0 := by
  constructor
  · rintro ⟨hdr', hptr', ⟨hother, -⟩ | ⟨-, h⟩⟩
    · obtain rfl := Option.some.inj (hptr.symm.trans hptr')
      cases htype.symm.trans hother
    · exact h
  · exact fun h => ⟨hdr, hptr, .inr ⟨htype, h⟩⟩

theorem not_doubledNext (hcoal : headerType hdr ≠ RMNET_MAP_HEADER_TYPE_COALESCING)
    (hcsum : headerType hdr ≠ RMNET_MAP_HEADER_TYPE_CSUM_OFFLOAD) :
    ¬ DoubledNext mem dev d len := by
  rintro ⟨hdr', hptr', ⟨h, -⟩ | ⟨h, -⟩⟩
  · obtain rfl := Option.some.inj (hptr.symm.trans hptr')
    exact hcoal h
  · obtain rfl := Option.some.inj (hptr.symm.trans hptr')
    exact hcsum h

end Next

/-- What becomes of a packet with a v5 header: without a list its descriptor is still to be
    given back, or was given back already. -/
def Processed (w : Answers) (t : ℕ) (held : List ℕ) (doubled ok : Prop) :
    Option (List Taken) → Pool → Prop
  | none, s => ¬ doubled ∧ Owes (t :: held) ok s ∨ doubled ∧ Gone t held ok s
  | some list, s => ∃ wrong, (wrong ∨ (∃ x ∈ list, ¬ Fits x.2) ↔ doubled) ∧
      Leaves w (list.map Prod.fst ++ held) wrong ok s

theorem coalHeader_len {mask : ℕ} (h : rmnetFragDataCheckCoalHeader mem d = some mask) :
    mapHeaderSize + coalHeaderSize ≤ d.len := by
  obtain ⟨b, hb, -⟩ := Option.bind_eq_some_iff.1 h
  unfold rmnetFragHeaderPtr at hb
  split at hb
  · cases hb
  · omega

/-- A descriptor that is not the first of the list is given back. -/
theorem processCoal_spec (hs : d.Sized) (hlen : mapHeaderSize + coalHeaderSize ≤ d.len)
    (mask : ℕ) (gro : Bool) :
    Triple (Owes (t :: held) ok) (do
        let list ← rmnetFragSegmentCoalData w K mem t d mask gro
        if list.head?.map Prod.fst ≠ some t then rmnetRecycleFragDescriptor t
        pure (some list))
      (Processed w t held (d.len ≤ mapHeaderSize + coalHeaderSize ∨ Overlong mem d gro) ok) := by
  refine (segmentCoalData_spec hs hlen mask gro).bind fun list => ?_
  have hcases : ∀ {P : Pool → Prop},
      (list.head?.map Prod.fst ≠ some t → Triple P (rmnetRecycleFragDescriptor t)
        fun _ => Processed w t held (d.len ≤ mapHeaderSize + coalHeaderSize ∨
          Overlong mem d gro) ok (some list)) →
      (list.head?.map Prod.fst = some t → ∀ s, P s → Processed w t held
        (d.len ≤ mapHeaderSize + coalHeaderSize ∨ Overlong mem d gro) ok (some list) s) →
      Triple P (do
        if list.head?.map Prod.fst ≠ some t then rmnetRecycleFragDescriptor t
        pure (some list)) (Processed w t held (d.len ≤ mapHeaderSize + coalHeaderSize ∨
          Overlong mem d gro) ok) := by
    intro P hne heq
    split
    · exact (hne ‹_›).bind fun _ => Triple.pure fun _ hs => hs
    · exact Triple.pure (heq (not_not.1 ‹_›))
  refine Triple.or (Triple.intro fun hle => Triple.intro fun hnil => ?_)
    (Triple.intro fun hlt => Triple.intro fun hover => ?_)
  · subst hnil
    refine hcases (fun _ => recycle_gone.mono fun _ s hs => ?_) (fun h => nomatch h)
    exact ⟨True, iff_of_true (.inl trivial) (.inl hle), False, hs, .always trivial⟩
  · have hwrong : False ∨ (∃ x ∈ list, ¬ Fits x.2) ↔
        d.len ≤ mapHeaderSize + coalHeaderSize ∨ Overlong mem d gro := by
      rw [hover, false_or, or_iff_right hlt]
    refine hcases (fun hne => ?_) fun heq s hc => ?_
    · intro s hc
      have howes := (hc.resolve_left fun h => hne h.1).2
      have hgiven := recycle_spec s (Ledger.Kept.perm howes List.perm_middle)
      exact ⟨False, hwrong, ok, hgiven.1, .fine id⟩
    · have howes := (hc.resolve_right fun h => h.1 heq).2
      exact ⟨False, hwrong, ok, howes, .fine id⟩

theorem processNextHdr_spec (hs : d.Sized) (hv : d.hdrsValid = false) (dev : Dev) (len : ℕ) :
    Triple (Owes (t :: held) ok) (rmnetFragProcessNextHdrPacket w K mem dev t d len)
      (Processed w t held (DoubledNext mem dev d len) ok) := by
  unfold rmnetFragProcessNextHdrPacket
  cases hptr : rmnetFragHeaderPtr mem d mapHeaderSize csumHeaderSize with
  | none =>
    refine Triple.pure fun s hs => .inl ⟨?_, hs⟩
    rintro ⟨hdr, hhdr, -⟩
    cases hptr.symm.trans hhdr
  | some hdr =>
    dsimp only
    split
    · rename_i hcoal
      rw [doubledNext_coal hptr hcoal]
      cases hcheck : rmnetFragDataCheckCoalHeader mem d with
      | none => exact Triple.pure fun s hs => .inl ⟨fun h => h.1 rfl, hs⟩
      | some mask =>
        simp only [ne_eq, reduceCtorEq, not_false_eq_true, true_and]
        exact processCoal_spec hs (coalHeader_len hcheck) mask dev.gro
    · rename_i hcoal
      split
      · rename_i hcsum
        rw [doubledNext_csum hptr hcsum]
        refine (strip_spec _ len).mono fun r s hr => ?_
        cases r with
        | none => exact .inr hr
        | some list =>
          obtain ⟨hnot, ⟨d', rfl, hvalid⟩, hs⟩ := hr
          refine ⟨False, iff_of_false ?_ hnot, ok, hs, .fine id⟩
          rintro (hf | ⟨x, hx, hfits⟩)
          · exact hf
          · obtain rfl := List.mem_singleton.1 hx
            exact hfits fun h => nomatch h.symm.trans (hvalid.trans hv)
      · rename_i hcsum
        exact Triple.pure fun s hs => .inl ⟨not_doubledNext hptr hcoal hcsum, hs⟩

/-- **A packet whose descriptor is given back twice**: one for a device, with a v5 header. -/
def Doubled (mem : Pages) (port : Port) (d : FragDescriptor) : Prop :=
  ∃ maph dev, rmnetFragHeaderPtr mem d 0 mapHeaderSize = some maph ∧ cdBit maph = false ∧
    mapMuxId maph < RMNET_MAX_LOGICAL_EP ∧ port.endpoint (mapMuxId maph) = some dev ∧
    (mapNextHdr maph && v5Format port.dataFormat) = true ∧
    DoubledNext mem dev d (packetLen maph)

theorem ingressPacket_spec (hs : d.Sized) (hv : d.hdrsValid = false) (port : Port) (dev : Dev)
    (maph : List UInt8) :
    Triple (Owes (t :: held) ok) (ingressPacket w K mem port dev maph t d) fun _ =>
      Leaves w held ((mapNextHdr maph && v5Format port.dataFormat) = true ∧
        DoubledNext mem dev d (packetLen maph)) ok := by
  unfold ingressPacket
  split
  · rename_i hnext
    rw [hnext]
    simp only [true_and]
    refine (processNextHdr_spec hs hv dev _).bind fun r => ?_
    cases r with
    | none =>
      refine Triple.or (Triple.intro fun hnot => ?_) (Triple.intro fun hd => ?_)
      · exact recycle_spec.mono fun _ s hs => ⟨ok, hs.1, .fine hnot⟩
      · exact recycle_gone.mono fun _ s hs => ⟨False, hs, .always hd⟩
    | some list =>
      refine Triple.intro_exists fun wrong => Triple.intro fun hiff => ?_
      refine Triple.intro_exists fun ok' s hs => ?_
      obtain ⟨ok'', hs', hf⟩ := dispatch_spec d.priority list s hs.1
      rw [← hiff]
      exact ⟨ok'', hs', hs.2.trans hf⟩
  · rename_i hnext
    have hnot : ¬ ((mapNextHdr maph && v5Format port.dataFormat) = true ∧
      DoubledNext mem dev d (packetLen maph)) := fun h => hnext h.1
    refine (strip_spec _ _).bind fun r => ?_
    cases r with
    | none => exact Triple.pure fun s hs => ⟨ok, hs.2.kept, .fine hnot⟩
    | some list =>
      refine Triple.intro fun _ => Triple.intro fun hlist => ?_
      obtain ⟨d', rfl, hvalid⟩ := hlist
      refine (dispatch_spec d.priority [(t, d')]).mono fun _ s hs => hs.mono ?_ fun _ h =>
        absurd h hnot
      rintro ⟨x, hx, hfits⟩
      obtain rfl := List.mem_singleton.1 hx
      exact absurd (fun h => nomatch h.symm.trans (hvalid.trans hv)) hfits

theorem doubled_iff {port : Port} {maph : List UInt8}
    (hptr : rmnetFragHeaderPtr mem d 0 mapHeaderSize = some maph) :
    Doubled mem port d ↔ cdBit maph = false ∧ mapMuxId maph < RMNET_MAX_LOGICAL_EP ∧
      ∃ dev, port.endpoint (mapMuxId maph) = some dev ∧
        (mapNextHdr maph && v5Format port.dataFormat) = true ∧
        DoubledNext mem dev d (packetLen maph) := by
  constructor
  · rintro ⟨maph', dev, h, hcd, hmux, hep, hnext⟩
    obtain rfl := Option.some.inj (hptr.symm.trans h)
    exact ⟨hcd, hmux, dev, hep, hnext⟩
  · rintro ⟨hcd, hmux, dev, hep, hnext⟩
    exact ⟨maph, dev, hptr, hcd, hmux, hep, hnext⟩

/-- **One packet**: its descriptor is given back once, unless it is `Doubled`. -/
theorem ingressOne_spec (port : Port) (x : Taken) (hs : x.2.Sized) (hv : x.2.hdrsValid = false) :
    Triple (Owes (x.1 :: held) ok) (ingressOne w K mem port x)
      fun _ => Leaves w held (Doubled mem port x.2) ok := by
  obtain ⟨t, d⟩ := x
  have hrecycle : ¬ Doubled mem port d → Triple (Owes (t :: held) ok)
      (rmnetRecycleFragDescriptor t) fun _ => Leaves w held (Doubled mem port d) ok :=
    fun hnot => recycle_spec.mono fun _ s hs => ⟨ok, hs.1, .fine hnot⟩
  unfold ingressOne
  dsimp only
  cases hptr : rmnetFragHeaderPtr mem d 0 mapHeaderSize with
  | none =>
    refine hrecycle ?_
    rintro ⟨maph, dev, h, -⟩
    cases hptr.symm.trans h
  | some maph =>
    rw [doubled_iff hptr] at hrecycle ⊢
    dsimp only
    split
    · rename_i hcd
      exact hrecycle fun h => nomatch hcd.symm.trans h.1
    · rename_i hcd
      split
      · rename_i hmux
        exact hrecycle fun h => Nat.not_lt_of_le hmux h.2.1
      · rename_i hmux
        cases hep : port.endpoint (mapMuxId maph) with
        | none =>
          rw [hep] at hrecycle
          exact hrecycle fun ⟨_, _, dev, h, _⟩ => nomatch h
        | some dev =>
          refine (ingressPacket_spec hs hv port dev maph).mono fun _ s hl => hl.mono ?_ ?_
          · exact fun hnext => ⟨Bool.eq_false_iff.2 hcd, Nat.lt_of_not_le hmux, dev, rfl, hnext⟩
          · rintro - ⟨-, -, dev', hdev, hnext⟩
            obtain rfl := Option.some.inj hdev
            exact hnext

theorem ingressAll_spec (port : Port) (list : List Taken)
    (hlist : ∀ x ∈ list, x.2.Sized ∧ x.2.hdrsValid = false) :
    Triple (Owes (list.map Prod.fst ++ held) ok) (ingressAll w K mem port list)
      fun _ => Leaves w held (∃ x ∈ list, Doubled mem port x.2) ok := by
  induction list generalizing ok with
  | nil => exact Triple.pure fun s hs => ⟨ok, hs, .fine fun ⟨x, hx, _⟩ => nomatch hx⟩
  | cons x list ih =>
    obtain ⟨hs, hv⟩ := hlist x List.mem_cons_self
    refine (leaves_seq (ingressOne_spec port x hs hv) fun _ ok' =>
      ih fun y hy => hlist y (List.mem_cons_of_mem _ hy)).mono fun _ s h => h.mono ?_ ?_
    · exact (List.exists_mem_cons_iff (fun y : Taken => Doubled mem port y.2) x list).2
    · exact fun _ => (List.exists_mem_cons_iff (fun y : Taken => Doubled mem port y.2) x list).1

/-! ## Deaggregation -/

section Deaggregate

variable {skb : Skb} {dataFormat : UInt32} {start : ℕ}

/-- **What costs a descriptor**: a MAP header with nothing behind it, where there is a type
    byte to be copied. -/
def LeftBehind (dataFormat : UInt32) (bytes : List UInt8) : Prop :=
  bytes.length = mapHeaderSize ∧ mapPktLen bytes ≠ 0 ∧ cksumV4Format dataFormat = false ∧
    v5Format dataFormat = true ∧ cdBit bytes = false

theorem leftBehind_iff {bytes : List UInt8} (hlen : mapHeaderSize ≤ bytes.length)
    (hpkt : mapPktLen bytes ≠ 0) :
    LeftBehind dataFormat bytes ↔
      (if cksumV4Format dataFormat then some csumTrailerSize
      else if v5Format dataFormat && !cdBit bytes then bytes[mapHeaderSize]?.map v5HeaderSize
      else some 0) = none := by
  unfold LeftBehind
  cases cksumV4Format dataFormat with
  | true => exact iff_of_false (fun h => nomatch h.2.2.1) nofun
  | false =>
    cases v5Format dataFormat with
    | false => exact iff_of_false (fun h => nomatch h.2.2.2.1) nofun
    | true =>
      cases cdBit bytes with
      | true => exact iff_of_false (fun h => nomatch h.2.2.2.2) nofun
      | false =>
        show _ ↔ bytes[mapHeaderSize]?.map v5HeaderSize = none
        rw [Option.map_eq_none_iff, List.getElem?_eq_none_iff]
        exact ⟨fun h => Nat.le_of_eq h.1, fun h => ⟨Nat.le_antisymm h hlen, hpkt, rfl, rfl, rfl⟩⟩

/-- There is no frame there. -/
theorem one_eq_none (hlt : start < skb.len)
    (h : LeftBehind dataFormat ((skb.bytes mem).drop start)) :
    Rmnet.rmnetFragDeaggregateOne mem dataFormat skb start = none := by
  have hflat : flatFrame dataFormat ((skb.bytes mem).drop start) = none := by
    unfold flatFrame
    rw [if_neg (Nat.not_lt_of_le (Nat.le_of_eq h.1.symm)), if_neg h.2.1,
      (leftBehind_iff (Nat.le_of_eq h.1.symm) h.2.1).1 h]
  have hone := deaggregateOne_flat mem dataFormat hlt
  rwa [hflat] at hone

theorem copyFragments_hdrsValid (l : List SkbFrag) (pktLen copyLen : ℕ) (d : FragDescriptor) :
    (copyFragments l pktLen copyLen d).2.hdrsValid = d.hdrsValid := by
  fun_induction copyFragments l pktLen copyLen d with
  | case1 => rfl
  | case2 => rfl
  | case3 _ _ _ _ _ _ _ _ _ ih => exact ih
  | case4 _ _ _ _ _ _ _ _ _ ih => exact ih

/-- A descriptor has the length of its fragments, and its headers are not known. -/
theorem one_fresh (hlt : start < skb.len)
    (h : Rmnet.rmnetFragDeaggregateOne mem dataFormat skb start = some d) :
    d.Sized ∧ d.hdrsValid = false := by
  constructor
  · have hone := deaggregateOne_flat mem dataFormat hlt
    split at hone
    · cases h.symm.trans hone
    · obtain ⟨d', hd', hholds⟩ := hone
      obtain rfl := Option.some.inj (h.symm.trans hd')
      exact hholds.frags
  · unfold Rmnet.rmnetFragDeaggregateOne at h
    simp only [Option.bind_eq_bind, Option.bind_eq_some_iff] at h
    obtain ⟨⟨offset, frag, rest⟩, -, maph, -, h⟩ := h
    split at h
    · cases h
    · obtain ⟨hsize, -, h⟩ := Option.bind_eq_some_iff.1 h
      dsimp only at h
      split at h
      · obtain rfl := Option.some.inj h
        exact copyFragments_hdrsValid _ _ _ _
      · cases h

/-- One turn of the deaggregation loop. -/
theorem deaggregateOne_spec (hlt : start < skb.len) :
    Triple (Owes held ok) (rmnetFragDeaggregateOne w mem dataFormat skb start) fun r s =>
      (∀ x, r = some x → Rmnet.rmnetFragDeaggregateOne mem dataFormat skb start = some x.2) ∧
      (r = none → w.Good → Rmnet.rmnetFragDeaggregateOne mem dataFormat skb start = none) ∧
      Leaves w (r.toList.map Prod.fst ++ held) (LeftBehind dataFormat ((skb.bytes mem).drop start))
        ok s := by
  generalize hb : (skb.bytes mem).drop start = bytes
  unfold rmnetFragDeaggregateOne
  cases hs : startFragment start 0 skb.frags with
  | none =>
    have hle : 0 + fragsLen skb.frags ≤ start :=
      (startFragment_none hs).resolve_right (Nat.not_lt_zero _)
    rw [Nat.zero_add] at hle
    exact absurd hlt (Nat.not_lt_of_le hle)
  | some x =>
    obtain ⟨o, frag, rest⟩ := x
    obtain ⟨-, -, hfrags⟩ := fragsBytes_after mem (Nat.zero_le _) hs
    replace hfrags := hb.symm.trans hfrags
    have hmaph := readBits_eq 0 mapHeaderSize hb hlt hfrags
    have hnext := nextHeaderSize_eq dataFormat hb hlt hfrags
    rw [Nat.zero_add, List.drop_zero] at hmaph
    simp only [Rmnet.rmnetFragDeaggregateOne, hs, Option.bind_eq_bind, Option.bind_some, hmaph]
    by_cases hlen : mapHeaderSize ≤ bytes.length
    · simp only [if_pos hlen, Option.bind_some, mapPktLen_take]
      by_cases hpkt : mapPktLen bytes = 0
      · simp only [if_pos hpkt]
        exact Triple.pure fun s hs =>
          ⟨by intros; contradiction, fun _ _ => trivial, ok, hs, .fine fun h => h.2.1 hpkt⟩
      · simp only [if_neg hpkt]
        refine get_spec.bind fun r => Triple.intro fun hr => ?_
        cases r with
        | none =>
          exact Triple.pure fun s hs =>
            ⟨by intros; contradiction, fun _ hw => absurd hw (hr rfl), ok, hs,
            .silent (hr rfl)⟩
        | some t =>
          rw [leftBehind_iff hlen hpkt, ← hnext]
          dsimp only
          cases nextHeaderSize mem dataFormat skb _ start (bytes.take mapHeaderSize) with
          | none =>
            exact Triple.pure fun s hs =>
              ⟨by intros; contradiction, fun _ _ => rfl, False, Ledger.Kept.drop hs,
              .always rfl⟩
          | some hsize =>
            simp only [Option.bind_some]
            refine (allocFragments_spec _).bind fun b => Triple.intro fun hfrag => ?_
            split
            · rename_i hfits
              rw [Bool.and_eq_true, decide_eq_true_eq] at hfits
              refine Triple.pure fun s hs =>
                ⟨fun x hx => ?_, by intros; contradiction, ok, hs, .fine nofun⟩
              obtain rfl := Option.some.inj hx
              exact if_pos hfits.2
            · rename_i hfits
              refine recycle_spec.bind fun _ => Triple.pure fun s hs =>
                ⟨by intros; contradiction, fun _ hw => if_neg fun h0 => ?_, ok, hs.1, .fine nofun⟩
              have hb : b = true := Bool.eq_true_of_not_eq_false fun hb => hfrag hb hw
              rw [hb, Bool.true_and, decide_eq_true_eq] at hfits
              exact hfits h0
    · simp only [if_neg hlen, Option.bind_none]
      exact Triple.pure fun s hs => ⟨by intros; contradiction, fun _ _ => trivial, ok, hs,
        .fine fun h => hlen (Nat.le_of_eq h.1.symm)⟩

/-- The bytes behind the frames of a buffer that begin at an offset or after it. -/
def leftoverFrom (mem : Pages) (dataFormat : UInt32) (skb : Skb) (start : ℕ) : List UInt8 :=
  (skb.bytes mem).drop
    (start + ((Rmnet.deaggregateFrom mem dataFormat skb start).map FragDescriptor.len).sum)

theorem deaggregateFrom_none
    (h : start < skb.len → Rmnet.rmnetFragDeaggregateOne mem dataFormat skb start = none) :
    Rmnet.deaggregateFrom mem dataFormat skb start = [] := by
  unfold Rmnet.deaggregateFrom
  split
  · rename_i hlt
    split
    · rfl
    · rename_i d hd
      cases hd.symm.trans (h hlt)
  · rfl

theorem deaggregateFrom_some (hlt : start < skb.len)
    (h : Rmnet.rmnetFragDeaggregateOne mem dataFormat skb start = some d) :
    Rmnet.deaggregateFrom mem dataFormat skb start =
      d :: Rmnet.deaggregateFrom mem dataFormat skb (start + d.len) := by
  rw [Rmnet.deaggregateFrom, dif_pos hlt]
  split
  · rename_i hnone
    cases hnone.symm.trans h
  · rename_i d' hd
    obtain rfl := Option.some.inj (hd.symm.trans h)
    rfl

theorem leftoverFrom_nil (h : Rmnet.deaggregateFrom mem dataFormat skb start = []) :
    leftoverFrom mem dataFormat skb start = (skb.bytes mem).drop start := by
  rw [leftoverFrom, h]
  rfl

theorem leftoverFrom_cons
    (h : Rmnet.deaggregateFrom mem dataFormat skb start =
      d :: Rmnet.deaggregateFrom mem dataFormat skb (start + d.len)) :
    leftoverFrom mem dataFormat skb start = leftoverFrom mem dataFormat skb (start + d.len) := by
  rw [leftoverFrom, h, List.map_cons, List.sum_cons, ← Nat.add_assoc]
  rfl

/-- What is to be said of the descriptors that come of a buffer: they are those that come of it
    with memory, or the first of them. -/
def Deaggregated (w : Answers) (mem : Pages) (dataFormat : UInt32) (skb : Skb) (start : ℕ)
    (held : List ℕ) (ok : Prop) (list : List Taken) (s : Pool) : Prop :=
  (list.map Prod.snd <+: Rmnet.deaggregateFrom mem dataFormat skb start ∧
    (w.Good → list.map Prod.snd = Rmnet.deaggregateFrom mem dataFormat skb start)) ∧
  Leaves w (list.map Prod.fst ++ held)
    (LeftBehind dataFormat (leftoverFrom mem dataFormat skb start)) ok s

theorem deaggregated_end {s : Pool} (hle : skb.len ≤ start) (hs : Owes held ok s) :
    Deaggregated w mem dataFormat skb start held ok [] s := by
  have hnil : Rmnet.deaggregateFrom mem dataFormat skb start = [] :=
    deaggregateFrom_none fun hlt => absurd hlt (Nat.not_lt_of_le hle)
  refine ⟨⟨List.nil_prefix, fun _ => hnil.symm⟩, ok, hs, .fine fun h => ?_⟩
  have hlen : (skb.bytes mem).length = skb.len := length_fragsBytes _ _
  have hzero := h.1
  rw [leftoverFrom_nil hnil, List.length_drop, hlen, Nat.sub_eq_zero_of_le hle] at hzero
  cases hzero

/-- There is no frame, or no memory for it. -/
theorem deaggregated_none {s : Pool} (hlt : start < skb.len)
    (hnone : w.Good → Rmnet.rmnetFragDeaggregateOne mem dataFormat skb start = none)
    (hs : Leaves w held (LeftBehind dataFormat ((skb.bytes mem).drop start)) ok s) :
    Deaggregated w mem dataFormat skb start held ok [] s := by
  refine ⟨⟨List.nil_prefix, fun hw => (deaggregateFrom_none fun _ => hnone hw).symm⟩,
    hs.mono (fun h => ?_) fun hw h => ?_⟩
  · rwa [leftoverFrom_nil (deaggregateFrom_none fun _ => one_eq_none hlt h)]
  · rwa [leftoverFrom_nil (deaggregateFrom_none fun _ => hnone hw)] at h

theorem deaggregateFrom_spec (turns : ℕ) (hturns : skb.len ≤ start + turns) :
    Triple (Owes held ok) (deaggregateFrom w mem dataFormat skb turns start)
      (Deaggregated w mem dataFormat skb start held ok) := by
  induction turns generalizing start held ok with
  | zero => exact Triple.pure fun s hs => deaggregated_end hturns hs
  | succ turns ih =>
    unfold deaggregateFrom
    split
    · rename_i hlt
      refine (deaggregateOne_spec hlt).bind fun r => Triple.intro fun hsome =>
        Triple.intro fun hnone => ?_
      cases r with
      | none => exact Triple.pure fun s hs => deaggregated_none hlt (hnone rfl) hs
      | some x =>
        obtain ⟨t, d⟩ := x
        have hd := hsome _ rfl
        have hpos : 0 < d.len := rmnetFragDeaggregateOne_len hlt hd
        have hcons := deaggregateFrom_some hlt hd
        have hnot : ¬ LeftBehind dataFormat ((skb.bytes mem).drop start) := fun h => by
          cases hd.symm.trans (one_eq_none hlt h)
        refine Triple.intro_exists fun ok' => ?_
        refine Triple.bind (Q := fun list s => Deaggregated w mem dataFormat skb (start + d.len)
          (t :: held) ok' list s ∧ Fails w.Good (LeftBehind dataFormat
            ((skb.bytes mem).drop start)) ok ok') (fun s hs => ⟨ih ?_ s hs.1, hs.2⟩) fun list => ?_
        · omega
        · refine Triple.pure fun s hs => ?_
          obtain ⟨⟨⟨hinit, hgood⟩, ok'', howes, hf⟩, hf'⟩ := hs
          rw [Deaggregated, hcons, leftoverFrom_cons hcons]
          refine ⟨⟨List.cons_prefix_cons.2 ⟨rfl, hinit⟩, fun hw => congrArg _ (hgood hw)⟩, ok'',
            Ledger.Kept.perm howes List.perm_middle, (hf'.trans hf).mono ?_ fun _ => .inr⟩
          exact fun h => h.resolve_left hnot
    · rename_i hge
      exact Triple.pure fun s hs => deaggregated_end (Nat.le_of_not_lt hge) hs

theorem deaggregateFrom_fresh (mem : Pages) (dataFormat : UInt32) (skb : Skb) (start : ℕ) :
    ∀ d ∈ Rmnet.deaggregateFrom mem dataFormat skb start, d.Sized ∧ d.hdrsValid = false := by
  fun_induction Rmnet.deaggregateFrom mem dataFormat skb start with
  | case1 => intros; contradiction
  | case2 start hlt d hd ih =>
    intro d' hd'
    rcases List.mem_cons.1 hd' with rfl | hmem
    · exact one_fresh hlt hd
    · exact ih d' hmem
  | case3 => intros; contradiction

end Deaggregate

/-! ## The handler -/

/-- A buffer that costs a descriptor, or has a packet whose descriptor is given back twice. -/
def Upsets (mem : Pages) (port : Port) (skb : Skb) : Prop :=
  LeftBehind port.dataFormat (leftoverFrom mem port.dataFormat skb 0) ∨
  ∃ d ∈ Rmnet.rmnetFragDeaggregate mem port.dataFormat skb, Doubled mem port d

theorem ingressHandler_spec (port : Port) (chain : List Skb) :
    Triple (Owes held ok) (rmnetFragIngressHandler w K mem port chain)
      fun _ => Leaves w held (∃ skb ∈ chain, Upsets mem port skb) ok := by
  induction chain generalizing ok with
  | nil => exact Triple.pure fun s hs => ⟨ok, hs, .fine fun ⟨skb, hskb, _⟩ => nomatch hskb⟩
  | cons skb chain ih =>
    refine (deaggregateFrom_spec skb.len (Nat.le_add_left _ _)).bind fun list =>
      Triple.intro fun hlist => Triple.intro_exists fun ok' s hs => ?_
    have hmem : ∀ x ∈ list, x.2 ∈ Rmnet.rmnetFragDeaggregate mem port.dataFormat skb :=
      fun x hx => hlist.1.subset (List.mem_map_of_mem hx)
    obtain ⟨ok1, hall, hf1⟩ := ingressAll_spec port list
      (fun x hx => deaggregateFrom_fresh mem _ skb 0 x.2 (hmem x hx)) s hs.1
    obtain ⟨ok2, hchain, hf2⟩ := ih _ hall
    refine ⟨ok2, hchain, (hs.2.trans (hf1.trans hf2)).mono ?_ fun hw => ?_⟩
    · rintro (hleft | ⟨x, hx, hd⟩ | ⟨skb', hskb', hup⟩)
      · exact ⟨skb, List.mem_cons_self, .inl hleft⟩
      · exact ⟨skb, List.mem_cons_self, .inr ⟨x.2, hmem x hx, hd⟩⟩
      · exact ⟨skb', List.mem_cons_of_mem _ hskb', hup⟩
    · rintro ⟨skb', hskb', hup⟩
      rcases List.mem_cons.1 hskb' with rfl | hskb'
      · rcases hup with hleft | ⟨d, hd, hdoubled⟩
        · exact .inl hleft
        · rw [Rmnet.rmnetFragDeaggregate, ← hlist.2 hw] at hd
          obtain ⟨x, hx, rfl⟩ := List.mem_map.1 hd
          exact .inr (.inl ⟨x, hx, hdoubled⟩)
      · exact .inr (.inr ⟨skb', hskb', hup⟩)

/-- **The descriptors of a chain of buffers are conserved**, whatever memory there is and
    whatever the hook takes, just if no buffer upsets the books. -/
theorem conserved_iff (K : Csum) (mem : Pages) (port : Port) (chain : List Skb) :
    (∀ w, (rmnetFragIngressHandler w K mem port chain {}).2.Conserved) ↔
      ∀ skb ∈ chain, ¬ Upsets mem port skb := by
  have hrun : ∀ w, Leaves w [] (∃ skb ∈ chain, Upsets mem port skb) True
      (rmnetFragIngressHandler w K mem port chain {}).2 :=
    fun w => ingressHandler_spec port chain {} Ledger.Kept.empty
  constructor
  · intro h skb hskb hup
    obtain ⟨ok, hs, hf⟩ := hrun ⟨fun _ => true, fun _ => false⟩
    exact hf.told ⟨fun _ => rfl, fun _ => rfl⟩ (hs.conserved.1 (h _)) ⟨skb, hskb, hup⟩
  · intro h w
    obtain ⟨ok, hs, hf⟩ := hrun w
    exact hs.conserved.2 (hf.kept trivial fun ⟨skb, hskb, hup⟩ => h skb hskb hup)

/-! ## A packet that is all padding -/

/-- A packet of one byte, which is padding, with a v5 header for its checksum. -/
def allPadding : List UInt8 := [0x41, 1, 0, 1, 4, 0, 0, 0, 0]

def allPaddingPages : Pages := fun _ i => allPadding.getD i 0

def allPaddingSkb : Skb := ⟨[⟨0, 0, 9⟩], 0⟩

def allPaddingPort : Port := ⟨RMNET_PRIV_FLAGS_INGRESS_MAP_CKSUMV5, fun _ => some ⟨false⟩⟩

/-- Its descriptor is given back when nothing is left of it, and once more by the handler. -/
theorem conserved_allPadding :
    ¬ ∀ w, (rmnetFragIngressHandler w inetCsum allPaddingPages allPaddingPort
      [allPaddingSkb] {}).2.Conserved := by
  intro h
  have hc := h ⟨fun _ => true, fun _ => false⟩
  have hgot : (rmnetFragIngressHandler ⟨fun _ => true, fun _ => false⟩ inetCsum allPaddingPages
      allPaddingPort [allPaddingSkb] {}).2 = ⟨2, 0, 1, [0, 0], []⟩ := by
    decide +kernel
  rw [hgot] at hc
  exact absurd (hc 0 (by decide)) (by decide)

end Sm8850.Rmnet.Custody
