/-
  The room in an aggregation buffer.

  * `linearizeCopy` is `rmnet_map_linearize_copy` piece by piece; `linearizeCopy_eq` says that
    it is the copy of the packet as a whole.
  * `copyTarget`: the buffer that a section copies its packet to; without room for it the
    section panics (`rmnetMapTxAggregate_eq_none`).
  * `Overlong`: a buffer of one page is started for a packet that has no room in it, as
    `agg_size` allows that while it is below a page.
  * **`copies_fit_iff`**: in a run all packets that are copied fit just if none is overlong.
-/
import Sm8850.Rmnet.Aggregation

namespace Sm8850.Rmnet

/-! ## The copy -/

/-- A packet as the stack passes it: the linear part and the page fragments.  There is no
    `frag_list`, as the device does not have that feature. -/
structure FragSkb where
  linear : List UInt8
  frags : List (List UInt8)
  size : ℕ
  priority : ℕ

/-- All its bytes. -/
def FragSkb.flat (src : FragSkb) : SkBuff :=
  ⟨src.linear ++ src.frags.flatten, src.size, src.priority⟩

/-- `skb_put_data`, which panics without room. -/
def skbPutData (dst : SkBuff) (piece : List UInt8) : Option SkBuff :=
  if piece.length ≤ skbTailroom dst then some { dst with data := dst.data ++ piece } else none

/-- `rmnet_map_linearize_copy`. -/
def linearizeCopy (dst : SkBuff) (src : FragSkb) : Option SkBuff := do
  let dst ← skbPutData dst src.linear
  src.frags.foldlM skbPutData dst

theorem foldlM_skbPutData (dst : SkBuff) (pieces : List (List UInt8))
    (hdst : dst.len ≤ dst.size) : pieces.foldlM skbPutData dst =
      if pieces.flatten.length ≤ skbTailroom dst then
        some { dst with data := dst.data ++ pieces.flatten }
      else none := by
  induction pieces generalizing dst with
  | nil => simp
  | cons piece pieces ih =>
    rw [List.foldlM_cons, skbPutData]
    unfold skbTailroom SkBuff.len at *
    by_cases hroom : piece.length ≤ dst.size - dst.data.length
    · rw [if_pos hroom, Option.bind_eq_bind, Option.bind_some, ih]
      · simp only [List.flatten_cons, List.length_append, List.append_assoc]
        congr 1
        apply propext
        omega
      · simp only [List.length_append]
        omega
    · rw [if_neg hroom, if_neg]
      · rfl
      · simp only [List.flatten_cons, List.length_append]
        omega

/-- The pieces are copied if there is room for all of them. -/
theorem linearizeCopy_eq (dst : SkBuff) (src : FragSkb) (hdst : dst.len ≤ dst.size) :
    linearizeCopy dst src = rmnetMapLinearizeCopy dst src.flat := by
  have hpieces := foldlM_skbPutData dst (src.linear :: src.frags) hdst
  rwa [List.foldlM_cons] at hpieces

/-! ## Where a packet is copied -/

variable {st : Agg} {skb dst : SkBuff} {port : Port} {e : Env}

/-- A packet that is not aggregated. -/
def Port.urgent (port : Port) (skb : SkBuff) : Bool :=
  port.egressFormatPriority && (rmnetLlm skb.priority || rmnetApsLlb skb.priority)

/-- The buffer that the section copies the packet to, if it does. -/
def copyTarget (st : Agg) (skb : SkBuff) (port : Port) (e : Env) : Option SkBuff :=
  if port.urgent skb then none
  else
    match st.aggSkb with
    | none =>
      if { st with aggLast := e.now }.bypass skb st.aggLast then none
      else rmnetMapBuildSkb st e.page
    | some aggSkb => if { st with aggLast := e.now }.full skb aggSkb then none else some aggSkb

theorem linearizeCopy_eq_none :
    rmnetMapLinearizeCopy dst skb = none ↔ skbTailroom dst < skb.len := by
  unfold rmnetMapLinearizeCopy
  by_cases hroom : skb.len ≤ skbTailroom dst
  · rw [if_pos hroom]
    exact iff_of_false (Option.some_ne_none _) (Nat.not_lt.2 hroom)
  · rw [if_neg hroom]
    exact iff_of_true rfl (Nat.not_le.1 hroom)

/-- The packet starts a buffer, or there is room left for it. -/
theorem mem_copyTarget : dst ∈ copyTarget st skb port e ↔ port.urgent skb = false ∧
    ((st.aggSkb = none ∧ { st with aggLast := e.now }.bypass skb st.aggLast = false ∧
        rmnetMapBuildSkb st e.page = some dst) ∨
      (st.aggSkb = some dst ∧ { st with aggLast := e.now }.full skb dst = false)) := by
  unfold copyTarget
  cases port.urgent skb with
  | true => simp
  | false =>
    cases st.aggSkb with
    | none => simp
    | some aggSkb =>
      simp only [Bool.false_eq_true, if_false, Option.mem_def, true_and, reduceCtorEq, false_and,
        false_or, Option.some.injEq]
      constructor
      · intro h
        split_ifs at h with hfull
        obtain rfl := Option.some.inj h
        exact ⟨rfl, Bool.eq_false_iff.2 hfull⟩
      · rintro ⟨rfl, hfull⟩
        exact if_neg (by rw [hfull]; exact Bool.false_ne_true)

/-- A section goes through if it does not copy, and panics just if the copy does. -/
theorem rmnetMapTxAggregate_copies :
    (copyTarget st skb port e = none ∧ (rmnetMapTxAggregate st skb port e).isSome = true) ∨
      ∃ dst, copyTarget st skb port e = some dst ∧
        ((rmnetMapTxAggregate st skb port e).isSome ↔ (rmnetMapLinearizeCopy dst skb).isSome) := by
  have hbind : ∀ dst (k : SkBuff → Agg × Call),
      (do let aggSkb ← rmnetMapLinearizeCopy dst skb; return k aggSkb).isSome =
        (rmnetMapLinearizeCopy dst skb).isSome := by
    intro dst k
    cases rmnetMapLinearizeCopy dst skb <;> rfl
  unfold rmnetMapTxAggregate copyTarget Port.urgent
  dsimp only
  split
  · exact .inl ⟨rfl, rfl⟩
  · cases hskb : st.aggSkb with
    | none =>
      dsimp only
      split
      · exact .inl ⟨rfl, rfl⟩
      · unfold rmnetMapBuildSkb
        cases e.page with
        | false => exact .inl ⟨rfl, rfl⟩
        | true => exact .inr ⟨_, rfl, by rw [← hbind]; rfl⟩
    | some aggSkb =>
      dsimp only
      split
      · exact .inl ⟨rfl, rfl⟩
      · exact .inr ⟨_, rfl, by rw [← hbind]⟩

/-- **A section panics** just if the packet does not fit where it is copied. -/
theorem rmnetMapTxAggregate_eq_none : rmnetMapTxAggregate st skb port e = none ↔
    ∃ dst ∈ copyTarget st skb port e, skbTailroom dst < skb.len := by
  rcases @rmnetMapTxAggregate_copies st skb port e with ⟨hnone, hsome⟩ | ⟨dst, htarget, hiff⟩
  · rw [hnone]
    refine iff_of_false (fun h => ?_) (by rintro ⟨dst, hdst, -⟩; cases hdst)
    rw [h] at hsome
    cases hsome
  · rw [← Option.not_isSome_iff_eq_none, hiff, Option.not_isSome_iff_eq_none, htarget,
      linearizeCopy_eq_none]
    exact ⟨fun h => ⟨dst, rfl, h⟩, by rintro ⟨dst', hdst', h⟩; cases hdst'; exact h⟩

/-! ## Overlong packets -/

/-- A buffer of a single page is started for a packet that does not fit there. -/
structure Overlong (st : Agg) (skb : SkBuff) (port : Port) (e : Env) : Prop where
  notUrgent : port.urgent skb = false
  start : st.aggSkb = none
  dense : { st with aggLast := e.now }.bypass skb st.aggLast = false
  page : e.page = true
  onePage : st.aggSizeOrder = 0
  long : PAGE_SIZE - sharedInfoSize < skb.len

/-- The size that is configured does not exceed the room, or the buffer has one page. -/
def Roomy (st : Agg) : Prop :=
  st.aggSizeOrder = 0 ∨ st.params.aggSize ≤ PAGE_SIZE <<< st.aggSizeOrder - sharedInfoSize

theorem lt_aggSize_of_dense {last : Timespec} (h : st.bypass skb last = false) :
    skb.len < st.params.aggSize := by
  unfold Agg.bypass at h
  simp only [Bool.or_eq_false_iff, decide_eq_false_iff_not] at h
  omega

theorem room_of_not_full (h : st.full skb dst = false) : skb.len ≤ skbTailroom dst := by
  unfold Agg.full at h
  simp only [Bool.or_eq_false_iff, decide_eq_false_iff_not] at h
  exact Nat.not_lt.1 h.1.1.1

theorem rmnetMapBuildSkb_eq_some {page : Bool} (h : rmnetMapBuildSkb st page = some dst) :
    page = true ∧ skbTailroom dst = PAGE_SIZE <<< st.aggSizeOrder - sharedInfoSize := by
  unfold rmnetMapBuildSkb at h
  split_ifs at h with hpage
  obtain rfl := Option.some.inj h
  exact ⟨hpage, Nat.sub_zero _⟩

/-- What is copied beyond the room is an overlong packet. -/
theorem overflow_iff (hroomy : Roomy st) :
    (∃ dst ∈ copyTarget st skb port e, skbTailroom dst < skb.len) ↔ Overlong st skb port e := by
  constructor
  · rintro ⟨dst, hdst, hlong⟩
    obtain ⟨hurgent, ⟨hstart, hdense, hbuild⟩ | ⟨-, hfull⟩⟩ := mem_copyTarget.1 hdst
    · obtain ⟨hpage, hroom⟩ := rmnetMapBuildSkb_eq_some hbuild
      rw [hroom] at hlong
      rcases hroomy with horder | hle
      · rw [horder] at hlong
        exact ⟨hurgent, hstart, hdense, hpage, horder, hlong⟩
      · have hlt := lt_aggSize_of_dense hdense
        exact absurd hlong (Nat.not_lt.2 (Nat.le_trans (Nat.le_of_lt hlt) hle))
    · exact absurd hlong (Nat.not_lt.2 (room_of_not_full hfull))
  · rintro ⟨hurgent, hstart, hdense, hpage, horder, hlong⟩
    have hbuild : rmnetMapBuildSkb st e.page =
        some ⟨[], PAGE_SIZE <<< st.aggSizeOrder - sharedInfoSize, 0⟩ := if_pos hpage
    refine ⟨_, mem_copyTarget.2 ⟨hurgent, .inl ⟨hstart, hdense, hbuild⟩⟩, ?_⟩
    rw [(rmnetMapBuildSkb_eq_some hbuild).2, horder]
    exact hlong

/-! ## What changes the configuration -/

/-- The configuration is the same. -/
def SameConfig (st st' : Agg) : Prop :=
  st'.params = st.params ∧ st'.aggSizeOrder = st.aggSizeOrder

theorem Roomy.congr {st' : Agg} (h : Roomy st) (hsame : SameConfig st st') : Roomy st' := by
  unfold Roomy
  rw [hsame.1, hsame.2]
  exact h

theorem roomy_init : Roomy Agg.init := .inl rfl

/-- Two pages or more have room for what is below one page. -/
theorem room_of_order {order : ℕ} (h : order ≠ 0) :
    PAGE_SIZE ≤ PAGE_SIZE <<< order - sharedInfoSize := by
  have hpow : 2 ^ 1 ≤ 2 ^ order := Nat.pow_le_pow_right (by omega) (Nat.one_le_iff_ne_zero.2 h)
  rw [Nat.shiftLeft_eq]
  unfold PAGE_SIZE sharedInfoSize
  omega

theorem Roomy.config (st : Agg) (size count features time : ℕ) :
    Roomy (rmnetMapUpdateUlAggConfig st size count features time) := by
  unfold rmnetMapUpdateUlAggConfig
  split_ifs with hsize
  · by_cases horder : st.aggSizeOrder = 0
    · exact .inl horder
    · exact .inr (Nat.le_trans (Nat.le_of_lt hsize) (room_of_order horder))
  · exact .inr (Nat.mod_le _ _)

theorem SameConfig.rfl {st : Agg} : SameConfig st st := ⟨.refl _, .refl _⟩

theorem sameConfig_schedule (st : Agg) : SameConfig st st.schedule := by
  unfold Agg.schedule
  split_ifs
  · exact ⟨rfl, rfl⟩
  · exact .rfl

theorem sameConfig_sendAggSkb (st : Agg) (k : After) :
    SameConfig st (rmnetMapSendAggSkb st k).1 := by
  unfold rmnetMapSendAggSkb
  split
  · exact .rfl
  · exact ⟨rfl, rfl⟩

theorem sameConfig_txQmapCmd (st : Agg) (skb : SkBuff) (port : Port) (flush : Bool) :
    SameConfig st (rmnetMapTxQmapCmd st skb port flush).1 := by
  unfold rmnetMapTxQmapCmd
  split
  · split
    · exact .rfl
    · exact ⟨rfl, rfl⟩
  · exact .rfl

theorem sameConfig_flushTxPacketWork (st : Agg) : SameConfig st (rmnetMapFlushTxPacketWork st) := by
  unfold rmnetMapFlushTxPacketWork
  split
  · split
    · exact ⟨rfl, rfl⟩
    · exact ⟨rfl, rfl⟩
  · exact .rfl

theorem sameConfig_txAggregate {r : Agg × Call} (h : rmnetMapTxAggregate st skb port e = some r) :
    SameConfig st r.1 := by
  unfold rmnetMapTxAggregate at h
  dsimp only at h
  split at h
  · obtain rfl := Option.some.inj h
    exact sameConfig_sendAggSkb { st with aggLast := e.now } _
  · split at h
    · split at h
      · obtain rfl := Option.some.inj h
        exact ⟨rfl, rfl⟩
      · split at h
        · obtain rfl := Option.some.inj h
          exact ⟨rfl, rfl⟩
        · obtain ⟨buf, -, h⟩ := Option.bind_eq_some_iff.1 h
          obtain rfl := Option.some.inj h
          exact sameConfig_schedule _
    · split at h
      · obtain rfl := Option.some.inj h
        exact sameConfig_sendAggSkb { st with aggLast := e.now } _
      · obtain ⟨buf, -, h⟩ := Option.bind_eq_some_iff.1 h
        obtain rfl := Option.some.inj h
        exact sameConfig_schedule _

/-! ## Runs -/

section
variable {τ : Type} [DecidableEq τ] {s s' : Sys τ} {a : Act τ} {t : τ}

/-- Only `rmnet_map_update_ul_agg_config` changes the configuration. -/
theorem step_config (h : step port s a = some s') :
    SameConfig s.agg s'.agg ∨ ∃ size count features time, a = .config size count features time ∧
      s'.agg = rmnetMapUpdateUlAggConfig s.agg size count features time := by
  cases a with
  | enter t c =>
    simp only [step] at h
    split at h
    · split at h
      · obtain rfl := Option.some.inj h
        exact .inl .rfl
      · cases h
    · cases h
  | locked t e =>
    simp only [step] at h
    split at h
    · obtain ⟨r, hr, rfl⟩ := Option.map_eq_some_iff.1 h
      exact .inl (sameConfig_txAggregate hr)
    · obtain rfl := Option.some.inj h
      exact .inl (sameConfig_sendAggSkb _ _)
    · obtain rfl := Option.some.inj h
      exact .inl (sameConfig_txQmapCmd _ _ _ _)
    · cases h
  | hrtimerCancel t =>
    simp only [step] at h
    split at h
    · split at h
      · cases h
      · obtain rfl := Option.some.inj h
        exact .inl ⟨rfl, rfl⟩
    · cases h
  | xmit t =>
    simp only [step] at h
    split at h
    · obtain rfl := Option.some.inj h
      exact .inl ⟨rfl, rfl⟩
    · cases h
  | timerFires =>
    simp only [step] at h
    split at h
    · obtain rfl := Option.some.inj h
      exact .inl ⟨rfl, rfl⟩
    · cases h
  | timerCallback =>
    simp only [step] at h
    split at h
    · obtain rfl := Option.some.inj h
      exact .inl ⟨rfl, rfl⟩
    · cases h
  | workStarts =>
    simp only [step] at h
    split at h
    · obtain rfl := Option.some.inj h
      exact .inl ⟨rfl, rfl⟩
    · cases h
  | workRuns =>
    simp only [step] at h
    split at h
    · obtain rfl := Option.some.inj h
      obtain ⟨hparams, horder⟩ := sameConfig_flushTxPacketWork s.agg
      exact .inl ⟨hparams, horder⟩
    · cases h
  | config size count features time =>
    obtain rfl := Option.some.inj h
    exact .inr ⟨size, count, features, time, rfl, rfl⟩

theorem Roomy.step (hroomy : Roomy s.agg) (h : step port s a = some s') : Roomy s'.agg := by
  rcases step_config h with hsame | ⟨size, count, features, time, -, hconfig⟩
  · exact hroomy.congr hsame
  · rw [hconfig]
    exact .config s.agg size count features time

/-- All steps of a run are as allowed, and so is the one that it ends at if that cannot be
    taken. -/
def Throughout (port : Port) (allowed : Sys τ → Act τ → Prop) : Sys τ → List (Act τ) → Prop
  | _, [] => True
  | s, a :: acts =>
    allowed s a ∧ ∀ s', Rmnet.step port s a = some s' → Throughout port allowed s' acts

/-- What holds of the section that an action is, if it is one of `rmnet_map_tx_aggregate`. -/
def OnTxAggregate (p : Agg → SkBuff → Env → Prop) (s : Sys τ) (a : Act τ) : Prop :=
  ∀ t e skb, a = .locked t e → s.call t = .txAggregate skb → p s.agg skb e

/-- The packet fits where it is copied. -/
def CopyFits (port : Port) (st : Agg) (skb : SkBuff) (e : Env) : Prop :=
  ∀ dst ∈ copyTarget st skb port e, skb.len ≤ skbTailroom dst

theorem copyFits_iff (hroomy : Roomy st) : CopyFits port st skb e ↔ ¬ Overlong st skb port e := by
  rw [← overflow_iff hroomy]
  unfold CopyFits
  simp only [not_exists, not_and, Nat.not_lt]

/-- It is a panic that keeps a packet from being copied. -/
theorem copyFits_iff_locked (h : s.call t = .txAggregate skb) :
    CopyFits port s.agg skb e ↔ (step port s (.locked t e)).isSome = true := by
  rw [← not_iff_not, Option.not_isSome_iff_eq_none]
  simp only [step, h, Option.map_eq_none_iff]
  rw [rmnetMapTxAggregate_eq_none]
  unfold CopyFits
  simp only [not_forall, Nat.not_le, exists_prop]

theorem throughout_congr {p q : Agg → SkBuff → Env → Prop}
    (hpq : ∀ st skb e, Roomy st → (p st skb e ↔ q st skb e)) (hroomy : Roomy s.agg)
    (acts : List (Act τ)) :
    Throughout port (OnTxAggregate p) s acts ↔ Throughout port (OnTxAggregate q) s acts := by
  induction acts generalizing s with
  | nil => exact Iff.rfl
  | cons a acts ih =>
    refine and_congr ?_ (forall_congr' fun s' => imp_congr_right fun hstep => ?_)
    · exact forall_congr' fun t => forall_congr' fun e => forall_congr' fun skb =>
        imp_congr_right fun _ => imp_congr_right fun _ => hpq s.agg skb e hroomy
    · exact ih (hroomy.step hstep)

end

/-- **In a run all packets that are copied fit just if none is overlong.** -/
theorem copies_fit_iff {τ : Type} [DecidableEq τ] (port : Port) (acts : List (Act τ)) :
    Throughout port (OnTxAggregate (CopyFits port)) Sys.init acts ↔
      Throughout port (OnTxAggregate fun st skb e => ¬ Overlong st skb port e) Sys.init acts :=
  throughout_congr (fun _ _ _ => copyFits_iff) roomy_init acts

/-! ## A packet of 4000 bytes -/

/-- The first packet is too late after the last to be aggregated, the second is not. -/
def longPacket : List (Act Unit) :=
  [.enter () (.txAggregate ⟨[], 0, 0⟩), .locked () ⟨⟨1700000000, 0⟩, ⟨0, 0⟩, true⟩,
    .enter () (.txAggregate ⟨List.replicate 4000 0, 4096, 0⟩),
    .locked () ⟨⟨1700000000, 1000⟩, ⟨1700000000, 1100⟩, true⟩]

/-- With the configuration of `rmnet_map_tx_aggregate_init` it does not fit. -/
theorem copies_fit_longPacket :
    ¬ Throughout ⟨false, true⟩ (OnTxAggregate (CopyFits ⟨false, true⟩)) Sys.init longPacket := by
  intro h
  obtain ⟨-, h⟩ := h
  obtain ⟨-, h⟩ := h _ rfl
  obtain ⟨-, h⟩ := h _ rfl
  obtain ⟨hcopy, -⟩ := h _ rfl
  have hfits := hcopy () _ ⟨List.replicate 4000 0, 4096, 0⟩ rfl rfl ⟨[], 3776, 0⟩ ?_
  · rw [SkBuff.len, List.length_replicate] at hfits
    exact absurd hfits (by decide)
  · refine mem_copyTarget.2 ⟨rfl, .inl ⟨rfl, ?_, rfl⟩⟩
    unfold Agg.bypass SkBuff.len
    rw [List.length_replicate]
    decide

end Sm8850.Rmnet
