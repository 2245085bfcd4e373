/-
  Wait counts and the rules that change them.

  * `WaitCount.Sums`: the total is the sum over the links, none of which overflows.
  * `updateWaitCount_apply`, `countDown_apply`: what the two rules make of the count of a link.
  * `Entry.Consistent`: the total is right and the flag goes with it; the rules keep that.
  * `perLinkCount_le`: a calculated count is at most the distance from the host snapshot to
    that of the MAC HW.
  * **`calculateWaitCount_spec`**: what the loop over the links calculates.
-/
import Sm8850.Reo.Lists
import Sm8850.Reo.Assertions
import Mathlib.Algebra.BigOperators.Fin
import Mathlib.Algebra.Order.BigOperators.Group.Finset

namespace Sm8850.Reo

variable {wc old new : WaitCount} {e : Entry} {l link : Link} {n delta : ℕ}

/-! ## Sums -/

/-- The total is the sum of the counts, which are 32-bit numbers. -/
structure WaitCount.Sums (wc : WaitCount) : Prop where
  total : wc.totalCount = ∑ l, wc.perLinkCount l
  fits : ∀ l, wc.perLinkCount l ≤ uintMax

theorem sum_update (f : Link → ℕ) (link : Link) (n : ℕ) :
    ∑ l, Function.update f link n l + f link = ∑ l, f l + n := by
  have hf := Finset.add_sum_erase Finset.univ f (Finset.mem_univ link)
  have hu := Finset.add_sum_erase Finset.univ (Function.update f link n) (Finset.mem_univ link)
  have hsame : ∑ l ∈ Finset.univ.erase link, Function.update f link n l =
      ∑ l ∈ Finset.univ.erase link, f l :=
    Finset.sum_congr rfl fun l hl => Function.update_of_ne (Finset.ne_of_mem_erase hl) ..
  rw [Function.update_self, hsame] at hu
  omega

theorem sum_lt {f : Link → ℕ} (h : ∀ l, f l ≤ uintMax) : ∑ l, f l < 2 ^ 64 := by
  have hle : ∑ l, f l ≤ Finset.univ.card • uintMax :=
    Finset.sum_le_card_nsmul _ _ _ fun l _ => h l
  exact Nat.lt_of_le_of_lt hle (by decide)

theorem WaitCount.Sums.total_lt (h : wc.Sums) : wc.totalCount < 2 ^ 64 := by
  rw [h.total]
  exact sum_lt h.fits

theorem WaitCount.Sums.link_le (h : wc.Sums) (l : Link) : wc.perLinkCount l ≤ wc.totalCount := by
  rw [h.total]
  exact Finset.single_le_sum (fun _ _ => Nat.zero_le _) (Finset.mem_univ l)

theorem WaitCount.Sums.lower (h : wc.Sums) (hn : n ≤ wc.perLinkCount link) :
    (wc.lower link n).Sums := by
  have hsum := sum_update wc.perLinkCount link n
  have hlt := h.total_lt
  have hle := h.link_le link
  refine ⟨?_, fun l => ?_⟩
  · rw [← h.total] at hsum
    simp only [WaitCount.lower]
    omega
  · simp only [WaitCount.lower, Function.update_apply]
    split_ifs
    · exact Nat.le_trans hn (h.fits link)
    · exact h.fits l

theorem WaitCount.Sums.add (h : wc.Sums) (hzero : wc.perLinkCount link = 0) (hn : n ≤ uintMax) :
    (wc.add link n).Sums := by
  have hsum := sum_update wc.perLinkCount link n
  have hfits : ∀ l, (wc.add link n).perLinkCount l ≤ uintMax := by
    intro l
    simp only [WaitCount.add, Function.update_apply]
    split_ifs
    · exact hn
    · exact h.fits l
  have hlt := sum_lt hfits
  refine ⟨?_, hfits⟩
  rw [hzero, ← h.total] at hsum
  simp only [WaitCount.add] at hlt ⊢
  omega

theorem WaitCount.sums_zero : WaitCount.zero.Sums := ⟨by simp [WaitCount.zero], by simp [zero]⟩

/-! ## The rules -/

theorem updateLinkCount_apply : (updateLinkCount new old link).perLinkCount l =
    if l = link then min (old.perLinkCount l) (new.perLinkCount l) else old.perLinkCount l := by
  unfold updateLinkCount
  split_ifs with hne heq heq
  · subst heq
    simp [WaitCount.lower]
  · simp [WaitCount.lower, Function.update_of_ne heq]
  · subst heq
    omega
  · rfl

theorem WaitCount.Sums.updateLinkCount (h : old.Sums) : (updateLinkCount new old link).Sums := by
  unfold Reo.updateLinkCount
  split_ifs
  · exact h.lower (Nat.min_le_left ..)
  · exact h

/-- Each count becomes the lower one of the two. -/
theorem updateWaitCount_apply : (updateWaitCount old new).perLinkCount l =
    min (old.perLinkCount l) (new.perLinkCount l) := by
  have key : ∀ (ls : List Link) (wc : WaitCount),
      (ls.foldl (updateLinkCount new) wc).perLinkCount l =
        if l ∈ ls then min (wc.perLinkCount l) (new.perLinkCount l) else wc.perLinkCount l := by
    intro ls
    induction ls with
    | nil => simp
    | cons link rest ih =>
      intro wc
      rw [List.foldl_cons, ih, updateLinkCount_apply]
      by_cases heq : l = link
      · simp [heq]
      · simp [heq]
  rw [updateWaitCount, key, if_pos (show l ∈ links from List.mem_finRange l)]

theorem WaitCount.Sums.updateWaitCount (h : old.Sums) : (updateWaitCount old new).Sums := by
  unfold Reo.updateWaitCount
  induction links generalizing old with
  | nil => exact h
  | cons link rest ih => exact ih h.updateLinkCount

/-! ## Entries -/

/-- An entry of the ingress list: its total is right, the flag says whether it waits, and it
    is not yet marked for leaving but by the timer. -/
structure Entry.Consistent (e : Entry) : Prop where
  sums : e.waitCount.Sums
  flag : e.flags.waitForFrameOnOtherLinks = true ↔ e.waitCount.totalCount ≠ 0
  overflow : e.flags.ingressListOverflow = false ∧ e.flags.egressListOverflow = false
  queued : e.flags.olderThanReadyToDeliverFrames = false

@[simp] theorem clearWhenZero_waitCount (e : Entry) : e.clearWhenZero.waitCount = e.waitCount := by
  unfold Entry.clearWhenZero
  split_ifs <;> rfl

@[simp] theorem clearWhenZero_snapshots (e : Entry) : e.clearWhenZero.snapshots = e.snapshots := by
  unfold Entry.clearWhenZero
  split_ifs <;> rfl

/-- A rule that lowers the total and then clears the flag leaves an entry consistent. -/
theorem Entry.Consistent.withCount (h : e.Consistent) (hsums : wc.Sums)
    (hle : wc.totalCount ≤ e.waitCount.totalCount) :
    ({ e with waitCount := wc }.clearWhenZero).Consistent := by
  unfold Entry.clearWhenZero
  split_ifs with hzero
  · exact ⟨hsums, by simpa using hzero, h.overflow, h.queued⟩
  · refine ⟨hsums, ?_, h.overflow, h.queued⟩
    dsimp only at hzero ⊢
    rw [h.flag]
    omega

theorem total_le (hwc : wc.Sums) (hold : old.Sums)
    (h : ∀ l, wc.perLinkCount l ≤ old.perLinkCount l) : wc.totalCount ≤ old.totalCount := by
  rw [hwc.total, hold.total]
  exact Finset.sum_le_sum fun l _ => h l

theorem Entry.Consistent.lowerTo (h : e.Consistent) (wc : WaitCount) :
    (e.lowerTo wc).Consistent := by
  have hsums : (updateWaitCount e.waitCount wc).Sums := h.sums.updateWaitCount
  refine h.withCount hsums (total_le hsums h.sums fun l => ?_)
  rw [updateWaitCount_apply]
  exact Nat.min_le_left ..

theorem lowerTo_apply : (e.lowerTo wc).waitCount.perLinkCount l =
    min (e.waitCount.perLinkCount l) (wc.perLinkCount l) := by
  simp [Entry.lowerTo, updateWaitCount_apply]

theorem lowerTo_snapshots : (e.lowerTo wc).snapshots = e.snapshots := by
  simp [Entry.lowerTo]

/-- The clipped difference is the one of natural numbers. -/
theorem countDown_eq : e.countDown link delta =
    if e.waitCount.perLinkCount link = 0 then e else
      { e with
        waitCount := e.waitCount.lower link (e.waitCount.perLinkCount link - delta)
      }.clearWhenZero := by
  have hclip : (if delta ≤ e.waitCount.perLinkCount link then
      e.waitCount.perLinkCount link - delta else 0) = e.waitCount.perLinkCount link - delta := by
    split_ifs <;> omega
  simp only [Entry.countDown, hclip, ne_eq, ite_not]

theorem Entry.Consistent.countDown (h : e.Consistent) (link : Link) (delta : ℕ) :
    (e.countDown link delta).Consistent := by
  rw [countDown_eq]
  split_ifs
  · exact h
  have hsums := h.sums.lower (Nat.sub_le (e.waitCount.perLinkCount link) delta)
  refine h.withCount hsums (total_le hsums h.sums fun l => ?_)
  simp only [WaitCount.lower, Function.update_apply]
  split_ifs with heq
  · subst heq
    exact Nat.sub_le ..
  · exact Nat.le_refl _

theorem countDown_apply : (e.countDown link delta).waitCount.perLinkCount l =
    if l = link then e.waitCount.perLinkCount l - delta else e.waitCount.perLinkCount l := by
  rw [countDown_eq]
  split_ifs with hzero heq heq
  · subst heq
    omega
  · rfl
  · subst heq
    simp [WaitCount.lower]
  · simp [WaitCount.lower, Function.update_of_ne heq]

theorem countDown_snapshots : (e.countDown link delta).snapshots = e.snapshots := by
  rw [countDown_eq]
  split_ifs <;> simp

/-! ## What is calculated -/

variable {s raw : Snapshots} {ts : UInt32} {ownLink : Bool}

/-- A snapshot of the firmware is no further from the host than the one of the MAC HW. -/
theorem delta_le {mac host fw : Snapshot} (hne : mac.delta host ≠ 0)
    (hhost : mac.ctrGte host = true) (hfw : mac.ctrGte fw = true) :
    fw.delta host ≤ mac.delta host := by
  have hm := mac.mgmtPktCtr.toNat_lt
  have hf := fw.mgmtPktCtr.toNat_lt
  have hh := host.mgmtPktCtr.toNat_lt
  rw [ctrGte_iff] at hhost hfw
  have hadd := @Serial.ahead_add 0x8000 _ _ _ hm hf hh
  have hlt := @Serial.ahead_lt 0x8000 _ host.mgmtPktCtr.toNat hf
  have hmac : mac.delta host = _ := (subtractPktCtrs_eq ..).trans (Serial.signed_of_le hhost)
  rw [hmac] at hne ⊢
  rw [Snapshot.delta, subtractPktCtrs_eq, Serial.signed]
  split_ifs <;> omega

theorem delta_bound (s s' : Snapshot) : s.delta s' ≤ 0x8000 := by
  rw [Snapshot.delta, subtractPktCtrs_eq]
  exact (Serial.signed_bounds s.mgmtPktCtr.toNat_lt).2

theorem qdfAssertAlways_bind {c : Prop} [Decidable c] {α : Type} {k : Unit → Option α} {a : α}
    (h : (qdfAssertAlways c).bind k = some a) : k () = some a := by
  unfold qdfAssertAlways at h
  split_ifs at h
  · exact h
  · cases h

theorem fwConsumedEstimate_le {pending p m : ℤ} (h : fwConsumedEstimate s ts pending = some p)
    (hm : 0 ≤ m) (hpending : pending ≤ m)
    (hcons : s.fwConsumed.valid = true → s.fwConsumed.delta s.host ≤ m)
    (hfwd : s.fwForwarded.valid = true → s.fwForwarded.delta s.host ≤ m) : p ≤ m := by
  unfold fwConsumedEstimate at h
  split at h
  · rename_i huse
    have hc := hcons huse.1
    have h := qdfAssertAlways_bind h
    split at h
    · rename_i holder
      have hf := hfwd holder.1
      cases h
      split <;> omega
    · cases h
      omega
  · cases h
    exact hpending

theorem fwForwardedEstimate_le {pending p : ℤ} (h : fwForwardedEstimate s ts pending = some p) :
    p ≤ pending := by
  unfold fwForwardedEstimate at h
  split at h
  · have h := qdfAssertAlways_bind (qdfAssertAlways_bind h)
    cases h
    exact Int.min_le_left ..
  · cases h
    exact Int.le_refl _

/-- **A calculated count is at most the distance from the host to the MAC HW**, once the host
    has seen a frame. -/
theorem perLinkCount_le (hs : s = invalidateStaleSnapshots raw)
    (h : perLinkCount ownLink s ts = some n) : n ≤ uintMax ∧
      (s.host.valid = true → n ≤ (s.macHw.delta s.host).toNat) := by
  have hzero : ∀ m : ℕ, 0 ≤ m := Nat.zero_le
  unfold perLinkCount at h
  split_ifs at h with hown hmac hhost hdelta hbefore
  · cases h
    exact ⟨hzero _, fun _ => hzero _⟩
  · cases h
    exact ⟨hzero _, fun _ => hzero _⟩
  · cases h
    exact ⟨Nat.le_refl _, fun hon => by simp [hon] at hhost⟩
  · cases h
    exact ⟨hzero _, fun _ => hzero _⟩
  · cases h
    exact ⟨hzero _, fun _ => hzero _⟩
  simp only [Bool.not_eq_eq_eq_not, Bool.not_true, Bool.not_eq_false] at hmac hhost
  obtain ⟨hhostMac, hcons, hfwd⟩ := invalidate_behind hs hmac
  obtain ⟨-, hctr⟩ := hhostMac hhost
  obtain ⟨p, hp, h⟩ := Option.bind_eq_some_iff.1 h
  have h := qdfAssertAlways_bind h
  cases h
  have hle : p ≤ s.macHw.delta s.host := by
    have hpos := delta_nonneg hctr
    unfold framesPending at hp
    have hp := qdfAssertAlways_bind hp
    split at hp
    · have hp := qdfAssertAlways_bind hp
      obtain ⟨q, hq, hp⟩ := Option.bind_eq_some_iff.1 hp
      have hqle := fwConsumedEstimate_le hq hpos (by omega)
        (fun hv => delta_le hdelta hctr (hcons hv).ctr)
        (fun hv => delta_le hdelta hctr (hfwd hv).ctr)
      exact Int.le_trans (fwForwardedEstimate_le hp) hqle
    · cases hp
      exact Int.le_refl _
  have hbound := delta_bound s.macHw s.host
  refine ⟨?_, fun _ => by omega⟩
  unfold uintMax
  omega

/-! ## The loop over the links -/

variable {reads : Link → LinkRead} {host host' host'' : Link → Snapshot}
  {desc desc' desc'' : Desc} {status : Status} {ls : List Link}

/-- The snapshots of the host may be invalidated, but are not changed otherwise. -/
def Weaker (host host' : Link → Snapshot) : Prop :=
  ∀ l, (host' l).valid = true → host' l = host l

theorem Weaker.refl : Weaker host host := fun _ _ => rfl

theorem Weaker.trans (h : Weaker host host') (h' : Weaker host' host'') : Weaker host host'' :=
  fun l hl => by
    have hl' := h' l hl
    rw [hl'] at hl ⊢
    exact h l hl

/-- The descriptor is still about the same frame. -/
structure SameFrame (desc desc' : Desc) : Prop where
  link : desc'.link = desc.link
  params : desc'.params = desc.params
  delta : desc'.pktCtrDelta = desc.pktCtrDelta

/-- The counts found so far: none for the link of the frame, and for the others no more than
    the distance to the snapshot of the MAC HW where the host has seen a frame. -/
structure Bounded (host : Link → Snapshot) (desc : Desc) : Prop where
  sums : desc.waitCount.Sums
  own : desc.waitCount.perLinkCount desc.link = 0
  bound : ∀ l, (host l).valid = true →
    desc.waitCount.perLinkCount l ≤ ((desc.snapshots l).macHw.delta (host l)).toNat

theorem dropAhead_eq {mac x : Snapshot} (h : (mac.dropAhead x).valid = true) :
    mac.dropAhead x = x := by
  unfold Snapshot.dropAhead at h ⊢
  split_ifs at h ⊢
  rfl

theorem invalidate_host (hs : s = invalidateStaleSnapshots raw) (hvalid : s.host.valid = true) :
    s.host = raw.host := by
  subst hs
  unfold invalidateStaleSnapshots at hvalid ⊢
  by_cases hmac : (!raw.macHw.valid) = true
  · rw [if_pos hmac]
  · rw [if_neg hmac] at hvalid ⊢
    exact dropAhead_eq hvalid

theorem weaker_update {x : Snapshot} (h : x.valid = true → x = host link) :
    Weaker host (Function.update host link x) := by
  intro l hl
  by_cases heq : l = link
  · subst heq
    rw [Function.update_self] at hl ⊢
    exact h hl
  · rw [Function.update_of_ne heq]

/-- A count is added for a link that has none yet. -/
theorem Bounded.add (hb : Bounded host desc) (hfresh : desc.waitCount.perLinkCount link = 0)
    (hn : n ≤ uintMax) (hown : link = desc.link → n = 0)
    (hhost : ∀ l, l ≠ link → host' l = host l)
    (hsnap : ∀ l, l ≠ link → desc'.snapshots l = desc.snapshots l)
    (hbound : (host' link).valid = true →
      n ≤ ((desc'.snapshots link).macHw.delta (host' link)).toNat)
    (hwc : desc'.waitCount = desc.waitCount.add link n) (hlink : desc'.link = desc.link) :
    Bounded host' desc' where
  sums := hwc ▸ hb.sums.add hfresh hn
  own := by
    rw [hwc, hlink]
    simp only [WaitCount.add, Function.update_apply]
    split_ifs with heq
    · exact hown heq.symm
    · exact hb.own
  bound l hl := by
    rw [hwc]
    simp only [WaitCount.add, Function.update_apply]
    split_ifs with heq
    · subst heq
      exact hbound hl
    · rw [hhost l heq] at hl ⊢
      rw [hsnap l heq]
      exact hb.bound l hl

theorem calculateLink_spec (h : calculateLink reads host desc link = some (.success, host', desc'))
    (hb : Bounded host desc) (hfresh : desc.waitCount.perLinkCount link = 0) :
    Bounded host' desc' ∧ SameFrame desc desc' ∧
      ∀ l, l ≠ link → desc'.waitCount.perLinkCount l = desc.waitCount.perLinkCount l := by
  have hother : ∀ n l, l ≠ link →
      (desc.waitCount.add link n).perLinkCount l = desc.waitCount.perLinkCount l :=
    fun n l hl => Function.update_of_ne hl ..
  -- a link that takes no part adds nothing
  have hnone : Bounded host { desc with waitCount := desc.waitCount.add link 0 } :=
    hb.add hfresh (Nat.zero_le _) (fun _ => rfl) (fun _ _ => rfl) (fun _ _ => rfl)
      (fun _ => Nat.zero_le _) rfl rfl
  unfold calculateLink at h
  split at h
  · cases h
    exact ⟨hnone, ⟨rfl, rfl, rfl⟩, hother 0⟩
  · cases h
    exact ⟨hnone, ⟨rfl, rfl, rfl⟩, hother 0⟩
  · cases h
  · rename_i status _
    simp only [Option.some.injEq, Prod.mk.injEq] at h
    exact absurd h.1 status.2
  · dsimp only at h
    split at h
    · rename_i hsane
      simp only [Option.some.injEq, Prod.mk.injEq] at h
      exact absurd h.1 hsane
    · obtain ⟨n, hn, h⟩ := Option.bind_eq_some_iff.1 h
      cases h
      obtain ⟨hmax, hle⟩ := perLinkCount_le rfl hn
      refine ⟨hb.add hfresh hmax ?_ ?_ ?_ ?_ rfl rfl, ⟨rfl, rfl, rfl⟩, hother n⟩
      · rintro rfl
        simpa [perLinkCount] using hn.symm
      · exact fun l hl => Function.update_of_ne hl ..
      · exact fun l hl => Function.update_of_ne hl ..
      · simpa only [Function.update_self] using hle

theorem calculateLink_weaker
    (h : calculateLink reads host desc link = some (status, host', desc')) :
    Weaker host host' := by
  unfold calculateLink at h
  split at h
  · cases h
    exact .refl
  · cases h
    exact .refl
  · cases h
    exact .refl
  · cases h
    exact .refl
  · dsimp only at h
    split at h
    · cases h
      exact weaker_update fun hv => invalidate_host rfl hv
    · obtain ⟨n, hn, h⟩ := Option.bind_eq_some_iff.1 h
      cases h
      exact weaker_update fun hv => invalidate_host rfl hv

theorem calculateLoop_weaker
    (h : calculateLoop reads host desc ls = some (status, host', desc')) : Weaker host host' := by
  induction ls generalizing host desc with
  | nil =>
    cases h
    exact .refl
  | cons link rest ih =>
    obtain ⟨⟨st, host₁, desc₁⟩, hfirst, h⟩ := Option.bind_eq_some_iff.1 h
    have hweak := calculateLink_weaker hfirst
    dsimp only at h
    split at h
    · cases h
      exact hweak
    · exact hweak.trans (ih h)

theorem calculateLoop_spec (hnodup : ls.Nodup)
    (hfresh : ∀ l ∈ ls, desc.waitCount.perLinkCount l = 0) (hb : Bounded host desc)
    (h : calculateLoop reads host desc ls = some (.success, host', desc')) :
    Bounded host' desc' ∧ SameFrame desc desc' := by
  induction ls generalizing host desc with
  | nil =>
    cases h
    exact ⟨hb, rfl, rfl, rfl⟩
  | cons link rest ih =>
    obtain ⟨⟨st, host₁, desc₁⟩, hfirst, h⟩ := Option.bind_eq_some_iff.1 h
    dsimp only at h
    split at h
    · rename_i hne
      cases h
      exact absurd rfl hne
    · rename_i heq
      rw [ne_eq, not_not] at heq
      subst heq
      obtain ⟨hnot, hrest⟩ := List.nodup_cons.1 hnodup
      obtain ⟨hb₁, hsame₁, hother⟩ := calculateLink_spec hfirst hb (hfresh link (.head _))
      have hfresh₁ : ∀ l ∈ rest, desc₁.waitCount.perLinkCount l = 0 := fun l hl => by
        rw [hother l (by rintro rfl; exact hnot hl)]
        exact hfresh l (.tail _ hl)
      obtain ⟨hb', hsame'⟩ := ih hrest hfresh₁ hb₁ h
      exact ⟨hb', hsame'.link.trans hsame₁.link, hsame'.params.trans hsame₁.params,
        hsame'.delta.trans hsame₁.delta⟩

/-- **What is calculated** when no error comes up. -/
theorem calculateWaitCount_spec (hzero : desc.waitCount = .zero)
    (h : calculateWaitCount reads host desc = some (.success, host', desc')) :
    Bounded host' desc' ∧ SameFrame desc desc' := by
  have hnone : ∀ l, desc.waitCount.perLinkCount l = 0 := fun l => by rw [hzero]; rfl
  have hb : Bounded host desc := ⟨hzero ▸ WaitCount.sums_zero, hnone _, fun l _ => by
    rw [hnone]
    exact Nat.zero_le _⟩
  unfold calculateWaitCount at h
  split at h
  · cases h
  · cases h
  · exact calculateLoop_spec (List.nodup_finRange 6) (fun l _ => hnone l) hb h

theorem calculateWaitCount_weaker
    (h : calculateWaitCount reads host desc = some (status, host', desc')) :
    Weaker host host' := by
  unfold calculateWaitCount at h
  split at h
  · cases h
    exact .refl
  · cases h
    exact .refl
  · exact calculateLoop_weaker h

end Sm8850.Reo
