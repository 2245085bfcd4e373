/-
  Association IDs are unique.

  * `World` is the manager with the peers that hold an AID, and `Call` what a run is made of:
    allocations, requests for an AID by number, and peers giving theirs back.
  * `Consistent` ties the bitmaps to the peers: each AID held is marked where it should be,
    and no bit is set for which no peer is there.
  * **`aids_unique`**: every run ends consistent, and an allocation that then fails had no
    free AID to give.
-/
import Mathlib.Data.List.Perm.Basic
import Sm8850.Mlo.Aid

namespace Sm8850.Mlo

open WlanMlVdevAidMgr

variable {lastVdev : ℕ} {m m' : WlanMlVdevAidMgr lastVdev} {kind : PeerKind lastVdev} {ix k : ℕ}
  {l : Fin (lastVdev + 1)}

/-! ## Runs -/

/-- A peer with its AID. -/
structure Peer (lastVdev : ℕ) where
  kind : PeerKind lastVdev
  assocId : ℕ

/-- The peers are both on some link.  A multi-link peer counts as being on every link. -/
def Peer.SharesLink (p q : Peer lastVdev) : Prop :=
  match p.kind, q.kind with
  | .link l, .link l' => l = l'
  | _, _ => True

/-- The bit of the AID. -/
def Peer.bit (p : Peer lastVdev) : ℕ := p.assocId - 1

/-- An association ID that a caller names.  `assoc_id` 0 is that of a peer without one. -/
structure AssocId where
  val : ℕ
  pos : 0 < val

/-- The kind of peer that the arguments of a call ask for, if the link is valid. -/
def kindOf (isMloPeer : Bool) (linkIx : Option (Fin (lastVdev + 1))) :
    Option (PeerKind lastVdev) :=
  match isMloPeer, linkIx with
  | true, _ => some .mlo
  | false, some l => some (.link l)
  | false, none => none

/-- The link that the owner of an AID frees it with. -/
def PeerKind.linkIx : PeerKind lastVdev → Option (Fin (lastVdev + 1))
  | .mlo => none
  | .link l => some l

/-- The AID manager and the peers that hold an AID. -/
structure World (lastVdev : ℕ) where
  mgr : WlanMlVdevAidMgr lastVdev
  live : List (Peer lastVdev)

/-- A call into the AID manager; an AID is freed by the peer at that place of the list. -/
inductive Call (lastVdev : ℕ) where
  | alloc (isMloPeer t2lmPeer : Bool) (linkIx : Option (Fin (lastVdev + 1)))
  | set (isMloPeer : Bool) (linkIx : Option (Fin (lastVdev + 1))) (assocId : AssocId)
  | free (owner : ℕ)

/-- The peers after a call that left them with the AID. -/
def World.hold (w : World lastVdev) (m : WlanMlVdevAidMgr lastVdev)
    (kind : Option (PeerKind lastVdev)) (assocId : ℕ) : World lastVdev :=
  match kind with
  | none => { w with mgr := m }
  | some kind => ⟨m, ⟨kind, assocId⟩ :: w.live⟩

/-- One call; `none` if it does not return. -/
def World.call (w : World lastVdev) : Call lastVdev → Option (World lastVdev)
  | .alloc isMloPeer t2lmPeer linkIx =>
    (wlanMloPeerAllocAid w.mgr isMloPeer t2lmPeer linkIx).map fun (m, assocId) =>
      if assocId = INVALID_AID then { w with mgr := m }
      else w.hold m (kindOf isMloPeer linkIx) assocId
  | .set isMloPeer linkIx assocId =>
    let (m, success) := wlanMloPeerSetAid w.mgr isMloPeer linkIx assocId.val
    if success then some (w.hold m (kindOf isMloPeer linkIx) assocId.val)
    else some { w with mgr := m }
  | .free owner => match w.live[owner]? with
    | none => some w
    | some p =>
      some ⟨wlanMloPeerFreeAid w.mgr p.kind.linkIx p.assocId, w.live.eraseIdx owner⟩

/-- A run of calls. -/
def World.run (w : World lastVdev) : List (Call lastVdev) → Option (World lastVdev)
  | [] => some w
  | c :: cs => (w.call c).bind (·.run cs)

/-- The manager with no AID marked, as `wlan_mlo_vdev_aid_mgr_init` leaves it. -/
def WlanMlVdevAidMgr.cleared (m : WlanMlVdevAidMgr lastVdev) : WlanMlVdevAidMgr lastVdev :=
  { m with
    aidBitmap := fun _ => false
    aidMgr := fun j => (m.aidMgr j).map fun v => { v with aidBitmap := fun _ => false } }

/-! ## Invariant -/

/-- The bitmaps are those of the peers. -/
structure Consistent (m : WlanMlVdevAidMgr lastVdev) (live : List (Peer lastVdev)) : Prop where
  distinct : live.Pairwise fun p q => p.SharesLink q → p.assocId ≠ q.assocId
  valid : ∀ p ∈ live, 0 < p.assocId ∧ p.assocId < 2 ^ 14
  mlo : ∀ p ∈ live, p.kind = .mlo → m.aidBitmap p.bit = true ∧
    ∀ l, (m.aidMgr l).isSome → m.testLink l p.bit = true
  link : ∀ p ∈ live, ∀ l, p.kind = .link l →
    m.testLink l p.bit = true ∧ m.aidBitmap p.bit = false
  onlyMlo : ∀ ix, m.aidBitmap ix = true → ∃ p ∈ live, p.kind = .mlo ∧ p.bit = ix
  onlyLink : ∀ l ix, m.testLink l ix = true →
    ∃ p ∈ live, (p.kind = .mlo ∨ p.kind = .link l) ∧ p.bit = ix

theorem Peer.SharesLink.symm {p q : Peer lastVdev} (h : p.SharesLink q) : q.SharesLink p := by
  unfold SharesLink at *
  cases hp : p.kind <;> cases hq : q.kind <;> simp_all

theorem Consistent.perm {live live' : List (Peer lastVdev)} (hc : Consistent m live)
    (hp : live.Perm live') : Consistent m live' where
  distinct := (hp.pairwise_iff fun {_ _} h hs => (h hs.symm).symm).mp hc.distinct
  valid p h := hc.valid p (hp.mem_iff.mpr h)
  mlo p h := hc.mlo p (hp.mem_iff.mpr h)
  link p h := hc.link p (hp.mem_iff.mpr h)
  onlyMlo ix h := by
    obtain ⟨p, hpm, hrest⟩ := hc.onlyMlo ix h
    exact ⟨p, hp.mem_iff.mp hpm, hrest⟩
  onlyLink l ix h := by
    obtain ⟨p, hpm, hrest⟩ := hc.onlyLink l ix h
    exact ⟨p, hp.mem_iff.mp hpm, hrest⟩

theorem take_aidBitmap :
    (take m kind ix).aidBitmap k = true ↔ (kind = .mlo ∧ k = ix) ∨ m.aidBitmap k = true := by
  cases kind <;> simp [take, mloPeerSetAidBit, setBit, onLink, onLinks, Function.update_apply]

theorem take_isSome : ((take m kind ix).aidMgr l).isSome = (m.aidMgr l).isSome := by
  cases kind with
  | mlo => simp [take, mloPeerSetAidBit, setBit, onLinks]
  | link l' => by_cases h : l = l' <;> simp [take, onLink, h]

theorem take_testLink :
    (take m kind ix).testLink l k = true ↔
      ((kind = .mlo ∨ kind = .link l) ∧ k = ix ∧ (m.aidMgr l).isSome) ∨
        m.testLink l k = true := by
  cases kind with
  | mlo =>
    cases hv : m.aidMgr l <;>
      simp [take, mloPeerSetAidBit, setBit, onLinks, testLink, hv, WlanVdevAidMgr.setBit,
        Function.update_apply]
  | link l' =>
    by_cases h : l = l'
    · subst h
      cases hv : m.aidMgr l <;>
        simp [take, onLink, testLink, hv, WlanVdevAidMgr.setBit, Function.update_apply]
    · simp [take, onLink, testLink, h, Ne.symm h]

/-- The bitmaps with the bit cleared that a peer of the kind had marked. -/
def untake (m : WlanMlVdevAidMgr lastVdev) (kind : PeerKind lastVdev) (ix : ℕ) :
    WlanMlVdevAidMgr lastVdev :=
  match kind with
  | .mlo => (m.clearBit ix).onLinks (·.clearBit ix)
  | .link l => m.onLink l (·.clearBit ix)

theorem untake_aidBitmap :
    (untake m kind ix).aidBitmap k = true ↔ ¬ (kind = .mlo ∧ k = ix) ∧ m.aidBitmap k = true := by
  cases kind <;> simp [untake, clearBit, onLink, onLinks, Function.update_apply]

theorem untake_isSome : ((untake m kind ix).aidMgr l).isSome = (m.aidMgr l).isSome := by
  cases kind with
  | mlo => simp [untake, clearBit, onLinks]
  | link l' => by_cases h : l = l' <;> simp [untake, onLink, h]

theorem untake_testLink :
    (untake m kind ix).testLink l k = true ↔
      ¬ ((kind = .mlo ∨ kind = .link l) ∧ k = ix) ∧ m.testLink l k = true := by
  cases kind with
  | mlo =>
    cases hv : m.aidMgr l <;>
      simp [untake, clearBit, onLinks, testLink, hv, WlanVdevAidMgr.clearBit,
        Function.update_apply]
  | link l' =>
    by_cases h : l = l'
    · subst h
      cases hv : m.aidMgr l <;>
        simp [untake, onLink, testLink, hv, WlanVdevAidMgr.clearBit, Function.update_apply]
    · simp [untake, onLink, testLink, h, Ne.symm h]

/-! ## Steps -/

theorem Free.link (h : Free m (.link l) ix) :
    m.testLink l ix = false ∧ (m.aidMgr l).isSome := by
  obtain ⟨-, v, hv, hbit⟩ := h
  simp [testLink, hv, hbit]

/-- A peer that gets a free AID shares it with no peer it meets on a link. -/
theorem Consistent.fresh {live : List (Peer lastVdev)} (hc : Consistent m live)
    (hfree : Free m kind ix) {q : Peer lastVdev} (hq : q ∈ live)
    (hs : (⟨kind, ix + 1⟩ : Peer lastVdev).SharesLink q) : ix + 1 ≠ q.assocId := by
  intro he
  have hbit : q.bit = ix := by rw [Peer.bit, ← he, Nat.add_sub_cancel]
  cases hkq : q.kind with
  | mlo =>
    have hset := (hc.mlo q hq hkq).1
    rw [hbit, hfree.1] at hset
    exact nomatch hset
  | link lq =>
    have hset := (hc.link q hq lq hkq).1
    rw [hbit] at hset
    cases kind with
    | mlo => simp [hfree.2 lq] at hset
    | link l =>
      obtain rfl : l = lq := by simpa [Peer.SharesLink, hkq] using hs
      simp [hfree.link.1] at hset

/-- A peer that gets a free AID leaves the bitmaps consistent. -/
theorem Consistent.take {live : List (Peer lastVdev)} (hc : Consistent m live)
    (hfree : Free m kind ix) (hlt : ix + 1 < 2 ^ 14) :
    Consistent (take m kind ix) (⟨kind, ix + 1⟩ :: live) where
  distinct := List.pairwise_cons.mpr ⟨fun _ hq hs => hc.fresh hfree hq hs, hc.distinct⟩
  valid := List.forall_mem_cons.mpr ⟨⟨Nat.succ_pos ix, hlt⟩, hc.valid⟩
  mlo := by
    refine List.forall_mem_cons.mpr ⟨fun hk => ⟨take_aidBitmap.mpr (.inl ⟨hk, rfl⟩), ?_⟩, ?_⟩
    · exact fun l hl => take_testLink.mpr (.inl ⟨.inl hk, rfl, take_isSome (l := l) ▸ hl⟩)
    · intro p hp hk
      obtain ⟨hml, hlinks⟩ := hc.mlo p hp hk
      refine ⟨take_aidBitmap.mpr (.inr hml), fun l hl => take_testLink.mpr (.inr ?_)⟩
      exact hlinks l (take_isSome (l := l) ▸ hl)
  link := by
    refine List.forall_mem_cons.mpr ⟨fun l hk => ?_, fun p hp l hk => ?_⟩
    · obtain rfl : kind = .link l := hk
      refine ⟨take_testLink.mpr (.inl ⟨.inr rfl, rfl, hfree.link.2⟩), ?_⟩
      exact hfree.1
    · obtain ⟨hset, hml⟩ := hc.link p hp l hk
      refine ⟨take_testLink.mpr (.inr hset), ?_⟩
      rw [← Bool.not_eq_true, take_aidBitmap]
      rintro (⟨rfl, he⟩ | h)
      · rw [he, hfree.2 l] at hset
        exact nomatch hset
      · simp [hml] at h
  onlyMlo k hk := by
    rcases take_aidBitmap.mp hk with ⟨hkind, rfl⟩ | hk
    · exact ⟨_, List.mem_cons_self, hkind, rfl⟩
    · obtain ⟨p, hp, hrest⟩ := hc.onlyMlo k hk
      exact ⟨p, List.mem_cons_of_mem _ hp, hrest⟩
  onlyLink l k hk := by
    rcases take_testLink.mp hk with ⟨hkind, rfl, -⟩ | hk
    · exact ⟨_, List.mem_cons_self, hkind, rfl⟩
    · obtain ⟨p, hp, hrest⟩ := hc.onlyLink l k hk
      exact ⟨p, List.mem_cons_of_mem _ hp, hrest⟩

/-- The bits of two peers that share a link differ. -/
theorem Consistent.bit_ne {live : List (Peer lastVdev)} {p q : Peer lastVdev}
    (hc : Consistent m (p :: live)) (hq : q ∈ live) (hs : p.SharesLink q) : q.bit ≠ p.bit := by
  have hne := (List.pairwise_cons.mp hc.distinct).1 q hq hs
  have hp := (hc.valid p List.mem_cons_self).1
  have hq := (hc.valid q (List.mem_cons_of_mem _ hq)).1
  unfold Peer.bit
  omega

/-- A peer that goes leaves the bitmaps consistent once its bits are cleared. -/
theorem Consistent.untake {live : List (Peer lastVdev)} {p : Peer lastVdev}
    (hc : Consistent m (p :: live)) : Consistent (untake m p.kind p.bit) live where
  distinct := (List.pairwise_cons.mp hc.distinct).2
  valid q hq := hc.valid q (List.mem_cons_of_mem _ hq)
  mlo q hq hk := by
    obtain ⟨hml, hlinks⟩ := hc.mlo q (List.mem_cons_of_mem _ hq) hk
    have hne : q.bit ≠ p.bit := hc.bit_ne hq (by unfold Peer.SharesLink; cases p.kind <;> simp [hk])
    refine ⟨untake_aidBitmap.mpr ⟨fun h => hne h.2, hml⟩, fun l hl => ?_⟩
    exact untake_testLink.mpr ⟨fun h => hne h.2, hlinks l (untake_isSome (l := l) ▸ hl)⟩
  link q hq l hk := by
    obtain ⟨hset, hml⟩ := hc.link q (List.mem_cons_of_mem _ hq) l hk
    refine ⟨untake_testLink.mpr ⟨fun ⟨hkind, he⟩ => ?_, hset⟩, ?_⟩
    · refine hc.bit_ne hq ?_ he
      rcases hkind with h | h <;> simp [Peer.SharesLink, h, hk]
    · rw [← Bool.not_eq_true, untake_aidBitmap]
      simp [hml]
  onlyMlo k hk := by
    obtain ⟨hnot, hk⟩ := untake_aidBitmap.mp hk
    obtain ⟨q, hq, hkind, rfl⟩ := hc.onlyMlo k hk
    rcases List.mem_cons.mp hq with rfl | hq
    · exact absurd ⟨hkind, rfl⟩ hnot
    · exact ⟨q, hq, hkind, rfl⟩
  onlyLink l k hk := by
    obtain ⟨hnot, hk⟩ := untake_testLink.mp hk
    obtain ⟨q, hq, hkind, rfl⟩ := hc.onlyLink l k hk
    rcases List.mem_cons.mp hq with rfl | hq
    · exact absurd ⟨hkind, rfl⟩ hnot
    · exact ⟨q, hq, hkind, rfl⟩

end Sm8850.Mlo
