/-
  The elements of a link-specific frame are those that the link inherits.

  * `Reporting`, `Profile`: the two sections, well formed.
  * `Inherits`: the frame has the elements of the profile, the inherited ones, and in a probe
    response a Multi-Link element with the common info.
  * `mergeIes_perm`: what the function makes.
  * `mergeIes_inherits_iff`: when that is what it should.
-/
import Sm8850.Mlo.Inherits

namespace Sm8850.Mlo.LinkFrame

open LinkInfo

/-! ## Sections -/

/-- The elements of the reporting STA.  Only the Multi-Link element is fragmented, the SSID
    element comes first, and no other than vendor-specific elements occur twice. -/
structure Reporting where
  front : List Ie
  ml : Ie
  frs : List Ie
  back : List Ie
  ml_key : ml.key = (255, some 107)
  frs_id : ∀ f ∈ frs, f.id = 242
  unfragmented : ∀ e ∈ front ++ back, e.id ≠ 242
  ssid_first : ∀ e ∈ (front ++ ml :: (frs ++ back)).tail, e.id ≠ 0
  keys : (((front ++ ml :: back).filter (·.id ≠ 221)).map Ie.key).Nodup

def Reporting.ies (R : Reporting) : List Ie := R.front ++ R.ml :: (R.frs ++ R.back)

/-- The elements of an STA profile. -/
structure Profile where
  ies : List Ie
  unfragmented : ∀ e ∈ ies, e.id ≠ 242
  ssid_first : ∀ e ∈ ies.tail, e.id ≠ 0

/-! ## What the frame should have -/

/-- The elements of the reporting STA that the profile neither has nor lists. -/
def inherited (prof rs : List Ie) : List Ie :=
  rs.filter (Fresh (nonInheritance prof).1 (nonInheritance prof).2 prof ·)

/-- A frame behind what was there of it has the elements that the link inherits, in some
    order. -/
def Inherits (subtype : Subtype) (linkid : UInt8) (R : Reporting) (P : Profile)
    (out out' : List UInt8) : Prop :=
  ∃ sec mlie, out' = out ++ encodeIes sec ∧
    (if subtype = .probeResp then ∃ e, Rebuilt R.ml linkid e ∧ mlie = [e] else mlie = []) ∧
    sec.Perm (P.ies ++ inherited P.ies (R.front ++ R.back) ++ mlie)

/-- When the function makes such a frame: the fragments do not end the frame, or fragments are
    listed; the vendor-specific elements of the profile stand in for those of the reporting STA,
    by their place or by their number; and the common info is not fragmented. -/
structure Clean (subtype : Subtype) (R : Reporting) (P : Profile) : Prop where
  fragments : R.back = [] → R.frs ≠ [] → 242 ∈ (nonInheritance P.ies).1
  vendors : vendors P.ies = [] ∨ 7 ≤ vendorTail P.ies ∨
    (vendors (R.front ++ R.back)).length ≤ (vendors P.ies).length ∨
    221 ∈ (nonInheritance P.ies).1
  commonInfo : subtype = .probeResp → commonInfoLen R.ml + 5 ≤ R.ml.body.length

variable {R : Reporting} {P : Profile} {subtype : Subtype} {maxsize mlieseq start : ℕ}
  {linkid : UInt8} {malloc : Bool} {out out' : List UInt8} {prof rs a b : List Ie} {e : Ie}

/-! ## What the function makes -/

namespace Reporting

theorem front_other (x : Ie) (hx : x ∈ R.front) : x.key ≠ (255, some 107) := by
  intro hkey
  have hkeys := R.keys
  have hid : x.id = 255 := congrArg Prod.fst hkey
  have hml : R.ml.id = 255 := congrArg Prod.fst R.ml_key
  rw [List.filter_append, List.map_append, List.nodup_append] at hkeys
  refine hkeys.2.2 x.key (List.mem_map_of_mem (List.mem_filter.2 ⟨hx, by rw [hid]; rfl⟩)) R.ml.key
    (List.mem_map_of_mem (List.mem_filter.2 ⟨List.mem_cons_self .., by rw [hml]; rfl⟩)) ?_
  rw [hkey, R.ml_key]

theorem back_other (x : Ie) (hx : x ∈ R.back) : x.key ≠ (255, some 107) := by
  intro hkey
  have hkeys := R.keys
  have hid : x.id = 255 := congrArg Prod.fst hkey
  have hml : R.ml.id = 255 := congrArg Prod.fst R.ml_key
  rw [List.filter_append, List.map_append, List.nodup_append,
    List.filter_cons_of_pos (by rw [hml]; rfl), List.map_cons, List.nodup_cons] at hkeys
  refine hkeys.2.1.1 ?_
  rw [R.ml_key, ← hkey]
  exact List.mem_map_of_mem (List.mem_filter.2 ⟨hx, by rw [hid]; rfl⟩)

/-- The elements that the loop takes for inherited or not. -/
def taken (R : Reporting) : List Ie := R.front ++ behindFragments R.frs R.back

theorem mem_behindFragments {x : Ie} (hx : x ∈ behindFragments R.frs R.back) :
    x ∈ R.back ∨ x ∈ R.frs := by
  unfold behindFragments at hx
  split at hx
  · exact .inr (List.mem_of_getLast? (Option.mem_toList.1 hx))
  · exact .inl hx

theorem behind_other (x : Ie) (hx : x ∈ behindFragments R.frs R.back) :
    x.key ≠ (255, some 107) := by
  rcases mem_behindFragments hx with hback | hfrs
  · exact R.back_other x hback
  · intro hkey
    have hid := R.frs_id x hfrs
    rw [show x.id = 255 from congrArg Prod.fst hkey] at hid
    exact absurd hid (by decide)

theorem taken_tail (x : Ie) (hx : x ∈ R.taken.tail) : x.id ≠ 0 := by
  refine R.ssid_first x ?_
  cases hfront : R.front with
  | nil =>
    rw [taken, hfront, List.nil_append] at hx
    exact List.mem_append.2 (mem_behindFragments (List.mem_of_mem_tail hx)).symm
  | cons e front =>
    rw [taken, hfront, List.cons_append, List.tail_cons] at hx
    rw [List.cons_append, List.tail_cons]
    rcases List.mem_append.1 hx with hx | hx
    · exact List.mem_append_left _ hx
    · exact List.mem_append_right _ (List.mem_cons_of_mem _
        (List.mem_append.2 (mem_behindFragments hx).symm))

theorem taken_ssid (h : ∀ x ∈ R.taken, x.id ≠ 0) (x : Ie) (hx : x ∈ R.ies) : x.id ≠ 0 := by
  cases hfront : R.front with
  | nil =>
    have htail := R.ssid_first
    rw [ies, hfront, List.nil_append] at hx
    rw [hfront, List.nil_append, List.tail_cons] at htail
    rcases List.mem_cons.1 hx with rfl | hx
    · rw [show R.ml.id = 255 from congrArg Prod.fst R.ml_key]
      decide
    · exact htail x hx
  | cons e front =>
    have htail := R.ssid_first
    rw [ies, hfront, List.cons_append] at hx
    rw [hfront, List.cons_append, List.tail_cons] at htail
    rcases List.mem_cons.1 hx with rfl | hx
    · exact h x (List.mem_append_left _ (by rw [hfront]; exact List.mem_cons_self ..))
    · exact htail x hx

theorem taken_keys : ((R.taken.filter (·.id ≠ 221)).map Ie.key).Nodup := by
  have hkeys := R.keys
  unfold taken behindFragments
  split
  · rename_i hback
    have hfront : ((R.front.filter (·.id ≠ 221)).map Ie.key).Nodup :=
      hkeys.sublist (((List.sublist_append_left ..).filter _).map _)
    rw [List.filter_append, List.map_append, List.nodup_append]
    refine ⟨hfront, ?_, ?_⟩
    · cases R.frs.getLast? with
      | none => exact List.nodup_nil
      | some f => exact (List.pairwise_singleton _ f.key).sublist (List.filter_sublist.map _)
    · intro k hk k' hk' hkk
      obtain ⟨x, hx, rfl⟩ := List.mem_map.1 hk
      obtain ⟨f, hf, rfl⟩ := List.mem_map.1 hk'
      have hid := R.frs_id f
        (List.mem_of_getLast? (Option.mem_toList.1 (List.mem_filter.1 hf).1))
      exact R.unfragmented x (List.mem_append_left _ (List.mem_filter.1 hx).1)
        ((Ie.id_eq_of_key hkk).trans hid)
  · exact hkeys.sublist ((((List.sublist_cons_self ..).append_left _).filter _).map _)

end Reporting

/-- The loop starts with the first element, and a section without an SSID element goes with a
    profile without one. -/
theorem ssidIe_start (h : ssidIe subtype (encodeIes R.ies) (encodeIes prof) = .ok start) :
    start = 0 ∧ ((∀ x ∈ R.ies, x.id ≠ 0) → ∀ x ∈ prof, x.id ≠ 0) := by
  rcases exists_first (fun x => x.id = 0) R.ies with hnone | ⟨a, e, b, hies, he, ha⟩
  · rw [ssidIe, findEid_eq_none hnone] at h
    dsimp only at h
    split at h
    · cases h
    rcases exists_first (fun x => x.id = 0) prof with hprof | ⟨a, e, b, rfl, he, ha⟩
    · rw [findEid_eq_none hprof] at h
      cases h
      exact ⟨rfl, fun _ => hprof⟩
    · rw [findEid_first ha he] at h
      cases h
  · have hnil : a = [] := by
      cases a with
      | nil => rfl
      | cons x a =>
        have htail := R.ssid_first e
        rw [show R.front ++ R.ml :: (R.frs ++ R.back) = R.ies from rfl, hies] at htail
        exact absurd he (htail (List.mem_append_right _ (List.mem_cons_self ..)))
    have hfind := findEid_first (b := b) ha he
    rw [← hies, hnil] at hfind
    rw [ssidIe, hfind] at h
    dsimp only at h
    split at h
    · cases h
      refine ⟨rfl, fun hnone => absurd he (hnone e ?_)⟩
      rw [hies]
      exact List.mem_append_right _ (List.mem_cons_self ..)
    · cases h

/-- **What the function makes**: the profile, what is inherited of the elements it takes, and
    the spare vendor-specific ones. -/
theorem mergeIes_perm (h : mergeIes subtype maxsize linkid malloc (encodeIes R.ies)
      (encodeIes R.front).length (encodeIes P.ies) out = .ok out') :
    ∃ sec mlie, out' = out ++ encodeIes sec ∧ MlieAdded subtype linkid R.ml mlie ∧
      sec.Perm (P.ies ++ (plain (nonInheritance P.ies).1 (nonInheritance P.ies).2 P.ies R.taken ++
        spare (nonInheritance P.ies).1 (nonInheritance P.ies).2 P.ies R.taken) ++ mlie) := by
  obtain ⟨⟨elemlist, elemextlist⟩, hlists, h⟩ := Elem.bind_eq_ok.1 h
  rw [← getNoninheritlists_eq hlists]
  obtain ⟨start, hstart, h⟩ := Elem.bind_eq_ok.1 h
  obtain ⟨rfl, hssid⟩ := ssidIe_start hstart
  dsimp only at h
  rw [List.drop_zero] at h
  obtain ⟨u, hval, h⟩ := Elem.bind_eq_ok.1 h
  cases u
  obtain ⟨s, hs, h⟩ := Elem.bind_eq_ok.1 h
  obtain ⟨prof₁, added₁, hrun₁, -, hml⟩ :=
    mergeReporting_front R.front_other (List.cons_ne_nil _ _) hval hs
  obtain ⟨mlie, prof₂, added₂, hmlie, hrun₂, rfl⟩ := mergeReporting_ml R.ml_key
    (by rw [Reporting.ies, encodeIes_append, List.length_append, Nat.add_sub_cancel_left])
    R.frs_id (fun e he => R.unfragmented e (List.mem_append_right _ he)) R.behind_other hml
  have hout := copyRemaining_left h
  refine ⟨added₁ ++ (mlie ++ added₂) ++ left prof₂, mlie, ?_, hmlie, ?_⟩
  · simp only [hout, encodeIes_append, List.append_assoc]
  · have hperm := (hrun₁.append hrun₂).perm_ssid R.taken_tail P.ssid_first
      (fun hnone => hssid (R.taken_ssid hnone)) R.taken_keys
    refine List.Perm.trans ?_ (hperm.append_right mlie)
    have hswap : (mlie ++ (added₂ ++ left prof₂)).Perm ((added₂ ++ left prof₂) ++ mlie) :=
      List.perm_append_comm
    simpa only [List.append_assoc] using hswap.append_left added₁

/-! ## What it should not have made -/

/-- The spare vendor-specific elements, if the profile has any. -/
def surplus (prof rs : List Ie) : List Ie :=
  if vendors prof = [] then []
  else spare (nonInheritance prof).1 (nonInheritance prof).2 prof rs

/-- What is copied of the fragments. -/
def fragments (R : Reporting) (P : Profile) : List Ie :=
  if R.back = [] then inherited P.ies R.frs.getLast?.toList else []

theorem inherited_append : inherited prof (a ++ b) = inherited prof a ++ inherited prof b :=
  List.filter_append ..

theorem fresh_vendor_iff (he : e.id = 221) (hnone : ∀ x ∈ prof, x.id ≠ 221)
    {elemlist elemextlist : List UInt8} : Fresh elemlist elemextlist prof e ↔
      listed elemlist elemextlist e = false := by
  refine and_iff_right fun h => ?_
  obtain ⟨x, hx, hkey⟩ := List.mem_map.1 h
  exact hnone x hx ((Ie.id_eq_of_key hkey).trans he)

theorem not_fresh_vendor (he : e.id = 221) (hsome : vendors prof ≠ [])
    {elemlist elemextlist : List UInt8} : ¬ Fresh elemlist elemextlist prof e := by
  obtain ⟨x, hx⟩ := List.exists_mem_of_ne_nil _ hsome
  obtain ⟨hx, hid⟩ := List.mem_filter.1 hx
  have hkey : x.key = e.key :=
    (Ie.key_eq_iff_of_id (by rw [he]; decide)).2 ((of_decide_eq_true hid).trans he.symm)
  exact fun h => h.1 (hkey ▸ List.mem_map_of_mem hx)

/-- What is copied is inherited or surplus. -/
theorem plain_spare_perm :
    (plain (nonInheritance prof).1 (nonInheritance prof).2 prof rs ++
      spare (nonInheritance prof).1 (nonInheritance prof).2 prof rs).Perm
      (inherited prof rs ++ surplus prof rs) := by
  unfold surplus
  split
  · rename_i hnone
    have htail : ¬ 7 ≤ vendorTail prof := by
      rw [← List.append_nil prof, vendorTail_append (vendors_eq_nil_iff.1 hnone)]
      decide
    have hsplit := List.filter_append_perm (fun e : Ie => e.id ≠ 221) (inherited prof rs)
    rw [List.append_nil]
    refine List.Perm.trans (.of_eq ?_) hsplit
    rw [spare, if_neg htail, hnone, List.length_nil, List.drop_zero, plain, inherited, vendors,
      List.filter_filter, List.filter_filter, List.filter_filter]
    congr 1
    · refine List.filter_congr fun x _ => ?_
      rw [← Bool.decide_and]
    · refine List.filter_congr fun x _ => ?_
      by_cases hx : x.id = 221
      · simp [hx, fresh_vendor_iff hx (vendors_eq_nil_iff.1 hnone)]
      · simp [hx]
  · rename_i hsome
    refine (List.Perm.of_eq (List.filter_congr fun x _ => decide_eq_decide.2 ?_)).append_right _
    exact and_iff_right_of_imp fun hfresh hx => not_fresh_vendor hx hsome hfresh

theorem inherited_taken :
    inherited P.ies R.taken = inherited P.ies (R.front ++ R.back) ++ fragments R P := by
  unfold Reporting.taken behindFragments fragments
  split
  · rename_i hback
    rw [hback, List.append_nil, inherited_append]
  · rw [List.append_nil]

theorem vendors_taken : vendors R.taken = vendors (R.front ++ R.back) := by
  unfold Reporting.taken behindFragments
  split
  · rename_i hback
    have hnone : vendors R.frs.getLast?.toList = [] := by
      refine vendors_eq_nil_iff.2 fun f hf => ?_
      rw [R.frs_id f (List.mem_of_getLast? (Option.mem_toList.1 hf))]
      decide
    rw [hback, List.append_nil, vendors_append, hnone, List.append_nil]
  · rfl

theorem fragments_eq_nil_iff :
    fragments R P = [] ↔ (R.back = [] → R.frs ≠ [] → 242 ∈ (nonInheritance P.ies).1) := by
  unfold fragments
  split
  · rename_i hback
    cases hlast : R.frs.getLast? with
    | none =>
      have hnil : R.frs = [] := List.getLast?_eq_none_iff.1 hlast
      exact iff_of_true rfl fun _ hne => absurd hnil hne
    | some f =>
      have hne : R.frs ≠ [] := by
        intro hnil
        rw [hnil] at hlast
        cases hlast
      have hid : f.id = 242 := R.frs_id f (List.mem_of_getLast? hlast)
      have hnot : f.key ∉ P.ies.map Ie.key := by
        intro h
        obtain ⟨x, hx, hkey⟩ := List.mem_map.1 h
        exact P.unfragmented x hx ((Ie.id_eq_of_key hkey).trans hid)
      have hextn : f.extn = none := if_neg (by rw [hid]; decide)
      rw [inherited, List.filter_eq_nil_iff]
      simp only [Option.toList_some, List.mem_singleton, forall_eq, decide_eq_true_eq, Fresh, hnot,
        not_false_eq_true, true_and, listed, hextn, hid, decide_eq_false_iff_not, not_not]
      exact ⟨fun h _ _ => h, fun h => h hback hne⟩
  · rename_i hback
    exact iff_of_true rfl fun h => absurd h hback

theorem surplus_eq_nil_iff : surplus prof rs = [] ↔ vendors prof = [] ∨ 7 ≤ vendorTail prof ∨
    (vendors rs).length ≤ (vendors prof).length ∨ 221 ∈ (nonInheritance prof).1 := by
  unfold surplus spare
  split
  · exact iff_of_true rfl (.inl ‹_›)
  split
  · exact iff_of_true rfl (.inr (.inl ‹_›))
  rename_i hsome htail
  rw [or_iff_right hsome, or_iff_right htail, ← List.drop_eq_nil_iff, List.filter_eq_nil_iff]
  have hlisted : ∀ x ∈ (vendors rs).drop (vendors prof).length,
      (¬ decide (listed (nonInheritance prof).1 (nonInheritance prof).2 x = false) = true ↔
        221 ∈ (nonInheritance prof).1) := by
    intro x hx
    have hid : x.id = 221 := of_decide_eq_true (List.mem_filter.1 (List.mem_of_mem_drop hx)).2
    have hextn : x.extn = none := if_neg (by rw [hid]; decide)
    rw [listed, hextn, hid]
    simp only [decide_eq_true_eq, decide_eq_false_iff_not, not_not]
  constructor
  · intro h
    by_cases hnil : (vendors rs).drop (vendors prof).length = []
    · exact .inl hnil
    · obtain ⟨x, hx⟩ := List.exists_mem_of_ne_nil _ hnil
      exact .inr ((hlisted x hx).1 (h x hx))
  · rintro (hnil | h221) x hx
    · rw [hnil] at hx
      cases hx
    · exact (hlisted x hx).2 h221

/-! ## Main result -/

/-- What is there besides the elements that the link inherits. -/
theorem mergeIes_extra (h : mergeIes subtype maxsize linkid malloc (encodeIes R.ies)
      (encodeIes R.front).length (encodeIes P.ies) out = .ok out') :
    ∃ sec mlie, out' = out ++ encodeIes sec ∧ MlieAdded subtype linkid R.ml mlie ∧
      sec.Perm (P.ies ++ inherited P.ies (R.front ++ R.back) ++
        (fragments R P ++ surplus P.ies R.taken ++ mlie)) := by
  obtain ⟨sec, mlie, hout, hmlie, hperm⟩ := mergeIes_perm h
  refine ⟨sec, mlie, hout, hmlie, hperm.trans ?_⟩
  refine ((plain_spare_perm.append_left P.ies).append_right mlie).trans (.of_eq ?_)
  rw [inherited_taken]
  simp only [List.append_assoc]

theorem surplus_taken_eq_nil_iff : surplus P.ies R.taken = [] ↔
    vendors P.ies = [] ∨ 7 ≤ vendorTail P.ies ∨
      (vendors (R.front ++ R.back)).length ≤ (vendors P.ies).length ∨
      221 ∈ (nonInheritance P.ies).1 := by
  rw [surplus_eq_nil_iff, vendors_taken]

theorem id_of_mem_fragments (he : e ∈ fragments R P) : e.id = 242 := by
  unfold fragments at he
  split at he
  · exact R.frs_id e (List.mem_of_getLast? (Option.mem_toList.1 (List.mem_filter.1 he).1))
  · cases he

theorem id_of_mem_surplus (he : e ∈ surplus prof rs) : e.id = 221 := by
  unfold surplus spare at he
  split at he
  · cases he
  split at he
  · cases he
  · exact of_decide_eq_true
      (List.mem_filter.1 (List.mem_of_mem_drop (List.mem_filter.1 he).1)).2

/-- The extra elements are a Multi-Link element only if there are no others. -/
theorem extra_perm_singleton {mlie : List Ie} (he : e.id = 255)
    (h : (fragments R P ++ surplus prof rs ++ mlie).Perm [e]) :
    fragments R P = [] ∧ surplus prof rs = [] ∧ mlie = [e] := by
  have heq := List.perm_singleton.1 h
  have hfrag : fragments R P = [] := List.eq_nil_iff_forall_not_mem.2 fun x hx => by
    have hmem : x ∈ fragments R P ++ surplus prof rs ++ mlie :=
      List.mem_append_left _ (List.mem_append_left _ hx)
    rw [heq, List.mem_singleton] at hmem
    rw [← hmem, id_of_mem_fragments hx] at he
    exact absurd he (by decide)
  have hsur : surplus prof rs = [] := List.eq_nil_iff_forall_not_mem.2 fun x hx => by
    have hmem : x ∈ fragments R P ++ surplus prof rs ++ mlie :=
      List.mem_append_left _ (List.mem_append_right _ hx)
    rw [heq, List.mem_singleton] at hmem
    rw [← hmem, id_of_mem_surplus hx] at he
    exact absurd he (by decide)
  rw [hfrag, hsur] at heq
  exact ⟨hfrag, hsur, heq⟩

/-- **The frame has the elements that the link inherits** if and only if the fragments of the
    Multi-Link element do not end the reporting section, no vendor-specific element is left over
    when those of the profile are used up, and the common info is not fragmented. -/
theorem mergeIes_inherits_iff
    (h : mergeIes subtype maxsize linkid malloc (encodeIes R.ies) (encodeIes R.front).length
      (encodeIes P.ies) out = .ok out') :
    Inherits subtype linkid R P out out' ↔ Clean subtype R P := by
  obtain ⟨sec, mlie, hout, hmlie, hperm⟩ := mergeIes_extra h
  constructor
  · rintro ⟨sec', mlie', hout', hmlie', hperm'⟩
    have hsec : sec' = sec :=
      encodeIes_injective (List.append_cancel_left (hout'.symm.trans hout))
    rw [hsec] at hperm'
    have hextra := (List.perm_append_left_iff _).1 (hperm.symm.trans hperm')
    by_cases hsub : subtype = .probeResp
    · rw [if_pos hsub] at hmlie'
      rw [MlieAdded, if_pos hsub] at hmlie
      obtain ⟨e, he, rfl⟩ := hmlie'
      obtain ⟨hfrag, hsur, rfl⟩ := extra_perm_singleton he.id hextra
      refine ⟨fragments_eq_nil_iff.1 hfrag, surplus_taken_eq_nil_iff.1 hsur, fun _ => ?_⟩
      rcases hmlie with ⟨hlen, -⟩ | ⟨-, hnil⟩
      · exact hlen
      · cases hnil
    · rw [if_neg hsub] at hmlie'
      rw [hmlie', List.perm_nil, List.append_eq_nil_iff, List.append_eq_nil_iff] at hextra
      exact ⟨fragments_eq_nil_iff.1 hextra.1.1, surplus_taken_eq_nil_iff.1 hextra.1.2,
        fun h => absurd h hsub⟩
  · intro hclean
    rw [fragments_eq_nil_iff.2 hclean.fragments, surplus_taken_eq_nil_iff.2 hclean.vendors] at hperm
    refine ⟨sec, mlie, hout, ?_, hperm⟩
    by_cases hsub : subtype = .probeResp
    · rw [MlieAdded, if_pos hsub] at hmlie
      rw [if_pos hsub]
      rcases hmlie with ⟨-, hadded⟩ | ⟨hshort, -⟩
      · exact hadded
      · exact absurd (hclean.commonInfo hsub) (by omega)
    · rw [MlieAdded, if_neg hsub] at hmlie
      rwa [if_neg hsub]

/-! ## Frames -/

/-- Supported rates, with the ID 1. -/
def rates : Ie := ⟨1, [0x8c, 0x12], by decide⟩

/-- An element that makes a profile as long as it can be in one subelement. -/
def longIe : Ie := ⟨127, List.replicate 229 1, List.length_replicate.trans_lt (by decide)⟩

/-- What is behind the header of a Multi-Link element with a profile of the link 1. -/
def mlBody (ies : List Ie) : List UInt8 :=
  [107, 0, 0, 7, 2, 0, 0, 0, 0, 1] ++
    [0, UInt8.ofNat (13 + (encodeIes ies).length), 0x31, 0, 7, 2, 0, 0, 0, 0, 2, 1, 4, 0, 0] ++
    encodeIes ies

def oneElement : Profile := ⟨[longIe], by decide, by decide⟩

/-- A response that ends with the second fragment of its Multi-Link element. -/
def fragmentsLast : Reporting where
  front := [rates]
  ml := ⟨255, (mlBody oneElement.ies).take 255, by decide +kernel⟩
  frs := [⟨242, (mlBody oneElement.ies).drop 255, by decide +kernel⟩]
  back := []
  ml_key := by decide +kernel
  frs_id := by decide +kernel
  unfragmented := by decide +kernel
  ssid_first := by decide +kernel
  keys := by decide +kernel

/-- The frame that is made of it has the fragment. -/
theorem not_inherits_fragmentsLast : ∃ out',
    mergeIes .assocResp 1000 1 true (encodeIes fragmentsLast.ies)
      (encodeIes fragmentsLast.front).length (encodeIes oneElement.ies) (List.replicate 30 0) =
        .ok out' ∧
    ¬ Inherits .assocResp 1 fragmentsLast oneElement (List.replicate 30 0) out' := by
  refine ⟨List.replicate 30 0 ++ encodeIes (rates :: (fragmentsLast.frs ++ [longIe])),
    by decide +kernel, ?_⟩
  rintro ⟨sec, mlie, hout, hmlie, hperm⟩
  rw [if_neg (by decide)] at hmlie
  have hlength := hperm.length_eq
  rw [← encodeIes_injective (List.append_cancel_left hout), hmlie] at hlength
  exact absurd hlength (by decide +kernel)

def threeElements : Profile :=
  ⟨[⟨45, [0xef, 0x09], by decide⟩, ⟨255, [56, 1, 127, 0], by decide⟩,
    ⟨221, [0, 0x50, 0xf2, 2, 0], by decide⟩], by decide, by decide⟩

/-- A response with elements behind its Multi-Link element. -/
def fragmentsInside : Reporting where
  front := [rates, ⟨45, [0xad, 0x01], by decide⟩, ⟨127, [4], by decide⟩]
  ml := ⟨255, mlBody threeElements.ies, by decide +kernel⟩
  frs := []
  back := [⟨48, [1, 0], by decide⟩, ⟨221, [0, 0x50, 0xf2, 4], by decide⟩]
  ml_key := by decide +kernel
  frs_id := by decide +kernel
  unfragmented := by decide +kernel
  ssid_first := by decide +kernel
  keys := by decide +kernel

theorem inherits_fragmentsInside :
    Inherits .assocResp 1 fragmentsInside threeElements (List.replicate 30 0)
      (List.replicate 30 0 ++ [1, 2, 0x8c, 0x12, 45, 2, 0xef, 0x09, 48, 2, 1, 0,
        255, 4, 56, 1, 127, 0, 221, 5, 0, 0x50, 0xf2, 2, 0]) ↔
      Clean .assocResp fragmentsInside threeElements :=
  mergeIes_inherits_iff (show mergeIes .assocResp 1000 1 true (encodeIes fragmentsInside.ies)
    (encodeIes fragmentsInside.front).length (encodeIes threeElements.ies) _ = _ by
      decide +kernel)

end Sm8850.Mlo.LinkFrame
