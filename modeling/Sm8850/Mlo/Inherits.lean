/-
  Which elements a link-specific frame has.

  * `inherited`: the elements that the reporting STA has for the link.
  * `run_perm`: what the passes add, counted: the profile once, what is inherited, and the
    vendor-specific elements that are left over when the profile's are used up.
-/
import Sm8850.Mlo.MergeSteps

namespace Sm8850.Mlo.LinkFrame

/-! ## What is counted -/

/-- The profile neither has the element nor lists it. -/
def Fresh (elemlist elemextlist : List UInt8) (prof : List Ie) (r : Ie) : Prop :=
  r.key ∉ prof.map Ie.key ∧ listed elemlist elemextlist r = false

instance (elemlist elemextlist : List UInt8) (prof : List Ie) (r : Ie) :
    Decidable (Fresh elemlist elemextlist prof r) :=
  inferInstanceAs (Decidable (_ ∧ _))

/-- The vendor-specific elements, which have the ID 221. -/
def vendors (es : List Ie) : List Ie := es.filter (·.id = 221)

/-- How much of the section there is from the first vendor-specific element on. -/
def vendorTail (es : List Ie) : ℕ := (encodeIes (es.dropWhile (·.id ≠ 221))).length

/-- The other elements that are inherited. -/
def plain (elemlist elemextlist : List UInt8) (prof rs : List Ie) : List Ie :=
  rs.filter fun r => r.id ≠ 221 ∧ Fresh elemlist elemextlist prof r

/-- The vendor-specific elements that are copied: those for which no vendor-specific element of
    the profile is left. -/
def spare (elemlist elemextlist : List UInt8) (prof rs : List Ie) : List Ie :=
  if 7 ≤ vendorTail prof then []
  else ((vendors rs).drop (vendors prof).length).filter fun r =>
    listed elemlist elemextlist r = false

variable {elemlist elemextlist : List UInt8} {r e : Ie} {rs rs' a b es : List Ie}
  {prof prof' added : List Ie}

theorem vendors_append : vendors (a ++ b) = vendors a ++ vendors b := List.filter_append ..

theorem vendors_cons_of_eq (h : e.id = 221) : vendors (e :: es) = e :: vendors es :=
  List.filter_cons_of_pos (by simpa using h)

theorem vendors_cons_of_ne (h : e.id ≠ 221) : vendors (e :: es) = vendors es :=
  List.filter_cons_of_neg (by simpa using h)

theorem vendors_eq_nil_iff : vendors es = [] ↔ ∀ x ∈ es, x.id ≠ 221 := by
  rw [vendors, List.filter_eq_nil_iff]
  simp only [decide_eq_true_eq, ne_eq]

theorem vendorTail_cons_of_ne (h : e.id ≠ 221) : vendorTail (e :: es) = vendorTail es := by
  rw [vendorTail, List.dropWhile_cons_of_pos (by simpa using h)]
  rfl

theorem vendorTail_cons_of_eq (h : e.id = 221) :
    vendorTail (e :: es) = (encodeIes (e :: es)).length := by
  rw [vendorTail, List.dropWhile_cons_of_neg (by simpa using h)]

theorem vendorTail_append (h : ∀ x ∈ a, x.id ≠ 221) : vendorTail (a ++ b) = vendorTail b := by
  induction a with
  | nil => rfl
  | cons x a ih =>
    rw [List.cons_append, vendorTail_cons_of_ne (h x (List.mem_cons_self ..)),
      ih fun y hy => h y (List.mem_cons_of_mem _ hy)]

theorem vendorTail_le : vendorTail es ≤ (encodeIes es).length := by
  induction es with
  | nil => exact Nat.le_refl _
  | cons e es ih =>
    by_cases he : e.id = 221
    · rw [vendorTail_cons_of_eq he]
    · rw [vendorTail_cons_of_ne he, encodeIes_cons, List.length_append]
      exact ih.trans (Nat.le_add_left _ _)

/-- Marking an element that is not vendor-specific. -/
theorem vendorTail_mark (he : e.id ≠ 221) :
    vendorTail (a ++ e.mark :: b) = vendorTail (a ++ e :: b) := by
  have hmark : e.mark.id ≠ 221 := by
    rw [Ie.mark_id]
    decide
  induction a with
  | nil => rw [List.nil_append, List.nil_append, vendorTail_cons_of_ne hmark,
      vendorTail_cons_of_ne he]
  | cons x a ih =>
    rw [List.cons_append, List.cons_append]
    by_cases hx : x.id = 221
    · simp only [vendorTail_cons_of_eq hx, encodeIes_cons, encodeIes_append, List.length_append,
        Ie.length_bytes_mark]
    · rw [vendorTail_cons_of_ne hx, vendorTail_cons_of_ne hx, ih]

theorem vendors_mark (he : e.id ≠ 221) : vendors (a ++ e.mark :: b) = vendors (a ++ e :: b) := by
  have hmark : e.mark.id ≠ 221 := by
    rw [Ie.mark_id]
    decide
  rw [vendors_append, vendors_append, vendors_cons_of_ne he, vendors_cons_of_ne hmark]

theorem left_append : left (a ++ b) = left a ++ left b := List.filter_append ..

theorem left_mark_perm (he : e.id ≠ 0) :
    (e :: left (a ++ e.mark :: b)).Perm (left (a ++ e :: b)) := by
  rw [left_append, left_append, left_cons, left_cons, if_pos Ie.mark_id, if_neg he]
  exact List.perm_middle.symm

/-! ## One step -/

theorem plain_cons : plain elemlist elemextlist prof (r :: rs) =
    (if r.id ≠ 221 ∧ Fresh elemlist elemextlist prof r then [r] else []) ++
      plain elemlist elemextlist prof rs := by
  unfold plain
  split
  · rename_i h
    exact List.filter_cons_of_pos (by simpa using h)
  · rename_i h
    exact List.filter_cons_of_neg (by simpa using h)

theorem spare_cons_of_ne (h : r.id ≠ 221) : spare elemlist elemextlist prof (r :: rs) =
    spare elemlist elemextlist prof rs := by
  rw [spare, vendors_cons_of_ne h]
  rfl

theorem spare_of_le (h : 7 ≤ vendorTail prof) : spare elemlist elemextlist prof rs = [] := if_pos h

theorem Ie.id_eq_of_key (h : e.key = r.key) : e.id = r.id := congrArg Prod.fst h

/-- What a step leaves of the profile for other elements. -/
theorem Step.mem_keys_iff {k : UInt8 × Option UInt8}
    (h : Step elemlist elemextlist r prof prof' added) (hid : k.1 ≠ 0) (hk : k ≠ r.key) :
    k ∈ prof'.map Ie.key ↔ k ∈ prof.map Ie.key := by
  cases h with
  | @own a e b hkey =>
    have hmark : k ≠ e.mark.key := fun h => hid (congrArg Prod.fst h)
    have hother : k ≠ e.key := hkey ▸ hk
    simp only [List.map_append, List.map_cons, List.mem_append, List.mem_cons, hmark, hother,
      false_or]
  | later | listed | inherited => exact Iff.rfl

theorem Step.plain_eq (h : Step elemlist elemextlist r prof prof' added)
    (hrs : ∀ x ∈ rs, x.id ≠ 0 ∧ (x.id ≠ 221 → x.key ≠ r.key)) :
    plain elemlist elemextlist prof' rs = plain elemlist elemextlist prof rs := by
  refine List.filter_congr fun x hx => decide_eq_decide.2 ?_
  by_cases hvendor : x.id = 221
  · exact iff_of_false (fun h => h.1 hvendor) fun h => h.1 hvendor
  · rw [Fresh, Fresh, h.mem_keys_iff (hrs x hx).1 ((hrs x hx).2 hvendor)]

/-- **A step adds** the element of the profile, an inherited one, or a spare one. -/
theorem Step.perm (h : Step elemlist elemextlist r prof prof' added) (hid : r.id ≠ 0)
    (hrs : ∀ x ∈ rs, x.id ≠ 0 ∧ (x.id ≠ 221 → x.key ≠ r.key)) :
    (added ++ (left prof' ++
      (plain elemlist elemextlist prof' rs ++ spare elemlist elemextlist prof' rs))).Perm
      (left prof ++ (plain elemlist elemextlist prof (r :: rs) ++
        spare elemlist elemextlist prof (r :: rs))) := by
  rw [h.plain_eq hrs, plain_cons]
  cases h with
  | @later a e b hkey hfirst hvendor htail =>
    have he : e.id = 221 := (Ie.id_eq_of_key hkey).trans hvendor
    have hnot : ∀ x ∈ a, x.id ≠ 221 := fun x hx hx' =>
      hfirst x hx ((Ie.key_eq_iff_of_id (by rw [hvendor]; decide)).2 (hx'.trans hvendor.symm))
    have htail' : 7 ≤ vendorTail (a ++ e :: b) := by
      rwa [vendorTail_append hnot, vendorTail_cons_of_eq he]
    rw [spare_of_le htail', spare_of_le htail', if_neg fun h => h.1 hvendor]
    rfl
  | @own a e b hkey hfirst htail =>
    have hhas : r.key ∈ (a ++ e :: b).map Ie.key :=
      hkey ▸ List.mem_map_of_mem (List.mem_append_right _ (List.mem_cons_self ..))
    rw [if_neg fun h => h.2.1 hhas, List.nil_append]
    have hleft := left_mark_perm (a := a) (b := b) (e := e)
      (by rw [Ie.id_eq_of_key hkey]; exact hid)
    have hspare : spare elemlist elemextlist (a ++ e.mark :: b) rs =
        spare elemlist elemextlist (a ++ e :: b) (r :: rs) := by
      by_cases hvendor : r.id = 221
      · have he : e.id = 221 := (Ie.id_eq_of_key hkey).trans hvendor
        have hmark : e.mark.id ≠ 221 := by
          rw [Ie.mark_id]
          decide
        have hnot : ∀ x ∈ a, x.id ≠ 221 := fun x hx hx' =>
          hfirst x hx ((Ie.key_eq_iff_of_id (by rw [hvendor]; decide)).2 (hx'.trans hvendor.symm))
        have hlt := htail hvendor
        have hle : vendorTail b ≤ (encodeIes (e :: b)).length := by
          rw [encodeIes_cons, List.length_append]
          exact vendorTail_le.trans (Nat.le_add_left _ _)
        rw [spare, spare, vendorTail_append hnot, vendorTail_append hnot,
          vendorTail_cons_of_eq he, vendorTail_cons_of_ne hmark, if_neg (by omega),
          if_neg (by omega), vendors_append, vendors_append, vendors_eq_nil_iff.2 hnot,
          vendors_cons_of_eq he, vendors_cons_of_ne hmark, vendors_cons_of_eq hvendor]
        rfl
      · have he : e.id ≠ 221 := (Ie.id_eq_of_key hkey).trans_ne hvendor
        rw [spare_cons_of_ne hvendor, spare, spare, vendorTail_mark he, vendors_mark he]
    rw [hspare]
    exact hleft.append_right _
  | listed hnone hlisted =>
    rw [if_neg fun h => by rw [h.2.2] at hlisted; cases hlisted]
    by_cases hvendor : r.id = 221
    · have hnot : ∀ x ∈ prof, x.id ≠ 221 := fun x hx hx' =>
        hnone x hx ((Ie.key_eq_iff_of_id (by rw [hvendor]; decide)).2 (hx'.trans hvendor.symm))
      rw [spare, spare, vendors_eq_nil_iff.2 hnot, vendors_cons_of_eq hvendor, List.length_nil,
        List.drop_zero, List.drop_zero, List.filter_cons_of_neg (by simp [hlisted])]
      rfl
    · rw [spare_cons_of_ne hvendor]
      rfl
  | inherited hnone hlisted =>
    have hfresh : Fresh elemlist elemextlist prof r :=
      ⟨fun h => (List.mem_map.1 h).elim fun x hx => hnone x hx.1 hx.2, hlisted⟩
    by_cases hvendor : r.id = 221
    · have hnot : ∀ x ∈ prof, x.id ≠ 221 := fun x hx hx' =>
        hnone x hx ((Ie.key_eq_iff_of_id (by rw [hvendor]; decide)).2 (hx'.trans hvendor.symm))
      have htail : ¬ 7 ≤ vendorTail prof := by
        rw [← List.append_nil prof, vendorTail_append hnot]
        decide
      rw [spare, spare, if_neg htail, if_neg htail, vendors_eq_nil_iff.2 hnot,
        vendors_cons_of_eq hvendor, List.length_nil, List.drop_zero, List.drop_zero,
        List.filter_cons_of_pos (by simp [hlisted]), if_neg fun h => h.1 hvendor,
        List.nil_append, ← List.append_assoc (left prof), ← List.append_assoc (left prof),
        List.singleton_append]
      exact List.perm_middle.symm
    · rw [spare_cons_of_ne hvendor, if_pos ⟨hvendor, hfresh⟩, List.append_assoc [r],
        List.singleton_append, List.singleton_append]
      exact List.perm_middle.symm

/-! ## Runs -/

/-- **What a run adds**: together with what is left of the profile, the profile, what is
    inherited, and what is spare. -/
theorem Run.perm (h : Run elemlist elemextlist rs prof prof' added) (hid : ∀ r ∈ rs, r.id ≠ 0)
    (hkeys : ((rs.filter (·.id ≠ 221)).map Ie.key).Nodup) :
    (added ++ left prof').Perm (left prof ++
      (plain elemlist elemextlist prof rs ++ spare elemlist elemextlist prof rs)) := by
  induction h with
  | nil =>
    have hspare : ∀ prof, spare elemlist elemextlist prof [] = [] := fun prof => by
      rw [spare]
      split
      · rfl
      · rw [show vendors [] = [] from rfl, List.drop_nil]
        rfl
    rw [hspare]
    exact .of_eq (List.append_nil _).symm
  | @cons r rs prof prof' prof'' added added' step run ih =>
    have hsub : (rs.filter (·.id ≠ 221)).Sublist ((r :: rs).filter (·.id ≠ 221)) :=
      (List.sublist_cons_self r rs).filter _
    have hother : ∀ x ∈ rs, x.id ≠ 0 ∧ (x.id ≠ 221 → x.key ≠ r.key) := by
      intro x hx
      refine ⟨hid x (List.mem_cons_of_mem _ hx), fun hx' hkey => ?_⟩
      have hr : r.id ≠ 221 := (Ie.id_eq_of_key hkey).symm.trans_ne hx'
      rw [List.filter_cons_of_pos (by simpa using hr), List.map_cons, List.nodup_cons] at hkeys
      exact hkeys.1 (hkey ▸ List.mem_map_of_mem (List.mem_filter.2 ⟨hx, by simpa using hx'⟩))
    have hrest := ih (fun x hx => hid x (List.mem_cons_of_mem _ hx))
      (hkeys.sublist (hsub.map _))
    rw [List.append_assoc]
    exact (hrest.append_left added).trans (step.perm (hid r (List.mem_cons_self ..)) hother)

theorem left_eq_self (h : ∀ x ∈ prof, x.id ≠ 0) : left prof = prof :=
  List.filter_eq_self.2 fun x hx => by simpa using h x hx

/-- The same with an SSID element in the first place, the ID of which is the mark. -/
theorem Run.perm_ssid (h : Run elemlist elemextlist rs prof prof' added)
    (hrs : ∀ x ∈ rs.tail, x.id ≠ 0) (hprof : ∀ x ∈ prof.tail, x.id ≠ 0)
    (hssid : (∀ x ∈ rs, x.id ≠ 0) → ∀ x ∈ prof, x.id ≠ 0)
    (hkeys : ((rs.filter (·.id ≠ 221)).map Ie.key).Nodup) :
    (added ++ left prof').Perm (prof ++
      (plain elemlist elemextlist prof rs ++ spare elemlist elemextlist prof rs)) := by
  by_cases hnone : ∀ x ∈ rs, x.id ≠ 0
  · have hperm := h.perm hnone hkeys
    rwa [left_eq_self (hssid hnone)] at hperm
  cases h with
  | nil => exact absurd nofun hnone
  | @cons r rs _ prof₁ _ added added' step run =>
    have hr : r.id = 0 := by
      by_contra hr
      exact hnone fun x hx => (List.mem_cons.1 hx).elim (fun h => h ▸ hr) (hrs x)
    have hvendor : r.id ≠ 221 := by
      rw [hr]
      decide
    have hkeys' : ((rs.filter (·.id ≠ 221)).map Ie.key).Nodup :=
      hkeys.sublist (((List.sublist_cons_self r rs).filter _).map _)
    have hmark : ∀ x : Ie, x.key = r.key ↔ x.id = 0 := fun x =>
      (Ie.key_eq_iff_of_id (by rw [hr]; decide)).trans (by rw [hr])
    have hrest := run.perm hrs hkeys'
    rw [spare_cons_of_ne hvendor, plain_cons, List.append_assoc]
    cases step with
    | later _ _ h221 => exact absurd h221 hvendor
    | @own a e b hkey =>
      have he : e.id = 0 := (hmark e).1 hkey
      cases a with
      | cons x a =>
        exact absurd he (hprof e (List.mem_append_right _ (List.mem_cons_self ..)))
      | nil =>
        rw [List.nil_append] at hprof hrest ⊢
        have hhas : r.key ∈ (e :: b).map Ie.key := hkey ▸ List.mem_cons_self ..
        have hb : left b = b := left_eq_self hprof
        rw [Ie.mark_eq he, left_cons, if_pos he, List.nil_append, hb] at hrest
        rw [if_neg fun h => h.2.1 hhas, List.nil_append]
        exact hrest.cons e
    | listed hother hlisted =>
      rw [left_eq_self fun x hx h => hother x hx ((hmark x).2 h)] at hrest
      rw [if_neg fun h => by rw [h.2.2] at hlisted; cases hlisted]
      exact hrest
    | inherited hother hlisted =>
      rw [left_eq_self fun x hx h => hother x hx ((hmark x).2 h)] at hrest
      have hfresh : Fresh elemlist elemextlist prof r :=
        ⟨fun h => (List.mem_map.1 h).elim fun x hx => hother x hx.1 hx.2, hlisted⟩
      rw [if_pos ⟨hvendor, hfresh⟩, List.append_assoc [r], List.singleton_append,
        List.singleton_append]
      exact (hrest.cons r).trans List.perm_middle.symm

end Sm8850.Mlo.LinkFrame
