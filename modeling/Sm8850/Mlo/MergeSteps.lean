/-
  The passes of the merge, on lists of elements.

  * `Step`, `Run`: what one element of the reporting STA, and a list of them, adds to the frame
    and marks in the STA profile.
  * `mergeIe_step`, `mergeReporting_front`, `mergeReporting_run`: the loop makes such steps.
  * `skipFragments_rest`: where the loop goes on behind the Multi-Link element.
  * `copyRemaining_left`: what is not marked of the profile is copied.
  * `getNoninheritlists_eq`: the lists are those of the profile's Non-Inheritance element.
-/
import Sm8850.Mlo.Ies

namespace Sm8850.Mlo.LinkFrame

open Lib.Bytes LinkInfo

/-! ## Steps -/

/-- An element is in the lists. -/
def listed (elemlist elemextlist : List UInt8) (e : Ie) : Bool :=
  match e.extn with
  | some x => decide (x ∈ elemextlist)
  | none => decide (e.id ∈ elemlist)

/-- What an element of the reporting STA does: the profile's own elements behind it, and what it
    adds to the frame. -/
inductive Step (elemlist elemextlist : List UInt8) (r : Ie) : List Ie → List Ie → List Ie → Prop
  | later {a e b} (hkey : e.key = r.key) (hfirst : ∀ x ∈ a, x.key ≠ r.key) (hvendor : r.id = 221)
      (htail : 7 ≤ (encodeIes (e :: b)).length) :
      Step elemlist elemextlist r (a ++ e :: b) (a ++ e :: b) []
  | own {a e b} (hkey : e.key = r.key) (hfirst : ∀ x ∈ a, x.key ≠ r.key)
      (htail : r.id = 221 → (encodeIes (e :: b)).length < 7) :
      Step elemlist elemextlist r (a ++ e :: b) (a ++ e.mark :: b) [e]
  | listed {prof} (hnone : ∀ x ∈ prof, x.key ≠ r.key)
      (hlisted : listed elemlist elemextlist r = true) :
      Step elemlist elemextlist r prof prof []
  | inherited {prof} (hnone : ∀ x ∈ prof, x.key ≠ r.key)
      (hlisted : LinkFrame.listed elemlist elemextlist r = false) :
      Step elemlist elemextlist r prof prof [r]

/-- The steps of a list of elements. -/
inductive Run (elemlist elemextlist : List UInt8) :
    List Ie → List Ie → List Ie → List Ie → Prop
  | nil {prof} : Run elemlist elemextlist [] prof prof []
  | cons {r rs prof prof' prof'' added added'}
      (step : Step elemlist elemextlist r prof prof' added)
      (run : Run elemlist elemextlist rs prof' prof'' added') :
      Run elemlist elemextlist (r :: rs) prof prof'' (added ++ added')

variable {elemlist elemextlist : List UInt8} {m : Merge} {r e : Ie} {es es' rs rs' a b : List Ie}
  {prof prof' prof'' added added' : List Ie} {l out out' : List UInt8} {s s' : State}

theorem Run.append (h : Run elemlist elemextlist rs prof prof' added)
    (h' : Run elemlist elemextlist rs' prof' prof'' added') :
    Run elemlist elemextlist (rs ++ rs') prof prof'' (added ++ added') := by
  induction h with
  | nil => exact h'
  | cons step _ ih =>
    rw [List.append_assoc]
    exact .cons step (ih h')

/-! ## One element -/

theorem findStaProfIe_eq_none (hr : r.HasExtn) (h : ∀ x ∈ prof, x.key ≠ r.key) :
    findStaProfIe (r.bytes ++ l) (encodeIes prof) = none := by
  unfold findStaProfIe
  split
  · rfl
  rw [Ie.idPos_bytes]
  split
  · rename_i hid
    obtain ⟨x, hx⟩ := hr.exists_head hid
    rw [Ie.idextPos_bytes hx]
    exact findExtnEid_eq_none fun y hy hmatch =>
      h y hy ((Ie.key_eq_iff_of_extn hid hx).2 hmatch)
  · rename_i hid
    exact findEid_eq_none fun y hy hmatch => h y hy ((Ie.key_eq_iff_of_id hid).2 hmatch)

theorem findStaProfIe_first (hr : r.HasExtn) (ha : ∀ x ∈ a, x.key ≠ r.key)
    (hkey : e.key = r.key) :
    findStaProfIe (r.bytes ++ l) (encodeIes (a ++ e :: b)) = some (encodeIes a).length := by
  have hpos : (encodeIes (a ++ e :: b)).length ≠ 0 := by
    rw [encodeIes_append, encodeIes_cons, List.length_append, List.length_append,
      Ie.length_bytes]
    omega
  unfold findStaProfIe
  rw [if_neg hpos, Ie.idPos_bytes]
  split
  · rename_i hid
    obtain ⟨x, hx⟩ := hr.exists_head hid
    have hmatch := (Ie.key_eq_iff_of_extn hid hx).1 hkey
    rw [Ie.idextPos_bytes hx]
    exact findExtnEid_first
      (fun y hy hy' => ha y hy ((Ie.key_eq_iff_of_extn hid hx).2 hy')) hmatch.1 hmatch.2
  · rename_i hid
    exact findEid_first (fun y hy hy' => ha y hy ((Ie.key_eq_iff_of_id hid).2 hy'))
      ((Ie.key_eq_iff_of_id hid).1 hkey)

theorem evalIeInNoninheritlist_bytes (hr : r.HasExtn) :
    evalIeInNoninheritlist (r.bytes ++ l) (ieSize (r.bytes ++ l)) elemlist elemextlist =
      .ok (listed elemlist elemextlist r) := by
  rw [evalIeInNoninheritlist, Ie.ieSize_bytes, Ie.length_bytes, Ie.idPos_bytes,
    if_neg (by omega)]
  by_cases hid : r.id = 255
  · obtain ⟨x, hx⟩ := hr.exists_head hid
    have hextn : r.extn = some x := by rw [Ie.extn, if_pos hid, hx]
    have hbody : 0 < r.body.length := List.length_pos_of_ne_nil (hr hid)
    rw [if_neg fun h => absurd h.2 (by omega), if_neg (not_not.2 hid), Ie.idextPos_bytes hx,
      listed, hextn]
  · have hextn : r.extn = none := by rw [Ie.extn, if_neg hid]
    rw [if_neg fun h => hid h.1, if_pos hid, listed, hextn]

theorem copyIe_eq_ok {ie : List UInt8} (h : copyIe m out ie = .ok out') : out' = out ++ ie := by
  unfold copyIe at h
  split at h
  · cases h
    rfl
  · cases h

/-- **An element of the reporting STA makes a step.** -/
theorem mergeIe_step (hr : r.HasExtn)
    (h : mergeIe m (r.bytes ++ l) ⟨out, encodeIes prof⟩ = .ok s) :
    ∃ prof' added, Step m.elemlist m.elemextlist r prof prof' added ∧
      s = ⟨out ++ encodeIes added, encodeIes prof'⟩ := by
  rcases exists_first (fun x => x.key = r.key) prof with hnone | ⟨a, e, b, rfl, hkey, hfirst⟩
  · rw [mergeIe, findStaProfIe_eq_none hr hnone] at h
    obtain ⟨isIn, hisIn, h⟩ := Elem.bind_eq_ok.1 h
    rw [evalIeInNoninheritlist_bytes hr] at hisIn
    cases hisIn
    cases hlisted : listed m.elemlist m.elemextlist r with
    | true =>
      rw [hlisted, if_pos rfl] at h
      cases h
      exact ⟨prof, [], .listed hnone hlisted, by rw [encodeIes_nil, List.append_nil]⟩
    | false =>
      rw [hlisted, if_neg Bool.false_ne_true] at h
      obtain ⟨out', hcopy, h⟩ := Elem.bind_eq_ok.1 h
      cases h
      refine ⟨prof, [r], .inherited hnone hlisted, ?_⟩
      rw [copyIe_eq_ok hcopy, Ie.ieSize_bytes, Ie.take_bytes, encodeIes_cons, encodeIes_nil,
        List.append_nil]
  · rw [mergeIe, findStaProfIe_first hr hfirst hkey] at h
    simp only [drop_encodeIes] at h
    obtain ⟨-, -, h⟩ := Elem.bind_eq_ok.1 h
    rw [Ie.idPos_bytes, ← encodeIes_cons] at h
    by_cases hlater : r.id = 221 ∧ 7 ≤ (encodeIes (e :: b)).length
    · rw [if_pos hlater] at h
      cases h
      exact ⟨a ++ e :: b, [], .later hkey hfirst hlater.1 hlater.2,
        by rw [encodeIes_nil, List.append_nil]⟩
    · rw [if_neg hlater] at h
      obtain ⟨out', hcopy, h⟩ := Elem.bind_eq_ok.1 h
      cases h
      refine ⟨a ++ e.mark :: b, [e],
        .own hkey hfirst fun hvendor => Nat.lt_of_not_le fun h => hlater ⟨hvendor, h⟩, ?_⟩
      rw [copyIe_eq_ok hcopy, set_encodeIes, encodeIes_cons, Ie.ieSize_bytes, Ie.take_bytes,
        encodeIes_cons, encodeIes_nil, List.append_nil]

/-! ## The loop over the reporting STA -/

theorem isMl_bytes (hr : r.HasExtn) :
    (idPos (r.bytes ++ l) = 255 ∧ idextPos (r.bytes ++ l) = 107) ↔ r.key = (255, some 107) := by
  rw [Ie.idPos_bytes]
  by_cases hid : r.id = 255
  · obtain ⟨x, hx⟩ := hr.exists_head hid
    rw [Ie.idextPos_bytes hx, Ie.key, Ie.extn, if_pos hid, hid, hx, Prod.mk.injEq,
      Option.some.injEq]
  · exact iff_of_false (fun h => hid h.1) fun h => hid (congrArg Prod.fst h)

/-- One turn of the loop. -/
theorem mergeReporting_cons (h : mergeReporting m (encodeIes (e :: es)) s = .ok s') :
    ∃ s₁, mergeStep m (encodeIes (e :: es)) s = .ok s₁ ∧
      ((es = [] ∧ s' = s₁) ∨ (es ≠ [] ∧ ∃ next, nextIe (encodeIes (e :: es)) = .ok next ∧
        mergeReporting m next s₁ = .ok s')) := by
  have hsize : ieSize (encodeIes (e :: es)) = e.bytes.length := by
    rw [encodeIes_cons, Ie.ieSize_bytes]
  have hlength : (encodeIes (e :: es)).length = e.bytes.length + (encodeIes es).length := by
    rw [encodeIes_cons, List.length_append]
  have hpos : e.bytes.length = e.body.length + 2 := Ie.length_bytes
  rw [mergeReporting, if_neg (by rw [hsize, hlength]; omega)] at h
  cases hstep : mergeStep m (encodeIes (e :: es)) s with
  | error err => rw [hstep] at h; cases h
  | ok s₁ =>
    rw [hstep] at h
    refine ⟨s₁, rfl, ?_⟩
    cases es with
    | nil =>
      simp only [hsize, hlength, encodeIes_nil, List.length_nil, Nat.add_zero, if_true] at h
      cases h
      exact .inl ⟨rfl, rfl⟩
    | cons e' es =>
      have htail : 0 < (encodeIes (e' :: es)).length :=
        List.length_pos_of_ne_nil fun h => List.cons_ne_nil _ _ (encodeIes_eq_nil.1 h)
      have hne : ¬ e.bytes.length = e.bytes.length + (encodeIes (e' :: es)).length := by omega
      simp only [hsize, hlength, if_neg hne] at h
      cases hnext : nextIe (encodeIes (e :: e' :: es)) with
      | error err => rw [hnext] at h; cases h
      | ok next =>
        rw [hnext] at h
        exact .inr ⟨List.cons_ne_nil _ _, next, rfl, h⟩

/-- An element that is not a Multi-Link element. -/
theorem mergeReporting_other (hr : r.HasExtn) (hml : r.key ≠ (255, some 107))
    (h : mergeReporting m (encodeIes (r :: rs)) ⟨out, encodeIes prof⟩ = .ok s) :
    ∃ prof' added, Step m.elemlist m.elemextlist r prof prof' added ∧
      ((rs = [] ∧ s = ⟨out ++ encodeIes added, encodeIes prof'⟩) ∨
        (rs ≠ [] ∧ validateReportingstaIe (encodeIes rs) = .ok () ∧
          mergeReporting m (encodeIes rs) ⟨out ++ encodeIes added, encodeIes prof'⟩ = .ok s)) := by
  obtain ⟨s₁, hstep, hlast⟩ := mergeReporting_cons h
  have hother : ¬ (idPos (r.bytes ++ encodeIes rs) = 255 ∧
      idextPos (r.bytes ++ encodeIes rs) = 107) := fun h => hml ((isMl_bytes hr).1 h)
  rw [encodeIes_cons, mergeStep, if_neg hother] at hstep
  obtain ⟨prof', added, hmerged, rfl⟩ := mergeIe_step hr hstep
  refine ⟨prof', added, hmerged, ?_⟩
  rcases hlast with ⟨hnil, hs⟩ | ⟨hne, next, hnext, hrun⟩
  · exact .inl ⟨hnil, hs⟩
  · rw [encodeIes_cons] at hnext
    obtain ⟨u, hval, hnext⟩ := Elem.bind_eq_ok.1 hnext
    cases u
    rw [if_neg hother] at hnext
    cases hnext
    rw [Ie.ieSize_bytes, Ie.drop_bytes] at hval hrun
    exact .inr ⟨hne, hval, hrun⟩

/-- The elements up to some place of the section. -/
theorem mergeReporting_front (hml : ∀ x ∈ rs, x.key ≠ (255, some 107)) (hne : rs' ≠ [])
    (hval : validateReportingstaIe (encodeIes (rs ++ rs')) = .ok ())
    (h : mergeReporting m (encodeIes (rs ++ rs')) ⟨out, encodeIes prof⟩ = .ok s) :
    ∃ prof' added, Run m.elemlist m.elemextlist rs prof prof' added ∧
      validateReportingstaIe (encodeIes rs') = .ok () ∧
      mergeReporting m (encodeIes rs') ⟨out ++ encodeIes added, encodeIes prof'⟩ = .ok s := by
  induction rs generalizing out prof with
  | nil => exact ⟨prof, [], .nil, hval, by rwa [encodeIes_nil, List.append_nil]⟩
  | cons r rs ih =>
    have hr : r.HasExtn := by
      rw [List.cons_append, encodeIes_cons] at hval
      exact hasExtn_of_validateReporting hval
    obtain ⟨prof', added, hstep, ⟨hnil, -⟩ | ⟨-, hval, h⟩⟩ :=
      mergeReporting_other hr (hml r (List.mem_cons_self ..)) h
    · exact absurd (List.append_eq_nil_iff.1 hnil).2 hne
    · obtain ⟨prof'', added', hrun, hval, h⟩ :=
        ih (fun x hx => hml x (List.mem_cons_of_mem _ hx)) hval h
      refine ⟨prof'', added ++ added', .cons hstep hrun, hval, ?_⟩
      rwa [encodeIes_append, ← List.append_assoc]

/-- The elements to the end of the section. -/
theorem mergeReporting_run (hml : ∀ x ∈ rs, x.key ≠ (255, some 107))
    (hval : validateReportingstaIe (encodeIes rs) = .ok ())
    (h : mergeReporting m (encodeIes rs) ⟨out, encodeIes prof⟩ = .ok s) :
    ∃ prof' added, Run m.elemlist m.elemextlist rs prof prof' added ∧
      s = ⟨out ++ encodeIes added, encodeIes prof'⟩ := by
  induction rs generalizing out prof with
  | nil => cases hval
  | cons r rs ih =>
    have hr : r.HasExtn := by
      rw [encodeIes_cons] at hval
      exact hasExtn_of_validateReporting hval
    obtain ⟨prof', added, hstep, ⟨rfl, rfl⟩ | ⟨-, hval, h⟩⟩ :=
      mergeReporting_other hr (hml r (List.mem_cons_self ..)) h
    · refine ⟨prof', added ++ [], .cons hstep .nil, ?_⟩
      rw [List.append_nil]
    · obtain ⟨prof'', added', hrun, rfl⟩ :=
        ih (fun x hx => hml x (List.mem_cons_of_mem _ hx)) hval h
      refine ⟨prof'', added ++ added', .cons hstep hrun, ?_⟩
      rw [encodeIes_append, List.append_assoc]

/-! ## Fragments -/

/-- Where the loop goes on behind a Multi-Link element: behind its fragments, or at the last
    fragment if nothing is behind it. -/
def behindFragments (frs back : List Ie) : List Ie :=
  if back = [] then frs.getLast?.toList else back

theorem behindFragments_cons {f : Ie} {frs back : List Ie} (hne : frs ++ back ≠ []) :
    behindFragments (f :: frs) back = behindFragments frs back := by
  unfold behindFragments
  split
  · rename_i hback
    rw [hback, List.append_nil] at hne
    rw [List.getLast?_cons_of_ne_nil hne]
  · rfl

theorem skipFragments_rest {frs back : List Ie} (hne : frs ++ back ≠ [])
    (hfrs : ∀ f ∈ frs, f.id = 242) (hback : ∀ e ∈ back.head?, e.id ≠ 242)
    (hval : validateReportingstaIe (encodeIes (frs ++ back)) = .ok ())
    (h : skipFragments (encodeIes (frs ++ back)) = .ok l) :
    l = encodeIes (behindFragments frs back) ∧
      validateReportingstaIe (encodeIes (behindFragments frs back)) = .ok () := by
  induction frs with
  | nil =>
    cases back with
    | nil => exact absurd rfl hne
    | cons e back =>
      have hid : ¬ (idPos (encodeIes (e :: back)) = 242 ∧
          ieSize (encodeIes (e :: back)) < (encodeIes (e :: back)).length) := by
        rw [encodeIes_cons, Ie.idPos_bytes]
        exact fun h => hback e rfl h.1
      rw [List.nil_append, skipFragments, if_neg hid] at h
      cases h
      exact ⟨rfl, hval⟩
  | cons f frs ih =>
    have hid : f.id = 242 := hfrs f (List.mem_cons_self ..)
    rw [List.cons_append, encodeIes_cons, skipFragments, Ie.idPos_bytes, Ie.ieSize_bytes,
      Ie.drop_bytes, List.length_append] at h
    by_cases hrest : frs ++ back = []
    · obtain ⟨rfl, rfl⟩ := List.append_eq_nil_iff.1 hrest
      rw [if_neg (by rw [List.append_nil, encodeIes_nil, List.length_nil]; omega)] at h
      cases h
      refine ⟨?_, hval⟩
      rw [← encodeIes_cons]
      rfl
    · have hpos : 0 < (encodeIes (frs ++ back)).length :=
        List.length_pos_of_ne_nil fun h => hrest (encodeIes_eq_nil.1 h)
      rw [if_pos ⟨hid, by omega⟩] at h
      obtain ⟨u, hval', h⟩ := Elem.bind_eq_ok.1 h
      cases u
      rw [behindFragments_cons hrest]
      exact ih hrest (fun x hx => hfrs x (List.mem_cons_of_mem _ hx)) hval' h

/-! ## The rest of the STA profile -/

/-- The elements of the profile that are not marked. -/
def left (prof : List Ie) : List Ie := prof.filter (·.id ≠ 0)

theorem left_cons : left (e :: es) = (if e.id = 0 then [] else [e]) ++ left es := by
  by_cases h : e.id = 0
  · rw [left, List.filter_cons_of_neg (by simpa using h), if_pos h]
    rfl
  · rw [left, List.filter_cons_of_pos (by simpa using h), if_neg h]
    rfl

theorem copyRemaining_left (h : copyRemaining m (encodeIes prof) out = .ok out') :
    out' = out ++ encodeIes (left prof) := by
  induction prof generalizing out with
  | nil =>
    rw [encodeIes_nil, copyRemaining, List.length_nil, if_pos rfl] at h
    cases h
    exact (List.append_nil _).symm
  | cons e prof ih =>
    rw [encodeIes_cons, copyRemaining, if_neg (by
      rw [List.length_append, Ie.length_bytes]; omega)] at h
    obtain ⟨-, -, h⟩ := Elem.bind_eq_ok.1 h
    simp only [Ie.ieSize_bytes, Ie.idPos_bytes, Ie.take_bytes, Ie.drop_bytes] at h
    rw [left_cons, encodeIes_append, ← List.append_assoc]
    by_cases hid : e.id = 0
    · rw [if_pos hid] at h ⊢
      rw [encodeIes_nil, List.append_nil]
      exact ih h
    · rw [if_neg hid] at h ⊢
      obtain ⟨out₁, hcopy, h⟩ := Elem.bind_eq_ok.1 h
      rw [encodeIes_cons, encodeIes_nil, List.append_nil, ← copyIe_eq_ok hcopy]
      exact ih h

/-! ## Fields of an element -/

theorem bytesAt_bytes {i n : ℕ} (h : i + n ≤ e.body.length) :
    bytesAt (e.bytes ++ l) (2 + i) n = .ok ((e.body.drop i).take n) := by
  have hdrop : (e.bytes ++ l).drop (2 + i) = e.body.drop i ++ l := by
    rw [← List.drop_drop]
    exact List.drop_append_of_le_length (by omega)
  have hslice : slice (e.bytes ++ l) (2 + i) n = some ((e.body.drop i).take n) := by
    rw [slice_eq (by rw [List.length_append, Ie.length_bytes]; omega), hdrop,
      List.take_append_of_le_length (by rw [List.length_drop]; omega)]
  rw [bytesAt, hslice]

theorem le_take_one {b : List UInt8} {i : ℕ} (h : i < b.length) :
    le ((b.drop i).take 1) = byteAt b i := by
  have hone : (b.drop i).take 1 = [b[i]] := by
    rw [List.drop_eq_getElem_cons h]
    rfl
  rw [hone, byteAt, List.getD_eq_getElem?_getD, List.getElem?_eq_getElem h]
  rfl

/-- The octet at a place of the body. -/
theorem le_bytesAt_bytes {i : ℕ} (h : i < e.body.length) :
    ∃ b, bytesAt (e.bytes ++ l) (2 + i) 1 = .ok b ∧ le b = byteAt e.body i :=
  ⟨_, bytesAt_bytes h, le_take_one h⟩

/-! ## Non-Inheritance -/

/-- The lists of the profile's Non-Inheritance element, each with its length before it. -/
def nonInheritance (prof : List Ie) : List UInt8 × List UInt8 :=
  match prof.find? (·.key = (255, some 56)) with
  | none => ([], [])
  | some e => ((e.body.drop 2).take (byteAt e.body 1), e.body.drop (byteAt e.body 1 + 3))

theorem nonInheritance_of_none (h : ∀ x ∈ prof, x.key ≠ (255, some 56)) :
    nonInheritance prof = ([], []) := by
  rw [nonInheritance, List.find?_eq_none.2 fun x hx => by simpa using h x hx]

theorem nonInheritance_first (ha : ∀ x ∈ a, x.key ≠ (255, some 56))
    (he : e.key = (255, some 56)) :
    nonInheritance (a ++ e :: b) =
      ((e.body.drop 2).take (byteAt e.body 1), e.body.drop (byteAt e.body 1 + 3)) := by
  have hfind : (a ++ e :: b).find? (·.key = (255, some 56)) = some e := by
    rw [List.find?_append, List.find?_eq_none.2 fun x hx => by simpa using ha x hx,
      Option.none_or, List.find?_cons_of_pos (by simpa using he)]
  rw [nonInheritance, hfind]

/-- The lists are those of the Non-Inheritance element. -/
theorem getNoninheritlists_eq {lists : List UInt8 × List UInt8}
    (h : getNoninheritlists (encodeIes prof) = .ok lists) : lists = nonInheritance prof := by
  unfold getNoninheritlists at h
  split at h
  · cases h
  rcases exists_first (fun x => x.key = (255, some 56)) prof with hnone | ⟨a, e, b, rfl, hkey, ha⟩
  · rw [findExtnEid_eq_none fun y hy hmatch => hnone y hy (Ie.key_eq_extn.2 hmatch)] at h
    cases h
    exact (nonInheritance_of_none hnone).symm
  · obtain ⟨hid, hhead⟩ := Ie.key_eq_extn.1 hkey
    rw [findExtnEid_first (fun y hy hmatch => ha y hy (Ie.key_eq_extn.2 hmatch)) hid hhead] at h
    simp only [drop_encodeIes, Ie.ieSize_bytes, Ie.tagLenPos_bytes, Ie.length_bytes] at h
    rw [nonInheritance_first ha hkey]
    split at h
    · cases h
    split at h
    · cases h
    split at h
    · cases h
    have hmin : 3 ≤ e.body.length := by omega
    obtain ⟨elemlen, helemlen, hle⟩ := le_bytesAt_bytes (l := encodeIes b)
      (show 1 < e.body.length by omega)
    obtain ⟨elemlen', helemlen', h⟩ := Elem.bind_eq_ok.1 h
    cases helemlen.symm.trans helemlen'
    rw [hle] at h
    split at h
    · cases h
    have hwithin : byteAt e.body 1 + 3 ≤ e.body.length := by omega
    obtain ⟨elemlist, helemlist, h⟩ := Elem.bind_eq_ok.1 h
    cases (bytesAt_bytes (i := 2) (by omega)).symm.trans helemlist
    obtain ⟨extlen, hextlen, hle'⟩ := le_bytesAt_bytes (l := encodeIes b)
      (show byteAt e.body 1 + 2 < e.body.length by omega)
    rw [show 3 + byteAt e.body 1 + 1 = 2 + (byteAt e.body 1 + 2) by omega] at h
    obtain ⟨extlen', hextlen', h⟩ := Elem.bind_eq_ok.1 h
    cases hextlen.symm.trans hextlen'
    rw [hle'] at h
    split at h
    · cases h
    rw [show 3 + byteAt e.body 1 + 2 = 2 + (byteAt e.body 1 + 3) by omega] at h
    obtain ⟨extlist, hextlist, h⟩ := Elem.bind_eq_ok.1 h
    cases (bytesAt_bytes (i := byteAt e.body 1 + 3) (by omega)).symm.trans hextlist
    split at h
    · cases h
    cases h
    have hall : (e.body.drop (byteAt e.body 1 + 3)).length ≤
        byteAt e.body (byteAt e.body 1 + 2) := by
      rw [List.length_drop]
      omega
    rw [List.take_of_length_le hall]

/-! ## Multi-Link element -/

/-- The length of the common info of a Multi-Link element, which is its first octet. -/
def commonInfoLen (ml : Ie) : ℕ := byteAt ml.body 3

def commonInfo (ml : Ie) : List UInt8 := (ml.body.drop 3).take (commonInfoLen ml)

/-- A Multi-Link element with nothing but the common info of another one, for the link. -/
structure Rebuilt (ml : Ie) (linkid : UInt8) (e : Ie) : Prop where
  id : e.id = 255
  body : e.body =
    107 :: UInt8.ofNat (setPresence (le ((ml.body.drop 1).take 2))) ::
      UInt8.ofNat (setPresence (le ((ml.body.drop 1).take 2)) / 256) ::
      (commonInfo ml).set 7 (setLinkid ((commonInfo ml).getD 7 0) linkid)

theorem rebuiltMlie_bytes {ml : Ie} (linkid : UInt8)
    (hlen : commonInfoLen ml + 5 ≤ ml.body.length) :
    ∃ e, Rebuilt ml linkid e ∧
      rebuiltMlie (ml.bytes ++ l) (commonInfoLen ml) linkid = e.bytes := by
  have hfits := ml.fits
  have hcommon : (commonInfo ml).length = commonInfoLen ml := by
    rw [commonInfo, List.length_take, List.length_drop]
    omega
  refine ⟨⟨255, 107 :: UInt8.ofNat (setPresence (le ((ml.body.drop 1).take 2))) ::
      UInt8.ofNat (setPresence (le ((ml.body.drop 1).take 2)) / 256) ::
      (commonInfo ml).set 7 (setLinkid ((commonInfo ml).getD 7 0) linkid), ?_⟩, ⟨rfl, rfl⟩, ?_⟩
  · simp only [List.length_cons, List.length_set, hcommon]
    omega
  · have hcontrol : ((ml.bytes ++ l).drop 3).take 2 = (ml.body.drop 1).take 2 := by
      rw [show (ml.bytes ++ l).drop 3 = (ml.body ++ l).drop 1 from rfl,
        List.drop_append_of_le_length (by omega),
        List.take_append_of_le_length (by rw [List.length_drop]; omega)]
    have hinfo : ((ml.bytes ++ l).drop 5).take (commonInfoLen ml) = commonInfo ml := by
      rw [show (ml.bytes ++ l).drop 5 = (ml.body ++ l).drop 3 from rfl,
        List.drop_append_of_le_length (by omega),
        List.take_append_of_le_length (by rw [List.length_drop]; omega)]
      rfl
    rw [rebuiltMlie, hcontrol, hinfo, Ie.bytes]
    simp only [List.length_cons, List.length_set, hcommon]
    rfl

theorem getMlieCommonInfoLen_bytes {ml : Ie} {n : ℕ}
    (h : getMlieCommonInfoLen (ml.bytes ++ l) ml.body.length = .ok n) : n = commonInfoLen ml := by
  unfold getMlieCommonInfoLen at h
  split at h
  · cases h
  split at h
  · cases h
  split at h
  · cases h
  obtain ⟨control, -, h⟩ := Elem.bind_eq_ok.1 h
  dsimp only at h
  split at h
  · cases h
  split at h
  · cases h
  obtain ⟨b, hb, hle⟩ := le_bytesAt_bytes (l := l) (show 3 < ml.body.length by omega)
  obtain ⟨b', hb', h⟩ := Elem.bind_eq_ok.1 h
  cases hb.symm.trans hb'
  cases h
  exact hle

/-- The Multi-Link element is rebuilt if its common info fits into its first fragment. -/
theorem addMlie_bytes {ml : Ie}
    (h : addMlieForPrbRspGen m (ml.bytes ++ l) out = .ok out') :
    ∃ added, out' = out ++ encodeIes added ∧
      ((commonInfoLen ml + 5 ≤ ml.body.length ∧ ∃ e, Rebuilt ml m.linkid e ∧ added = [e]) ∨
        (ml.body.length < commonInfoLen ml + 5 ∧ added = [])) := by
  obtain ⟨n, hn, h⟩ := Elem.bind_eq_ok.1 h
  rw [Ie.tagLenPos_bytes] at hn h
  cases getMlieCommonInfoLen_bytes hn
  split at h
  · cases h
    exact ⟨[], by rw [encodeIes_nil, List.append_nil], .inr ⟨by omega, rfl⟩⟩
  have hlen : commonInfoLen ml + 5 ≤ ml.body.length := by omega
  dsimp only at h
  split at h
  · cases h
  split at h
  · cases h
  split at h
  · cases h
  cases h
  obtain ⟨e, he, hbytes⟩ := rebuiltMlie_bytes (l := l) m.linkid hlen
  exact ⟨[e], by rw [hbytes, encodeIes_cons, encodeIes_nil, List.append_nil],
    .inl ⟨hlen, e, he, rfl⟩⟩

/-- What is added for the Multi-Link element. -/
def MlieAdded (subtype : Subtype) (linkid : UInt8) (ml : Ie) (mlie : List Ie) : Prop :=
  if subtype = .probeResp then
    (commonInfoLen ml + 5 ≤ ml.body.length ∧ ∃ e, Rebuilt ml linkid e ∧ mlie = [e]) ∨
      (ml.body.length < commonInfoLen ml + 5 ∧ mlie = [])
  else mlie = []

theorem mergeStep_ml {ml : Ie} (hml : ml.key = (255, some 107))
    (hrem : (encodeIes (ml :: es)).length = m.mlieRem)
    (h : mergeStep m (encodeIes (ml :: es)) ⟨out, encodeIes prof⟩ = .ok s) :
    ∃ mlie, MlieAdded m.subtype m.linkid ml mlie ∧
      s = ⟨out ++ encodeIes mlie, encodeIes prof⟩ := by
  have hextn : ml.HasExtn := Ie.hasExtn_of_key hml
  rw [mergeStep, encodeIes_cons, if_pos ((isMl_bytes hextn).2 hml), ← encodeIes_cons] at h
  by_cases hsub : m.subtype = .probeResp
  · rw [if_pos ⟨hsub, hrem⟩] at h
    obtain ⟨out', hadd, h⟩ := Elem.bind_eq_ok.1 h
    cases h
    rw [encodeIes_cons] at hadd
    obtain ⟨mlie, rfl, hmlie⟩ := addMlie_bytes hadd
    exact ⟨mlie, by rwa [MlieAdded, if_pos hsub], rfl⟩
  · rw [if_neg fun h => hsub h.1] at h
    cases h
    exact ⟨[], by rw [MlieAdded, if_neg hsub], by rw [encodeIes_nil, List.append_nil]⟩

/-- From the Multi-Link element on. -/
theorem mergeReporting_ml {ml : Ie} {frs back : List Ie} (hml : ml.key = (255, some 107))
    (hrem : (encodeIes (ml :: (frs ++ back))).length = m.mlieRem)
    (hfrs : ∀ f ∈ frs, f.id = 242) (hback : ∀ e ∈ back, e.id ≠ 242)
    (hother : ∀ x ∈ behindFragments frs back, x.key ≠ (255, some 107))
    (h : mergeReporting m (encodeIes (ml :: (frs ++ back))) ⟨out, encodeIes prof⟩ = .ok s) :
    ∃ mlie prof' added, MlieAdded m.subtype m.linkid ml mlie ∧
      Run m.elemlist m.elemextlist (behindFragments frs back) prof prof' added ∧
      s = ⟨out ++ encodeIes (mlie ++ added), encodeIes prof'⟩ := by
  obtain ⟨s₁, hstep, hlast⟩ := mergeReporting_cons h
  obtain ⟨mlie, hmlie, rfl⟩ := mergeStep_ml hml hrem hstep
  rcases hlast with ⟨hnil, rfl⟩ | ⟨hne, next, hnext, hloop⟩
  · obtain ⟨rfl, rfl⟩ := List.append_eq_nil_iff.1 hnil
    exact ⟨mlie, prof, [], hmlie, .nil, by rw [List.append_nil]⟩
  · obtain ⟨u, hval, hskip⟩ := Elem.bind_eq_ok.1 hnext
    cases u
    rw [encodeIes_cons, if_pos ((isMl_bytes (Ie.hasExtn_of_key hml)).2 hml)] at hskip
    rw [encodeIes_cons] at hval
    simp only [Ie.ieSize_bytes, Ie.drop_bytes] at hval hskip
    obtain ⟨rfl, hval⟩ := skipFragments_rest hne hfrs
      (fun e he => hback e (List.mem_of_mem_head? he)) hval hskip
    obtain ⟨prof', added, hrun, rfl⟩ := mergeReporting_run hother hval hloop
    exact ⟨mlie, prof', added, hmlie, hrun, by rw [encodeIes_append, List.append_assoc]⟩

end Sm8850.Mlo.LinkFrame
