/-
  Writing fragment sequences.

  * `creationParams_eq`: the parameters, in terms of the body that is cut up: the payload
    with its element ID extension.
  * `placeMaxFrags_eq`: the loop over the full fragments, from the highest one down.
  * `createFragseq_inline`, `createFragseq_copy`: the buffer with the sequence.
-/
import Sm8850.Elem.FragseqRead

namespace Sm8850.Elem

open Lib.Bytes

/-! ## Parameters -/

section Params

variable {k : ElemUnit} {id : UInt8} {payloadlen : ℕ}

/-- The bytes of the element ID extension. -/
def ElemUnit.ext (k : ElemUnit) (id : UInt8) : ℕ := if k.hasExt id then 1 else 0

theorem ElemUnit.ext_eq (k : ElemUnit) (id : UInt8) :
    k.hasExt id = true ∧ k.ext id = 1 ∨ k.hasExt id = false ∧ k.ext id = 0 := by
  unfold ext
  cases k.hasExt id
  · exact .inr ⟨rfl, rfl⟩
  · exact .inl ⟨rfl, rfl⟩

theorem lt_of_creationParams {p : CreationParams} (h : creationParams k id payloadlen = some p) :
    255 < payloadlen + k.ext id := by
  by_contra hle
  have hsmall : payloadlen ≤ (if k.hasExt id then 254 else 255) := by
    obtain ⟨hext, he⟩ | ⟨hext, he⟩ := k.ext_eq id
    · rw [hext, if_pos rfl]
      omega
    · rw [hext, if_neg nofun]
      omega
  rw [creationParams, if_pos hsmall] at h
  cases h

/-- The parameters for a body of fewer than 2 ^ 32 full pieces. -/
theorem creationParams_eq (k : ElemUnit) (id : UInt8) (payloadlen : ℕ)
    (h : 255 < payloadlen + k.ext id)
    (hnum : (payloadlen + k.ext id) / 255 < 2 ^ 32) :
    creationParams k id payloadlen = some
      { expectedFragseqlen := 2 + (payloadlen + k.ext id) +
          2 * ((payloadlen + k.ext id - 1) / 255)
        prepayloadLeadbytes := 2 + k.ext id
        numMaxsizefrags := (payloadlen + k.ext id) / 255
        smallerfragSize := (payloadlen + k.ext id) % 255
        extrahdrbytes := 2 * ((payloadlen + k.ext id - 1) / 255) } := by
  have hextra : extrahdrbytes ((payloadlen + k.ext id) / 255) ((payloadlen + k.ext id) % 255) =
      2 * ((payloadlen + k.ext id - 1) / 255) := by
    unfold extrahdrbytes
    rw [if_neg (by omega)]
    split_ifs <;> omega
  have hnumeq : numMaxsizefrags k id payloadlen = (payloadlen + k.ext id) / 255 := by
    unfold numMaxsizefrags
    obtain ⟨hext, he⟩ | ⟨hext, he⟩ := k.ext_eq id
    · rw [hext, if_pos rfl, ← he, Nat.mod_eq_of_lt hnum]
    · rw [hext, if_neg nofun, Nat.mod_eq_of_lt (by rwa [he] at hnum), he, Nat.add_zero]
  have hsmaller : smallerfragSize k id payloadlen = (payloadlen + k.ext id) % 255 := by
    unfold smallerfragSize
    obtain ⟨hext, he⟩ | ⟨hext, he⟩ := k.ext_eq id
    · rw [hext, if_pos rfl, he]
      omega
    · rw [hext, if_neg nofun, he, Nat.add_zero]
  have hlead : (if k.hasExt id then 2 + 1 else 2) = 2 + k.ext id := by
    unfold ElemUnit.ext
    split <;> rfl
  have hlarge : ¬ payloadlen ≤ (if k.hasExt id then 254 else 255) := by
    obtain ⟨hext, he⟩ | ⟨hext, he⟩ := k.ext_eq id
    · rw [hext, if_pos rfl]
      omega
    · rw [hext, if_neg nofun]
      omega
  unfold creationParams
  rw [if_neg hlarge]
  simp only [hnumeq, hsmaller, hextra, hlead, Option.some.injEq, CreationParams.mk.injEq, and_true]
  omega

end Params

/-! ## One fragment -/

section Place

variable {k : ElemUnit} {inlineFrag : Bool} {payloadbuff out x : List UInt8}
variable {src remaining len more : ℕ}

theorem write_append {a l : List UInt8} {u v : UInt8} {i : ℕ} (h : a.length = i) :
    write (a ++ u :: l) i v = .ok (a ++ v :: l) := by
  subst h
  rw [write, if_pos (by simp), List.set_append_right _ _ (Nat.le_refl _), Nat.sub_self]
  rfl

/-- A fragment comes to stand `remaining` bytes higher, with its header in front. -/
theorem placeFrag_eq (hx : slice (source inlineFrag payloadbuff out) src (len + more) = some x)
    (hfit : src + remaining + (len + more) ≤ out.length) (hdst : 2 ≤ src + remaining) :
    placeFrag inlineFrag k payloadbuff out src remaining len more =
      .ok (out.take (src + remaining - 2) ++ k.fragid :: UInt8.ofNat len ::
        (x ++ out.drop (src + remaining + (len + more)))) := by
  obtain ⟨hslice, hxeq⟩ := slice_eq_some hx
  have hxlen : x.length = len + more := by
    rw [hxeq, List.length_take, List.length_drop]
    omega
  generalize hd : src + remaining = dst at hfit hdst
  set a := out.take (dst - 2)
  have ha : a.length = dst - 2 := by
    rw [List.length_take]
    omega
  obtain ⟨u, v, huv⟩ : ∃ u v, out.take dst = a ++ [u, v] := by
    have htake : out.take dst = a ++ (out.drop (dst - 2)).take 2 := by
      rw [← List.take_add, Nat.sub_add_cancel hdst]
    have htwo : ((out.drop (dst - 2)).take 2).length = 2 := by
      rw [List.length_take, List.length_drop]
      omega
    obtain ⟨u, v, h⟩ := List.length_eq_two.1 htwo
    exact ⟨u, v, by rw [htake, h]⟩
  have hmove : memMove (source inlineFrag payloadbuff out) out src dst (len + more) =
      .ok (a ++ u :: v :: (x ++ out.drop (dst + (len + more)))) := by
    refine memMove_of_transfer (transfer_eq hx ?_)
    rw [put_eq (by omega), huv, hxlen]
    simp
  simp only [placeFrag, hd, hmove, bind, Except.bind]
  rw [write_append ha]
  change write (a ++ ([k.fragid] ++ v :: (x ++ out.drop (dst + (len + more))))) _ _ = _
  rw [← List.append_assoc, write_append (by rw [List.length_append, ha]; rfl)]
  simp

end Place

/-! ## The full fragments -/

section Loop

-- the multiples of 255 below are unfolded when two of them are compared
set_option maxRecDepth 4000

variable {k : ElemUnit} {inlineFrag : Bool} {payloadbuff out b tl : List UInt8}
variable {p : CreationParams} {payloadlen i : ℕ}

/-- The source still holds the body's first `i` pieces, behind two bytes of header. -/
def Holds (src b : List UInt8) (i : ℕ) : Prop :=
  (src.drop 2).take (255 * i) = b.take (255 * i)

theorem Holds.slice {src : List UInt8} (h : Holds src b (i + 1)) (hb : 255 * (i + 1) ≤ b.length) :
    slice src (2 + i * 255) 255 = some ((b.drop (255 * i)).take 255) := by
  have hlen := congrArg List.length h
  simp only [List.length_take, List.length_drop] at hlen
  rw [slice_eq (by omega), ← List.drop_drop]
  have hpiece : ∀ l : List UInt8, (l.drop (i * 255)).take 255 =
      (l.take (255 * (i + 1))).drop (i * 255) := by
    intro l
    rw [List.drop_take]
    congr 1
    omega
  rw [hpiece, h, ← hpiece, Nat.mul_comm]

theorem Holds.mono {src : List UInt8} {j : ℕ} (h : Holds src b j) (hij : i ≤ j) :
    Holds src b i := by
  have htake := congrArg (List.take (255 * i)) h
  rwa [List.take_take, List.take_take, Nat.min_eq_left (Nat.mul_le_mul_left 255 hij)] at htake

/-- A write above the pieces leaves them. -/
theorem Holds.append {a l m : List UInt8} (h : Holds (a ++ l) b i) (ha : 2 + 255 * i ≤ a.length) :
    Holds (a ++ m) b i := by
  unfold Holds at h ⊢
  rw [List.drop_append_of_le_length (by omega),
    List.take_append_of_le_length (by rw [List.length_drop]; omega)] at h ⊢
  exact h

/-- Of the buffer written, what is above the `i`th fragment is done. -/
def Placed (k : ElemUnit) (b tl out : List UInt8) (i : ℕ) : Prop :=
  out.drop (2 + 255 * (i + 1) + 2 * i) = frags k.fragid (b.drop (255 * (i + 1))) ++ tl

/-- One more fragment is placed, with `x` behind it. -/
theorem placed_placeFrag (k : ElemUnit) (tl : List UInt8) {len more : ℕ} {x : List UInt8}
    (hholds : Holds (source inlineFrag payloadbuff out) b (i + 1))
    (hb : 255 * (i + 1) < b.length) (hlen : ((b.drop (255 * (i + 1))).take 255).length = len)
    (hx : slice (source inlineFrag payloadbuff out) (2 + (i + 1) * 255) (len + more) =
      some ((b.drop (255 * (i + 1))).take 255 ++ x))
    (hfit : 2 + (i + 1) * 255 + 2 * (i + 1) + (len + more) ≤ out.length)
    (hdone : x ++ out.drop (2 + (i + 1) * 255 + 2 * (i + 1) + (len + more)) =
      frags k.fragid (b.drop (255 * (i + 2))) ++ tl) :
    ∃ out', placeFrag inlineFrag k payloadbuff out (2 + (i + 1) * 255) (2 * (i + 1)) len more =
        .ok out' ∧ out'.length = out.length ∧
      Holds (source inlineFrag payloadbuff out') b (i + 1) ∧ Placed k b tl out' i := by
  have hdst : 2 + (i + 1) * 255 + 2 * (i + 1) - 2 = 2 + 255 * (i + 1) + 2 * i := by omega
  have hplace := placeFrag_eq (k := k) hx hfit (by omega)
  rw [hdst] at hplace
  have htake : (out.take (2 + 255 * (i + 1) + 2 * i)).length = 2 + 255 * (i + 1) + 2 * i := by
    rw [List.length_take]
    omega
  refine ⟨_, hplace, ?_, ?_, ?_⟩
  · obtain ⟨hwithin, hxeq⟩ := slice_eq_some hx
    have hxlen := congrArg List.length hxeq
    simp only [List.length_append, List.length_take, List.length_drop] at hxlen
    simp only [List.length_append, List.length_cons, htake, List.length_drop, List.length_take]
    omega
  · cases inlineFrag
    · exact hholds
    · refine Holds.append (l := out.drop (2 + 255 * (i + 1) + 2 * i)) ?_
        (by rw [htake]; exact Nat.le_add_right _ _)
      rw [List.take_append_drop]
      exact hholds
  · have hne : b.drop (255 * (i + 1)) ≠ [] := by
      rw [← List.length_pos_iff, List.length_drop]
      omega
    rw [Placed, List.drop_append_of_le_length htake.ge, List.drop_of_length_le htake.le,
      List.nil_append, List.append_assoc, hdone, frags_of_ne hne, hlen, List.drop_drop]
    simp only [List.cons_append, List.append_assoc]
    congr 4

/-- **The loop** over the full fragments, once nothing more is to be taken along. -/
theorem placeMaxFrags_eq (payloadlen : ℕ)
    (hmore : inlineFrag = false ∨ p.smallerfragSize ≠ 0 ∨ i + 1 < p.numMaxsizefrags)
    (hholds : Holds (source inlineFrag payloadbuff out) b (i + 1))
    (hb : 255 * (i + 1) ≤ b.length) (hfit : 2 + 255 * (i + 1) + 2 * i ≤ out.length)
    (hplaced : Placed k b tl out i) :
    ∃ out', placeMaxFrags inlineFrag k p payloadbuff payloadlen (i + 1) out (2 * i) = .ok out' ∧
      out'.length = out.length ∧ Holds (source inlineFrag payloadbuff out') b 1 ∧
      Placed k b tl out' 0 := by
  induction i generalizing out with
  | zero => exact ⟨out, rfl, rfl, hholds, hplaced⟩
  | succ i ih =>
    have hnone : ¬ (inlineFrag = true ∧ i + 2 = p.numMaxsizefrags ∧
        p.prepayloadLeadbytes + payloadlen < payloadbuff.length ∧ p.smallerfragSize = 0) := by
      rintro ⟨hinline, hlast, -, hsmaller⟩
      obtain h | h | h := hmore
      · rw [hinline] at h
        cases h
      · exact h hsmaller
      · omega
    have hfull : ((b.drop (255 * (i + 1))).take 255).length = 255 := by
      rw [List.length_take, List.length_drop]
      omega
    have hslice : slice (source inlineFrag payloadbuff out) (2 + (i + 1) * 255) (255 + 0) =
        some ((b.drop (255 * (i + 1))).take 255 ++ []) := by
      rw [List.append_nil]
      exact hholds.slice hb
    obtain ⟨out₁, hplace, hlen₁, hholds₁, hplaced₁⟩ := placed_placeFrag k tl
      (hholds.mono (Nat.le_succ _)) (by omega) hfull hslice (by omega) (by
        rw [List.nil_append, ← hplaced]
        congr 1
        omega)
    obtain ⟨out', hloop, hlen', hrest⟩ := ih
      (hmore.imp_right (Or.imp_right Nat.lt_of_succ_lt)) hholds₁ (by omega) (by omega) hplaced₁
    refine ⟨out', ?_, by rw [hlen', hlen₁], hrest⟩
    rw [placeMaxFrags]
    simp only [if_neg hnone, hplace, bind, Except.bind]
    exact hloop

/-- The last fragment is placed first, whether it is a full one or a smaller one, and takes
    along what is behind the payload. -/
theorem placeFrags_eq_bind {n ext : ℕ} (hn : n = payloadlen + ext) (hi : (n - 1) / 255 = i + 1)
    (hnum : n / 255 < 2 ^ 16)
    (hp : p = { expectedFragseqlen := 2 + n + 2 * ((n - 1) / 255)
                prepayloadLeadbytes := 2 + ext
                numMaxsizefrags := n / 255
                smallerfragSize := n % 255
                extrahdrbytes := 2 * ((n - 1) / 255) }) :
    placeFrags inlineFrag k p payloadbuff payloadlen out =
      placeFrag inlineFrag k payloadbuff out (2 + (i + 1) * 255) (2 * (i + 1)) (n - 255 * (i + 1))
        (if inlineFrag ∧ 2 + ext + payloadlen < payloadbuff.length then
          payloadbuff.length - (2 + ext) - payloadlen - 2 * (i + 1) else 0) >>=
      fun out => placeMaxFrags inlineFrag k p payloadbuff payloadlen (i + 1) out (2 * i) := by
  have hmod : n / 255 % 2 ^ 16 = n / 255 := Nat.mod_eq_of_lt hnum
  by_cases hsmaller : n % 255 = 0
  · have hnumeq : n / 255 = i + 2 := by omega
    have hlen : n - 255 * (i + 1) = 255 := by omega
    subst hp
    simp only [placeFrags, ne_eq, hsmaller, not_true_eq_false, if_false, hmod, hi, hlen]
    simp only [hnumeq, placeMaxFrags, and_true, true_and]
    congr 1
  · have hnumeq : n / 255 = i + 1 := by omega
    have hlen : n - 255 * (i + 1) = n % 255 := by omega
    have hrem : 2 * (i + 1) - 2 = 2 * i := by omega
    rw [hnumeq] at hmod
    subst hp
    simp only [placeFrags, ne_eq, hsmaller, not_false_eq_true, if_true, hi, hlen, hnumeq, hrem,
      hmod]

/-- **All fragments behind the lead one** come to stand behind it. -/
theorem placeFrags_eq (inlineFrag : Bool) (k : ElemUnit) (payloadbuff out tl : List UInt8)
    (more : ℕ) {x : List UInt8} {n ext : ℕ} (hn : n = payloadlen + ext)
    (hi : (n - 1) / 255 = i + 1) (hnum : n / 255 < 2 ^ 16)
    (hp : p = { expectedFragseqlen := 2 + n + 2 * ((n - 1) / 255)
                prepayloadLeadbytes := 2 + ext
                numMaxsizefrags := n / 255
                smallerfragSize := n % 255
                extrahdrbytes := 2 * ((n - 1) / 255) })
    (hmore : more = if inlineFrag ∧ 2 + ext + payloadlen < payloadbuff.length then
      payloadbuff.length - (2 + ext) - payloadlen - 2 * (i + 1) else 0)
    (hb : b.length = n) (hholds : Holds (source inlineFrag payloadbuff out) b (i + 1))
    (hx : slice (source inlineFrag payloadbuff out) (2 + (i + 1) * 255)
      (n - 255 * (i + 1) + more) = some (b.drop (255 * (i + 1)) ++ x))
    (hfit : 2 + n + 2 * (i + 1) + more ≤ out.length)
    (hdone : x ++ out.drop (2 + n + 2 * (i + 1) + more) = tl) :
    ∃ out', placeFrags inlineFrag k p payloadbuff payloadlen out = .ok out' ∧
      out'.length = out.length ∧ Holds (source inlineFrag payloadbuff out') b 1 ∧
      Placed k b tl out' 0 := by
  have hpiece : (b.drop (255 * (i + 1))).take 255 = b.drop (255 * (i + 1)) :=
    List.take_of_length_le (by rw [List.length_drop]; omega)
  have hend : 2 + (i + 1) * 255 + 2 * (i + 1) + (n - 255 * (i + 1) + more) =
      2 + n + 2 * (i + 1) + more := by omega
  have hover : b.drop (255 * (i + 2)) = [] := List.drop_of_length_le (by omega)
  rw [← hpiece] at hx
  obtain ⟨out₁, hplace, hlen₁, hholds₁, hplaced₁⟩ := placed_placeFrag k tl hholds
    (by omega) (by rw [hpiece, List.length_drop, hb]) hx (by omega)
    (by rw [hend, hdone, hover, frags_nil, List.nil_append])
  have hsome : inlineFrag = false ∨ p.smallerfragSize ≠ 0 ∨ i + 1 < p.numMaxsizefrags := by
    rw [hp]
    right
    dsimp only
    omega
  obtain ⟨out', hloop, hlen', hrest⟩ := placeMaxFrags_eq payloadlen hsome hholds₁
    (by omega) (by omega) hplaced₁
  refine ⟨out', ?_, by rw [hlen', hlen₁], hrest⟩
  rw [placeFrags_eq_bind hn hi hnum hp, ← hmore, hplace]
  exact hloop

end Loop

/-! ## The whole sequence -/

section Create

variable {k : ElemUnit} {id idext : UInt8} {payload payloadbuff fragbuff r rest : List UInt8}

/-- The payload with its element ID extension, if it has one. -/
def ElemUnit.body (k : ElemUnit) (id idext : UInt8) (payload : List UInt8) : List UInt8 :=
  if k.hasExt id then idext :: payload else payload

@[simp] theorem ElemUnit.length_body :
    (k.body id idext payload).length = payload.length + k.ext id := by
  unfold body ext
  split <;> rfl

@[simp] theorem ElemUnit.payload_body : k.payload id (k.body id idext payload) = payload := by
  unfold ElemUnit.payload body
  split <;> rfl

@[simp] theorem ElemUnit.payloadlen_body :
    k.payloadlen id (k.body id idext payload) = payload.length := by
  unfold payloadlen body
  split <;> rfl

theorem ElemUnit.body_append :
    k.body id idext (payload ++ rest) = k.body id idext payload ++ rest := by
  unfold body
  split <;> rfl

theorem ElemUnit.drop_body (w idext : UInt8) :
    (k.body id w payload).drop 255 = (k.body id idext payload).drop 255 := by
  unfold body
  split <;> rfl

/-- Behind two bytes of header a buffer holds a body, whose extension is still open. -/
theorem exists_body (hr : r.length = 2 + k.ext id) :
    ∃ u v w, ∀ l, r ++ l = u :: v :: k.body id w l := by
  unfold ElemUnit.body
  obtain ⟨hext, he⟩ | ⟨hext, he⟩ := k.ext_eq id
  · rw [he] at hr
    obtain ⟨u, v, w, rfl⟩ := List.length_eq_three.1 hr
    exact ⟨u, v, w, fun l => by rw [if_pos hext]; rfl⟩
  · rw [he] at hr
    obtain ⟨u, v, rfl⟩ := List.length_eq_two.1 hr
    exact ⟨u, v, 0, fun l => by rw [hext, if_neg nofun]; rfl⟩

theorem writeLead_eq {u v w : UInt8} {l : List UInt8} :
    writeLead k id idext (u :: v :: ((k.body id w payload).take 255 ++ l)) =
      .ok (id :: 255 :: ((k.body id idext payload).take 255 ++ l)) := by
  have hwrite : ∀ m : List UInt8, write (u :: v :: m) 0 id = .ok (id :: v :: m) := by
    intro m
    exact write_append (a := []) rfl
  have hwrite1 : ∀ m : List UInt8, write (id :: v :: m) 1 255 = .ok (id :: 255 :: m) := by
    intro m
    exact write_append (a := [id]) rfl
  simp only [writeLead, bind, Except.bind, hwrite, hwrite1]
  unfold ElemUnit.body
  split
  · exact write_append (a := [id, 255]) rfl
  · rfl

/-- The copying mode copies the lead piece last. -/
theorem copy_lead {b tl buff out : List UInt8} (hplaced : Placed k b tl out 0)
    (hholds : Holds buff b 1) (hb : 255 ≤ b.length) (hlong : 257 ≤ out.length) :
    ∃ out', memMove buff out 2 2 255 = .ok out' ∧ out'.length = out.length ∧ Holds out' b 1 ∧
      Placed k b tl out' 0 := by
  have hpiece : (b.take 255).length = 255 := by
    rw [List.length_take]
    omega
  have htwo : (out.take 2).length = 2 := by
    rw [List.length_take]
    omega
  have hmove : memMove buff out 2 2 255 = .ok (out.take 2 ++ b.take 255 ++ out.drop 257) := by
    refine memMove_of_transfer (transfer_eq (hholds.slice hb) ?_)
    change put out 2 (b.take 255) = _
    rw [put_eq (by omega), hpiece]
  refine ⟨_, hmove, ?_, ?_, ?_⟩
  · simp only [List.length_append, hpiece, htwo, List.length_drop]
    omega
  · rw [Holds, List.append_assoc, List.drop_left' htwo,
      List.take_append_of_le_length hpiece.ge, List.take_take, Nat.min_self]
  · rw [Placed, ← hplaced]
    exact List.drop_left' (by rw [List.length_append, hpiece, htwo])

/-- The lead unit's header completes the sequence. -/
theorem writeLead_of_placed (idext : UInt8) {w : UInt8} {tl out : List UInt8}
    (hplaced : Placed k (k.body id w payload) tl out 0) (hholds : Holds out (k.body id w payload) 1)
    (hlong : 2 ≤ out.length) :
    writeLead k id idext out =
      .ok (fragSequence k.fragid id (k.body id idext payload) ++ tl) := by
  rcases out with _ | ⟨u, _ | ⟨v, l⟩⟩
  · cases Nat.not_succ_le_zero _ hlong
  · cases Nat.not_succ_le_zero _ (Nat.le_of_succ_le_succ hlong)
  · have hfirst : l.take 255 = (k.body id w payload).take 255 := hholds
    have hrest : l.drop 255 = frags k.fragid ((k.body id w payload).drop 255) ++ tl := hplaced
    rw [← List.take_append_drop 255 l, hfirst, hrest, writeLead_eq,
      ElemUnit.drop_body w idext]
    simp only [fragSequence, List.cons_append, List.append_assoc]

/-- The payload's buffer, with the body `b` of `i + 1` whole pieces and a last one. -/
structure Framed (k : ElemUnit) (id : UInt8) (payload rest buff b : List UInt8) (i n : ℕ) :
    Prop where
  body : ∃ w, b = k.body id w payload
  total : n = payload.length + k.ext id
  last : (n - 1) / 255 = i + 1
  length_body : b.length = n
  length : buff.length = 2 + n + rest.length
  drop : ∀ j, j ≤ n → buff.drop (2 + j) = b.drop j ++ rest

theorem exists_framed (rest : List UInt8) (hn : 255 < payload.length + k.ext id)
    (hr : r.length = 2 + k.ext id) :
    ∃ b i n, Framed k id payload rest (r ++ payload ++ rest) b i n := by
  obtain ⟨u, v, w, hbody⟩ := exists_body hr
  have hbuff : r ++ payload ++ rest = u :: v :: (k.body id w payload ++ rest) := by
    rw [List.append_assoc, hbody, ElemUnit.body_append]
  refine ⟨k.body id w payload, (payload.length + k.ext id - 1) / 255 - 1, _, ⟨w, rfl⟩, rfl,
    by omega, ElemUnit.length_body, ?_, fun j hj => ?_⟩
  · rw [hbuff]
    simp only [List.length_cons, List.length_append, ElemUnit.length_body]
    omega
  · rw [hbuff, ← List.drop_drop]
    exact List.drop_append_of_le_length (by rwa [ElemUnit.length_body])

section Framed

variable {buff b : List UInt8} {i n : ℕ} (h : Framed k id payload rest buff b i n)

include h

theorem Framed.holds : Holds buff b (i + 1) := by
  have hdrop := h.drop 0 (Nat.zero_le _)
  have hlast := h.last
  have hlen := h.length_body
  unfold Holds
  rw [Nat.add_zero, List.drop_zero] at hdrop
  rw [hdrop, List.take_append_of_le_length (by omega)]

/-- The last piece, and `m` bytes of what is behind it. -/
theorem Framed.slice_last {m : ℕ} (hm : m ≤ rest.length) :
    slice buff (2 + (i + 1) * 255) (n - 255 * (i + 1) + m) =
      some (b.drop (255 * (i + 1)) ++ rest.take m) := by
  have hlast := h.last
  have hlen := h.length
  have hparts : buff.drop (2 + (i + 1) * 255) =
      (b.drop (255 * (i + 1)) ++ rest.take m) ++ rest.drop m := by
    rw [Nat.mul_comm, h.drop _ (by omega), List.append_assoc, List.take_append_drop]
  have hslice := slice_of_drop hparts (by omega)
  rwa [List.length_append, List.length_drop, h.length_body, List.length_take,
    Nat.min_eq_left hm] at hslice

end Framed

variable (hn : 255 < payload.length + k.ext id)
variable (hnum : (payload.length + k.ext id) / 255 < 2 ^ 16)

include hn hnum

/-- **Inline fragmentation**: the sequence stands in place of the payload and the header bytes
    in front, and what is behind is moved up over the bytes reserved at the end. -/
theorem createFragseq_inline (idext : UInt8) (fragbuff : List UInt8) (hr : r.length = 2 + k.ext id)
    (hrest : 2 * ((payload.length + k.ext id - 1) / 255) ≤ rest.length) :
    createFragseq true k id idext (r ++ payload ++ rest) payload.length fragbuff =
      .ok (fragSequence k.fragid id (k.body id idext payload) ++
          rest.take (rest.length - 2 * ((payload.length + k.ext id - 1) / 255)),
        2 + (payload.length + k.ext id) + 2 * ((payload.length + k.ext id - 1) / 255)) := by
  obtain ⟨b, i, n, hframed⟩ := exists_framed rest hn hr
  have hlen := hframed.length
  have htotal := hframed.total
  have hi := hframed.last
  have hp := creationParams_eq k id _ hn (by omega)
  rw [← htotal] at hn hnum hrest hp ⊢
  generalize r ++ payload ++ rest = buff at *
  rw [hi] at hrest ⊢
  obtain ⟨out, hplace, hlen', hholds, hplaced⟩ := placeFrags_eq true k buff buff
    (rest.take (rest.length - 2 * (i + 1))) (rest.length - 2 * (i + 1)) htotal hi hnum rfl
    (by rw [if_pos ⟨rfl, by omega⟩]; omega) hframed.length_body hframed.holds
    (hframed.slice_last (Nat.sub_le _ _)) (by omega)
    (by rw [List.drop_of_length_le (by omega), List.append_nil])
  obtain ⟨w, rfl⟩ := hframed.body
  have hlead := writeLead_of_placed idext hplaced hholds (by omega)
  simp only [createFragseq, hp, if_true]
  rw [if_neg (by omega), if_neg (by omega), if_neg (by rw [hi]; omega), hplace]
  simp only [bind, Except.bind, hlead, pure, Except.pure, hi]

/-- **Copying fragmentation** takes the payload from behind the header bytes of the payload
    buffer, as inline fragmentation does. -/
theorem createFragseq_copy (idext : UInt8) (fragbuff rest : List UInt8)
    (hr : r.length = 2 + k.ext id)
    (hfrag : 2 + (payload.length + k.ext id) + 2 * ((payload.length + k.ext id - 1) / 255) ≤
      fragbuff.length) :
    createFragseq false k id idext (r ++ payload ++ rest) payload.length fragbuff =
      .ok (fragSequence k.fragid id (k.body id idext payload) ++
          fragbuff.drop (2 + (payload.length + k.ext id) +
            2 * ((payload.length + k.ext id - 1) / 255)),
        2 + (payload.length + k.ext id) + 2 * ((payload.length + k.ext id - 1) / 255)) := by
  obtain ⟨b, i, n, hframed⟩ := exists_framed rest hn hr
  have hlen := hframed.length
  have htotal := hframed.total
  have hi := hframed.last
  have hp := creationParams_eq k id _ hn (by omega)
  have hslice := hframed.slice_last (Nat.zero_le _)
  rw [← htotal] at hn hnum hfrag hp ⊢
  generalize r ++ payload ++ rest = buff at *
  rw [hi] at hfrag ⊢
  obtain ⟨out, hplace, hlen', -, hplaced⟩ := placeFrags_eq false k buff fragbuff
    (fragbuff.drop (2 + n + 2 * (i + 1))) 0 htotal hi hnum rfl
    (by rw [if_neg (by simp)]) hframed.length_body hframed.holds hslice (by omega) rfl
  have hfirst : Holds buff b 1 := hframed.holds.mono (Nat.succ_le_succ (Nat.zero_le i))
  obtain ⟨out₁, hmove, hlen₁, hholds, hplaced₁⟩ := copy_lead hplaced hfirst
    (by rw [hframed.length_body]; omega) (by omega)
  obtain ⟨w, rfl⟩ := hframed.body
  have hlead := writeLead_of_placed idext hplaced₁ hholds (by omega)
  simp only [createFragseq, hp, Bool.false_eq_true, if_false]
  rw [if_neg (by omega), if_neg (by omega), if_neg (by omega), if_neg (by rw [hi]; omega), hplace]
  simp only [bind, Except.bind, hmove, hlead, pure, Except.pure, hi]

/-- A payload buffer that ends before the payload it is read for. -/
theorem createFragseq_copy_short (idext : UInt8) (fragbuff : List UInt8)
    (hshort : payloadbuff.length < 2 + (payload.length + k.ext id)) :
    ∃ e, createFragseq false k id idext payloadbuff payload.length fragbuff = .error e := by
  obtain ⟨i, hi⟩ := Nat.exists_eq_succ_of_ne_zero
    (n := (payload.length + k.ext id - 1) / 255) (by omega)
  have hp := creationParams_eq k id _ hn (by omega)
  have hplace : placeFrag false k payloadbuff fragbuff (2 + (i + 1) * 255) (2 * (i + 1))
      (payload.length + k.ext id - 255 * (i + 1)) 0 = .error .outOfBounds := by
    have hslice : slice payloadbuff (2 + (i + 1) * 255)
        (payload.length + k.ext id - 255 * (i + 1) + 0) = none := by
      rw [slice, if_neg (by omega)]
    simp only [placeFrag, memMove, transfer, source, Bool.false_eq_true, if_false, hslice,
      Option.bind_none, bind, Except.bind]
  simp only [createFragseq, hp, Bool.false_eq_true, if_false]
  split_ifs
  · exact ⟨_, rfl⟩
  · exact ⟨_, rfl⟩
  · exact ⟨_, rfl⟩
  · exact ⟨_, rfl⟩
  · rw [placeFrags_eq_bind rfl hi hnum rfl, if_neg (by simp), hplace]
    exact ⟨_, rfl⟩

end Create

end Sm8850.Elem
