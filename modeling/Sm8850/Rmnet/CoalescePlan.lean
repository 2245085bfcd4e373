/-
  Where a coalesced frame is cut.

  * The cutting loop asks for packets at certain points only, whatever it is asked to make
    of them: `Cuts.pieces` are these points, and `segmentNlos_eq` says that the packets it
    sends out are the ones made there.
  * `Cuts.cutAt` says of every packet of the frame where it lies and what identifier and
    verdict it is given, in terms of the lengths and the error mask alone.
  * **`Cuts.pieces_expand`**: the pieces consist of these packets, in order.
-/
import Mathlib.Algebra.GroupWithZero.Nat
import Mathlib.Data.List.GetD
import Sm8850.Rmnet.Coalesce

namespace Sm8850.Rmnet

/-- The frame as it is when a packet is sent out, and the verdict on its checksum. -/
abbrev Piece := CoalMeta × Bool

/-- What is cut, and how. -/
structure Cuts where
  gro : Bool
  hlen : ℕ
  nlos : List NlPair
  mask : ℕ

namespace Cuts

/-! ## The packets of a frame -/

def pktCount (nlos : List NlPair) : ℕ := (nlos.map NlPair.numPackets).sum

/-- The numbers of the packets before and behind the NLOs. -/
def nloStarts : ℕ → List NlPair → List ℕ
  | b, [] => [b]
  | b, p :: rest => b :: nloStarts (b + p.numPackets) rest

variable (c : Cuts) (k s : ℕ)

/-- The number of packets. -/
def count : ℕ := pktCount c.nlos

/-- The payload lengths of the packets. -/
def sizes : List ℕ := c.nlos.flatMap fun p => List.replicate p.numPackets (p.pktLen - c.hlen)

/-- The payload before a packet. -/
def off : ℕ := (c.sizes.take k).sum

def total : ℕ := c.sizes.sum

def err : Bool := c.mask.testBit k

/-- Something new begins with a packet: another NLO, a packet with a bad checksum, or the one
    behind it; without GRO all of them do. -/
def Start : Prop :=
  c.gro = false ∨ c.err s = true ∨ (0 < s ∧ c.err (s - 1) = true) ∨ s ∈ nloStarts 0 c.nlos

instance : Decidable (c.Start s) := inferInstanceAs (Decidable (_ ∨ _ ∨ _ ∨ _))

/-- Where the run of a packet begins. -/
def startOf : ℕ → ℕ
  | 0 => 0
  | k + 1 => if c.Start (k + 1) then k + 1 else startOf k

/-- The packet id when a run begins: behind a run of good packets it is one too large. -/
def pktIdAt : ℕ :=
  if s = 0 then 0 else (s + if c.gro && !c.err (s - 1) then 1 else 0) % 2 ^ 8

/-- Where a packet lies, the packet id it is given and the verdict on it, and whether it is
    the last one of its run. -/
structure Cut where
  off : ℕ
  size : ℕ
  id : ℕ
  good : Bool
  last : Bool

def cutAt : Cut where
  off := c.off k
  size := c.sizes.getD k 0
  id := c.pktIdAt (c.startOf k) + (k - c.startOf k)
  good := !c.err k
  last := decide (c.Start (k + 1))

/-- The packets of a piece. -/
def expandPiece (p : Piece) : List Cut :=
  (List.range p.1.gsoSegs).map fun i =>
    ⟨p.1.dataOffset + i * p.1.gsoSize, p.1.gsoSize, p.1.pktId + i, p.2,
      decide (i + 1 = p.1.gsoSegs)⟩

/-- Nothing is made of a packet but a note. -/
def note (m : CoalMeta) (valid : Bool) : Option Piece := some (m, valid)

/-- The points at which the loop asks for packets. -/
def pieces (bits : ℕ) : List Piece :=
  (segmentNlos note bits c.gro c.hlen c.nlos 0 c.mask ({}, [])).2

/-- The numbers fit: the packets are at least as long as their headers, and the payload
    is shorter than 64 KiB. -/
structure Wf : Prop where
  hlen : c.hlen < 2 ^ 16
  fits : ∀ p ∈ c.nlos, c.hlen ≤ p.pktLen ∧ p.pktLen < 2 ^ 16 ∧ p.numPackets < 2 ^ 8
  total : c.total < 2 ^ 16

/-! ## Lengths and boundaries -/

theorem pktCount_append (a b : List NlPair) : pktCount (a ++ b) = pktCount a + pktCount b := by
  rw [pktCount, List.map_append, List.sum_append]
  rfl

theorem pktCount_cons (p : NlPair) (l : List NlPair) :
    pktCount (p :: l) = p.numPackets + pktCount l := List.sum_cons

theorem length_sizes : c.sizes.length = c.count := by
  unfold sizes count
  induction c.nlos with
  | nil => rfl
  | cons p l ih =>
    rw [List.flatMap_cons, List.length_append, List.length_replicate, ih, pktCount_cons]

theorem off_le : c.off k ≤ c.total := by
  have h : (c.sizes.take k).sum + (c.sizes.drop k).sum = c.sizes.sum := by
    rw [← List.sum_append, List.take_append_drop]
  exact Nat.le.intro h

theorem off_count : c.off c.count = c.total := by
  rw [off, ← c.length_sizes, List.take_length]
  rfl

theorem off_succ (hk : k < c.count) : c.off (k + 1) = c.off k + c.sizes.getD k 0 := by
  rw [← c.length_sizes] at hk
  rw [off, List.take_add_one, List.sum_append, List.getElem?_eq_getElem hk,
    List.getD_eq_getElem?_getD, List.getElem?_eq_getElem hk]
  simp [off]

variable {c k s}

theorem mem_nloStarts {b : ℕ} {l : List NlPair} :
    s ∈ nloStarts b l ↔ ∃ i, i ≤ l.length ∧ s = b + pktCount (l.take i) := by
  induction l generalizing b with
  | nil =>
    simp only [nloStarts, List.mem_singleton, List.length_nil, Nat.le_zero, List.take_nil]
    exact ⟨fun h => ⟨0, rfl, h⟩, fun ⟨_, _, h⟩ => h⟩
  | cons p l ih =>
    rw [nloStarts, List.mem_cons, ih]
    constructor
    · rintro (rfl | ⟨i, hi, rfl⟩)
      · exact ⟨0, Nat.zero_le _, rfl⟩
      · exact ⟨i + 1, Nat.succ_le_succ hi, by rw [List.take_succ_cons, pktCount_cons]; omega⟩
    · rintro ⟨i, hi, rfl⟩
      cases i with
      | zero => exact .inl rfl
      | succ i =>
        refine .inr ⟨i, Nat.le_of_succ_le_succ hi, ?_⟩
        rw [List.take_succ_cons, pktCount_cons]
        omega

/-- An NLO of the frame: `n` packets of one size, from the packet `b` on. -/
structure Nlo (c : Cuts) (b n size : ℕ) : Prop where
  start : b ∈ nloStarts 0 c.nlos
  stop : b + n ∈ nloStarts 0 c.nlos
  inside : ∀ j, b < j → j < b + n → j ∉ nloStarts 0 c.nlos
  le : b + n ≤ c.count
  sizes : ∀ j, b ≤ j → j < b + n → c.sizes.getD j 0 = size

theorem sum_take_le (l : List NlPair) {i j : ℕ} (h : i ≤ j) :
    pktCount (l.take i) ≤ pktCount (l.take j) := by
  have heq : pktCount (l.take i) + pktCount ((l.take j).drop i) = pktCount (l.take j) := by
    rw [← pktCount_append]
    congr 1
    conv_rhs => rw [← List.take_append_drop i (l.take j)]
    rw [List.take_take, Nat.min_eq_left h]
  exact Nat.le.intro heq

/-- The NLOs of the header are NLOs. -/
theorem nlo_of_split {done rest : List NlPair} {p : NlPair} (h : c.nlos = done ++ p :: rest) :
    c.Nlo (pktCount done) p.numPackets (p.pktLen - c.hlen) := by
  have hstart : pktCount (c.nlos.take done.length) = pktCount done := by rw [h, List.take_left]
  have hstop : pktCount (c.nlos.take (done.length + 1)) = pktCount done + p.numPackets := by
    rw [h, List.take_length_add_append, pktCount_append, List.take_succ_cons, List.take_zero,
      pktCount_cons]
    rfl
  have hlen : done.length + 1 ≤ c.nlos.length := by
    rw [h, List.length_append, List.length_cons]
    omega
  have hpre : (done.flatMap fun p => List.replicate p.numPackets (p.pktLen - c.hlen)).length =
      pktCount done := length_sizes { c with nlos := done }
  refine ⟨?_, ?_, fun j hlo hhi hj => ?_, ?_, fun j hlo hhi => ?_⟩
  · exact mem_nloStarts.2 ⟨done.length, by omega, by rw [hstart, Nat.zero_add]⟩
  · exact mem_nloStarts.2 ⟨done.length + 1, hlen, by rw [hstop, Nat.zero_add]⟩
  · obtain ⟨i, -, rfl⟩ := mem_nloStarts.1 hj
    rcases Nat.lt_or_ge done.length i with hi | hi
    · have := sum_take_le c.nlos hi
      have : pktCount (c.nlos.take (done.length + 1)) ≤ pktCount (c.nlos.take i) := this
      omega
    · have := sum_take_le c.nlos hi
      omega
  · rw [count, h, pktCount_append, pktCount_cons]
    omega
  · rw [Cuts.sizes, h, List.flatMap_append, List.flatMap_cons, List.getD_append_right _ _ _ _
      (by rw [hpre]; exact hlo), hpre, List.getD_append _ _ _ _
      (by rw [List.length_replicate]; omega), List.getD_replicate _ (by omega)]

theorem Nlo.off {b n size j : ℕ} (h : c.Nlo b n size) (hj : j ≤ n) :
    c.off (b + j) = c.off b + j * size := by
  induction j with
  | zero => rw [Nat.zero_mul]; rfl
  | succ j ih =>
    have hle := h.le
    rw [← Nat.add_assoc, off_succ _ _ (by omega), ih (by omega),
      h.sizes _ (by omega) (by omega), Nat.succ_mul, Nat.add_assoc]

theorem start_of_mem (h : s ∈ nloStarts 0 c.nlos) : c.Start s := .inr (.inr (.inr h))

theorem startOf_succ (k : ℕ) :
    c.startOf (k + 1) = if c.Start (k + 1) then k + 1 else c.startOf k := rfl

theorem startOf_eq (h : c.Start k) : c.startOf k = k := by
  cases k with
  | zero => rfl
  | succ k => exact if_pos h

/-- Within a run the start is that of the run. -/
theorem startOf_add {g : ℕ} (hs : c.Start s) (hrun : ∀ i, s < i → i < s + g → ¬ c.Start i)
    {i : ℕ} (hi : i < g) : c.startOf (s + i) = s := by
  induction i with
  | zero => exact startOf_eq hs
  | succ i ih =>
    rw [← Nat.add_assoc, startOf_succ, if_neg (hrun _ (by omega) (by omega))]
    exact ih (by omega)

/-- A run begins where it begins. -/
theorem start_startOf (h : 0 < c.startOf k) : c.Start (c.startOf k) := by
  induction k with
  | zero => exact absurd h (Nat.lt_irrefl _)
  | succ k ih =>
    rw [startOf_succ] at h ⊢
    by_cases hs : c.Start (k + 1)
    · rwa [if_pos hs]
    · rw [if_neg hs] at h ⊢
      exact ih h

theorem startOf_le : c.startOf k ≤ k := by
  induction k with
  | zero => exact Nat.le_refl _
  | succ k ih =>
    rw [startOf_succ]
    split
    · exact Nat.le_refl _
    · exact Nat.le_succ_of_le ih

/-! ## The loop -/

/-- What the loop has done when `k` packets are behind it, the last `g` of them kept back. -/
structure Pending (c : Cuts) (k g : ℕ) (t : CoalMeta × List Piece) : Prop where
  le : g ≤ k
  segs : t.1.gsoSegs = g
  offset : t.1.dataOffset = c.off (k - g)
  pktId : t.1.pktId = c.pktIdAt (k - g)
  expand : t.2.flatMap expandPiece = (List.range (k - g)).map c.cutAt
  gro : 0 < g → c.gro = true
  start : 0 < g → c.Start (k - g)
  run : ∀ i, k - g < i → i < k → ¬ c.Start i
  good : ∀ i, k - g ≤ i → i < k → c.err i = false
  pos : ∀ p ∈ t.2, 0 < p.1.gsoSegs

/-- Nothing is kept back. -/
abbrev Ready (c : Cuts) (k : ℕ) (t : CoalMeta × List Piece) : Prop := c.Pending k 0 t

theorem Pending.of_zero {g : ℕ} {t : CoalMeta × List Piece} (h : c.Pending k g t) (hg : g = 0) :
    c.Ready k t := by
  subst hg
  exact h

/-- With nothing kept back there is nothing to say about a run. -/
theorem Pending.ready {m : CoalMeta} {l : List Piece} (hoff : m.dataOffset = c.off k)
    (hid : m.pktId = c.pktIdAt k) (hexp : l.flatMap expandPiece = (List.range k).map c.cutAt)
    (hpos : ∀ p ∈ l, 0 < p.1.gsoSegs) : c.Ready k ({ m with gsoSegs := 0 }, l) where
  le := Nat.zero_le _
  segs := rfl
  offset := hoff
  pktId := hid
  expand := hexp
  gro h := absurd h (Nat.lt_irrefl _)
  start h := absurd h (Nat.lt_irrefl _)
  run i hlo hhi := absurd hlo (by omega)
  good i hlo hhi := absurd hlo (by omega)
  pos := hpos

theorem forall_mem_concat {α : Type} {P : α → Prop} {l : List α} {a : α} (hl : ∀ x ∈ l, P x)
    (ha : P a) : ∀ x ∈ l ++ [a], P x := by
  intro x hx
  rcases List.mem_append.1 hx with hx | hx
  · exact hl x hx
  · obtain rfl := List.mem_singleton.1 hx
    exact ha

/-- Only good packets inside an NLO are kept back. -/
theorem pktIdAt_good (hgro : c.gro = true) (hk : 0 < k) (hgood : c.err (k - 1) = false) :
    c.pktIdAt k = (k + 1) % 2 ^ 8 := by
  rw [pktIdAt, if_neg (by omega), hgro, hgood]
  rfl

theorem pktIdAt_bad (hk : 0 < k) (hbad : c.gro = false ∨ c.err (k - 1) = true) :
    c.pktIdAt k = k % 2 ^ 8 := by
  have hif : (c.gro && !c.err (k - 1)) = false := by
    rcases hbad with h | h <;> simp [h]
  rw [pktIdAt, if_neg (by omega), hif]
  rfl

/-- The packets of a run that is sent out. -/
theorem cutAt_run {b n size g i : ℕ} (hn : c.Nlo b n size) (hb : b ≤ s) (hend : s + g ≤ b + n)
    (hs : c.Start s) (hk : c.Start (s + g)) (hrun : ∀ i, s < i → i < s + g → ¬ c.Start i)
    (hi : i < g) :
    c.cutAt (s + i) =
      ⟨c.off s + i * size, size, c.pktIdAt s + i, !c.err (s + i), decide (i + 1 = g)⟩ := by
  have hoff : c.off (s + i) = c.off s + i * size := by
    obtain ⟨j, rfl⟩ := Nat.exists_eq_add_of_le hb
    rw [Nat.add_assoc, hn.off (by omega), hn.off (by omega), Nat.add_mul, Nat.add_assoc]
  have hlast : c.Start (s + i + 1) ↔ i + 1 = g := by
    constructor
    · intro h
      by_contra hne
      exact hrun _ (by omega) (by omega) h
    · rintro rfl
      exact hk
  rw [cutAt, hoff, hn.sizes _ (by omega) (by omega), startOf_add hs hrun hi,
    Nat.add_sub_cancel_left, decide_eq_decide.2 hlast]

/-- A run is sent out: all of its packets have the same verdict. -/
theorem segmentData_expand {b n size g : ℕ} (valid : Bool) {t : CoalMeta × List Piece}
    (hw : c.Wf) (hn : c.Nlo b n size) (hb : b ≤ s) (hend : s + g ≤ b + n) (hs : c.Start s)
    (hk : c.Start (s + g)) (hrun : ∀ i, s < i → i < s + g → ¬ c.Start i)
    (hvalid : ∀ i, s ≤ i → i < s + g → c.err i = !valid)
    (hoff : t.1.dataOffset = c.off s) (hid : t.1.pktId = c.pktIdAt s) (hsegs : t.1.gsoSegs = g)
    (hsize : t.1.gsoSize = size)
    (hexp : t.2.flatMap expandPiece = (List.range s).map c.cutAt) (pktId : ℕ) :
    (segmentData note pktId valid t).1.dataOffset = c.off (s + g) ∧
    (segmentData note pktId valid t).2.flatMap expandPiece =
      (List.range (s + g)).map c.cutAt := by
  have hoff' : c.off (s + g) = c.off s + size * g := by
    obtain ⟨j, rfl⟩ := Nat.exists_eq_add_of_le hb
    rw [Nat.add_assoc, hn.off (by omega), hn.off (by omega), Nat.add_mul, Nat.add_assoc,
      Nat.mul_comm g]
  constructor
  · show (t.1.dataOffset + t.1.gsoSize * t.1.gsoSegs) % 2 ^ 16 = _
    rw [hoff, hsize, hsegs, ← hoff']
    exact Nat.mod_eq_of_lt (Nat.lt_of_le_of_lt (c.off_le _) hw.total)
  · show (t.2 ++ [(t.1, valid)]).flatMap expandPiece = _
    rw [List.flatMap_append, List.flatMap_singleton, hexp, List.range_add, List.map_append,
      List.map_map, expandPiece, hsegs]
    congr 1
    refine List.map_congr_left fun i hi => ?_
    have hig := List.mem_range.1 hi
    rw [Function.comp_apply, cutAt_run hn hb hend hs hk hrun hig,
      hvalid _ (Nat.le_add_right _ _) (by omega), hoff, hid, hsize, Bool.not_not]

/-- What was kept back is sent out at a boundary. -/
theorem Pending.flush {b n size g : ℕ} {t : CoalMeta × List Piece} (hw : c.Wf)
    (hn : c.Nlo b n size) (h : c.Pending k g t) (hb : b ≤ k - g) (hend : k ≤ b + n)
    (hsize : t.1.gsoSize = size) (hk : c.Start k) :
    c.Ready k (flushData note (k % 2 ^ 8) t) ∧
      (flushData note (k % 2 ^ 8) t).1.gsoSize = size := by
  unfold flushData
  split
  · rename_i hne
    have hpos : 0 < g := h.segs ▸ Nat.pos_of_ne_zero hne
    have hle := h.le
    have hkg : k - g + g = k := Nat.sub_add_cancel hle
    obtain ⟨hoff, hexp⟩ := segmentData_expand (g := g) true hw hn hb (by omega)
      (h.start hpos) (hkg.symm ▸ hk) (fun i hlo hhi => h.run i hlo (by omega))
      (fun i hlo hhi => h.good i hlo (by omega)) h.offset h.pktId h.segs hsize h.expand (k % 2 ^ 8)
    rw [hkg] at hoff hexp
    refine ⟨.ready hoff ?_ hexp ?_, hsize⟩
    · show (k % 2 ^ 8 + 1) % 2 ^ 8 = c.pktIdAt k
      rw [pktIdAt_good (h.gro hpos) (by omega) (h.good _ (by omega) (by omega))]
      omega
    · exact forall_mem_concat h.pos (Nat.pos_of_ne_zero hne)
  · rename_i hzero
    have hg : g = 0 := h.segs ▸ Decidable.not_not.1 hzero
    exact ⟨h.of_zero hg, hsize⟩

/-- A packet is sent out by itself. -/
theorem Pending.single {b n size : ℕ} {valid : Bool} {t : CoalMeta × List Piece} (hw : c.Wf)
    (hn : c.Nlo b n size) (h : c.Ready k t) (hb : b ≤ k) (hend : k < b + n)
    (hsize : t.1.gsoSize = size) (hk : c.Start k) (hvalid : c.err k = !valid)
    (hbad : c.gro = false ∨ c.err k = true) :
    c.Ready (k + 1) (segmentData note (k % 2 ^ 8) valid (setSegs 1 t)) := by
  have hnext : c.Start (k + 1) := by
    rcases hbad with hg | he
    · exact .inl hg
    · exact .inr (.inr (.inl ⟨Nat.succ_pos _, he⟩))
  obtain ⟨hoff, hexp⟩ := segmentData_expand (g := 1) valid (t := setSegs 1 t) hw hn hb
    (by omega) hk hnext (fun i hlo hhi => absurd hlo (by omega))
    (fun i hlo hhi => by rwa [show i = k by omega]) h.offset h.pktId rfl hsize h.expand (k % 2 ^ 8)
  refine .ready hoff ?_ hexp ?_
  · show (k % 2 ^ 8 + 1) % 2 ^ 8 = c.pktIdAt (k + 1)
    rw [pktIdAt_bad (Nat.succ_pos _) hbad]
    omega
  · exact forall_mem_concat h.pos Nat.one_pos

/-- A good packet is kept back. -/
theorem Pending.keep {b n size g : ℕ} {bits : ℕ} {t : CoalMeta × List Piece}
    (hn : c.Nlo b n size) (h : c.Pending k g t) (hb : b ≤ k - g) (hend : k < b + n)
    (hgro : c.gro = true) (hgood : c.err k = false)
    (hfirst : g = 0 → c.Start k) (hbits : g + 1 < 2 ^ bits) :
    c.Pending (k + 1) (g + 1) (setSegs ((t.1.gsoSegs + 1) % 2 ^ bits) t) := by
  have hle := h.le
  have hsub : k + 1 - (g + 1) = k - g := by omega
  refine ⟨by omega, ?_, hsub ▸ h.offset, hsub ▸ h.pktId, hsub ▸ h.expand, fun _ => hgro,
    fun _ => ?_, fun i hlo hhi => ?_, fun i hlo hhi => ?_, h.pos⟩
  · show (t.1.gsoSegs + 1) % 2 ^ bits = g + 1
    rw [h.segs]
    exact Nat.mod_eq_of_lt hbits
  · rw [hsub]
    rcases Nat.eq_zero_or_pos g with rfl | hpos
    · exact hfirst rfl
    · exact h.start hpos
  · rw [hsub] at hlo
    rcases Nat.lt_or_ge i k with hik | hik
    · exact h.run i hlo hik
    · -- the packet continues the run
      obtain rfl : i = k := by omega
      rintro (hg | he | ⟨-, he⟩ | hm)
      · exact absurd (hg.symm.trans hgro) Bool.false_ne_true
      · exact absurd (hgood.symm.trans he) Bool.false_ne_true
      · exact absurd ((h.good (i - 1) (by omega) (by omega)).symm.trans he) Bool.false_ne_true
      · exact hn.inside i (by omega) hend hm
  · rw [hsub] at hlo
    rcases Nat.lt_or_ge i k with hik | hik
    · exact h.good i hlo hik
    · obtain rfl : i = k := by omega
      exact hgood

/-- Inside an NLO: `k` packets are behind the loop. -/
structure Inside (c : Cuts) (b size k : ℕ) (t : CoalMeta × List Piece) : Prop where
  ex : ∃ g, c.Pending k g t ∧ b ≤ k - g ∧ (g = 0 → c.Start k)
  size : t.1.gsoSize = size

/-- **One packet.** -/
theorem Inside.packet {b n size bits : ℕ} {t : CoalMeta × List Piece} (hw : c.Wf)
    (hn : c.Nlo b n size) (h : c.Inside b size k t) (hend : k < b + n)
    (hbits : n < 2 ^ bits) :
    c.Inside b size (k + 1) (segmentPacket note bits c.gro (k % 2 ^ 8) (c.err k) t) := by
  obtain ⟨⟨g, hp, hb, hfirst⟩, hsize⟩ := h
  have hle := hp.le
  unfold segmentPacket
  split
  · rename_i hgro
    have hgro : c.gro = false := by simpa using hgro
    have hg : g = 0 := by
      by_contra hne
      exact absurd ((hp.gro (by omega)).symm.trans hgro) (by decide)
    exact ⟨⟨0, (hp.of_zero hg).single hw hn (by omega) hend hsize (hfirst hg) (by simp) (.inl hgro),
      by omega, fun _ => .inl hgro⟩, hsize⟩
  · rename_i hgro
    have hgro : c.gro = true := by simpa using hgro
    split
    · rename_i herr
      have hk : c.Start k := .inr (.inl herr)
      obtain ⟨hready, hsize'⟩ := hp.flush hw hn hb (by omega) hsize hk
      exact ⟨⟨0, hready.single hw hn (by omega) hend hsize' hk herr (.inr herr), by omega,
        fun _ => .inr (.inr (.inl ⟨Nat.succ_pos _, herr⟩))⟩, hsize'⟩
    · rename_i herr
      have herr : c.err k = false := by simpa using herr
      exact ⟨⟨g + 1, hp.keep hn hb hend hgro herr hfirst (by omega), by omega,
        fun h => absurd h (Nat.succ_ne_zero _)⟩, hsize⟩

/-- **The packets of an NLO.** -/
theorem Inside.packets {b n size bits : ℕ} (hw : c.Wf) (hn : c.Nlo b n size)
    (hbits : n < 2 ^ bits) (r : ℕ) {t : CoalMeta × List Piece} (h : c.Inside b size k t)
    (hend : k + r = b + n) :
    ∃ t', segmentPackets note bits c.gro r (k % 2 ^ 8) (c.mask >>> k) t =
        ((k + r) % 2 ^ 8, c.mask >>> (k + r), t') ∧ c.Inside b size (k + r) t' := by
  induction r generalizing k t with
  | zero => exact ⟨t, rfl, h⟩
  | succ r ih =>
    have herr : (c.mask >>> k).testBit 0 = c.err k := by rw [Nat.testBit_shiftRight]; rfl
    have htotal : (k % 2 ^ 8 + 1) % 2 ^ 8 = (k + 1) % 2 ^ 8 := by omega
    have hshift : c.mask >>> k >>> 1 = c.mask >>> (k + 1) := (Nat.shiftRight_add _ _ _).symm
    rw [segmentPackets, herr, htotal, hshift]
    have := ih (h.packet hw hn (by omega) hbits) (by omega)
    rwa [Nat.add_assoc, Nat.add_comm 1] at this

/-- **The NLOs.** -/
theorem segmentNlos_ready {bits : ℕ} (hw : c.Wf) (hbits : 8 ≤ bits) (done : List NlPair)
    {rest : List NlPair} (h : c.nlos = done ++ rest) {t : CoalMeta × List Piece}
    (hr : c.Ready (pktCount done) t) :
    c.Ready c.count (segmentNlos note bits c.gro c.hlen rest (pktCount done % 2 ^ 8)
      (c.mask >>> pktCount done) t) := by
  induction rest generalizing done t with
  | nil =>
    rw [count, h, List.append_nil]
    exact hr
  | cons p rest ih =>
    have hn := nlo_of_split h
    have hmem : p ∈ c.nlos := by rw [h]; exact List.mem_append_right _ List.mem_cons_self
    obtain ⟨hlo, hhi, hnum⟩ := hw.fits p hmem
    have hsize : (p.pktLen + 2 ^ 16 - c.hlen % 2 ^ 16) % 2 ^ 16 = p.pktLen - c.hlen := by omega
    have hbits' : p.numPackets < 2 ^ bits :=
      Nat.lt_of_lt_of_le hnum (Nat.pow_le_pow_right (by decide) hbits)
    have hin : c.Inside (pktCount done) (p.pktLen - c.hlen) (pktCount done)
        ({ t.1 with gsoSize := p.pktLen - c.hlen }, t.2) :=
      ⟨⟨0, ⟨hr.le, hr.segs, hr.offset, hr.pktId, hr.expand, hr.gro, hr.start, hr.run, hr.good,
          hr.pos⟩,
        Nat.le_refl _, fun _ => start_of_mem hn.start⟩, rfl⟩
    obtain ⟨t', heq, ⟨g, hp, hb, -⟩, hsz⟩ := hin.packets hw hn hbits' p.numPackets rfl
    rw [segmentNlos, hsize]
    simp only [heq]
    obtain ⟨hready, -⟩ := hp.flush hw hn hb (Nat.le_refl _) hsz (start_of_mem hn.stop)
    have hcount : pktCount (done ++ [p]) = pktCount done + p.numPackets := by
      rw [pktCount_append, pktCount_cons]
      rfl
    have := ih (done ++ [p]) (by rw [h, List.append_assoc]; rfl)
      (by rw [hcount]; exact hready)
    rwa [hcount] at this

/-- **The pieces are the packets of the frame, in order.** -/
theorem pieces_expand (bits : ℕ) (hw : c.Wf) (hbits : 8 ≤ bits) :
    (c.pieces bits).flatMap expandPiece = (List.range c.count).map c.cutAt ∧
    ∀ p ∈ c.pieces bits, 0 < p.1.gsoSegs := by
  have hinit : c.Ready (pktCount []) ({}, []) :=
    .ready (m := {}) rfl rfl rfl fun p hp => absurd hp List.not_mem_nil
  have h := segmentNlos_ready hw hbits [] rfl hinit
  exact ⟨h.expand, h.pos⟩

/-- A piece lies in the payload. -/
theorem piece_le {bits : ℕ} (hw : c.Wf) (hbits : 8 ≤ bits) {p : Piece} (hp : p ∈ c.pieces bits) :
    p.1.dataOffset + p.1.gsoSize * p.1.gsoSegs ≤ c.total := by
  obtain ⟨hexp, hpos⟩ := pieces_expand bits hw hbits
  have hsegs := hpos p hp
  -- its last packet is one of the frame
  have hmem : (⟨p.1.dataOffset + (p.1.gsoSegs - 1) * p.1.gsoSize, p.1.gsoSize,
      p.1.pktId + (p.1.gsoSegs - 1), p.2, decide (p.1.gsoSegs - 1 + 1 = p.1.gsoSegs)⟩ : Cut) ∈
      (c.pieces bits).flatMap expandPiece :=
    List.mem_flatMap.2 ⟨p, hp, List.mem_map.2 ⟨_, List.mem_range.2 (by omega), rfl⟩⟩
  rw [hexp] at hmem
  obtain ⟨k, hk, heq⟩ := List.mem_map.1 hmem
  have hoff : c.off k = p.1.dataOffset + (p.1.gsoSegs - 1) * p.1.gsoSize := congrArg Cut.off heq
  have hsize : c.sizes.getD k 0 = p.1.gsoSize := congrArg Cut.size heq
  calc p.1.dataOffset + p.1.gsoSize * p.1.gsoSegs
      = p.1.dataOffset + (p.1.gsoSegs - 1) * p.1.gsoSize + p.1.gsoSize := by
        rw [Nat.add_assoc, ← Nat.succ_mul, Nat.succ_eq_add_one, Nat.sub_add_cancel hsegs,
          Nat.mul_comm]
    _ = c.off (k + 1) := by rw [off_succ _ _ (List.mem_range.1 hk), hoff, hsize]
    _ ≤ c.total := c.off_le _

/-! ## The width of the count -/

theorem flushData_gsoSegs (pktId : ℕ) (t : CoalMeta × List Piece) :
    (flushData note pktId t).1.gsoSegs = 0 := by
  unfold flushData
  split
  · rfl
  · rename_i h
    exact not_not.1 h

theorem segmentPacket_width {bits bits' : ℕ} {gro csumErr : Bool} {totalPkt : ℕ}
    {t : CoalMeta × List Piece} (h : t.1.gsoSegs + 1 < 2 ^ bits)
    (h' : t.1.gsoSegs + 1 < 2 ^ bits') :
    segmentPacket note bits gro totalPkt csumErr t =
        segmentPacket note bits' gro totalPkt csumErr t ∧
      (segmentPacket note bits gro totalPkt csumErr t).1.gsoSegs ≤ t.1.gsoSegs + 1 := by
  unfold segmentPacket
  split
  · exact ⟨rfl, Nat.zero_le _⟩
  · split
    · exact ⟨rfl, Nat.zero_le _⟩
    · rw [Nat.mod_eq_of_lt h, Nat.mod_eq_of_lt h']
      exact ⟨rfl, Nat.le_refl _⟩

theorem segmentPackets_width {bits bits' : ℕ} {gro : Bool} {n totalPkt mask : ℕ}
    {t : CoalMeta × List Piece} (h : t.1.gsoSegs + n < 2 ^ bits)
    (h' : t.1.gsoSegs + n < 2 ^ bits') :
    segmentPackets note bits gro n totalPkt mask t =
      segmentPackets note bits' gro n totalPkt mask t := by
  induction n generalizing totalPkt mask t with
  | zero => rfl
  | succ n ih =>
    have hs : t.1.gsoSegs + 1 < 2 ^ bits := by omega
    have hs' : t.1.gsoSegs + 1 < 2 ^ bits' := by omega
    obtain ⟨heq, hle⟩ : segmentPacket note bits gro totalPkt (mask.testBit 0) t =
          segmentPacket note bits' gro totalPkt (mask.testBit 0) t ∧
        (segmentPacket note bits gro totalPkt (mask.testBit 0) t).1.gsoSegs ≤ t.1.gsoSegs + 1 :=
      segmentPacket_width hs hs'
    rw [segmentPackets, segmentPackets, ← heq]
    exact ih (by omega) (by omega)

theorem segmentNlos_width {bits bits' : ℕ} {gro : Bool} {hlen : ℕ} {nlos : List NlPair}
    {totalPkt mask : ℕ} {t : CoalMeta × List Piece} (ht : t.1.gsoSegs = 0)
    (h : ∀ p ∈ nlos, p.numPackets < 2 ^ bits) (h' : ∀ p ∈ nlos, p.numPackets < 2 ^ bits') :
    segmentNlos note bits gro hlen nlos totalPkt mask t =
      segmentNlos note bits' gro hlen nlos totalPkt mask t := by
  induction nlos generalizing totalPkt mask t with
  | nil => rfl
  | cons p nlos ih =>
    have hp : ∀ t' : CoalMeta × List Piece, t'.1.gsoSegs = 0 →
        segmentPackets note bits gro p.numPackets totalPkt mask t' =
          segmentPackets note bits' gro p.numPackets totalPkt mask t' := by
      intro t' ht'
      refine segmentPackets_width ?_ ?_
      · rw [ht', Nat.zero_add]
        exact h p List.mem_cons_self
      · rw [ht', Nat.zero_add]
        exact h' p List.mem_cons_self
    have hsize (size : ℕ) := hp ({ t.1 with gsoSize := size }, t.2) ht
    rw [segmentNlos, segmentNlos, hsize]
    exact ih (flushData_gsoSegs _ _) (fun q hq => h q (List.mem_cons_of_mem _ hq))
      fun q hq => h' q (List.mem_cons_of_mem _ hq)

/-- **The pieces do not depend on the width of the count**: it is never more than the number of
    packets of an NLO. -/
theorem pieces_width (hw : c.Wf) {bits : ℕ} (hbits : 8 ≤ bits) : c.pieces bits = c.pieces 8 := by
  have hfits : ∀ p ∈ c.nlos, p.numPackets < 2 ^ 8 := fun p hp => (hw.fits p hp).2.2
  refine congrArg Prod.snd (segmentNlos_width rfl (fun p hp => ?_) hfits)
  exact Nat.lt_of_lt_of_le (hfits p hp) (Nat.pow_le_pow_right (by decide) hbits)

/-! ## Whatever is made of the pieces -/

section Made

variable {β : Type} {emit : CoalMeta → Bool → Option β} {f : Piece → β} {bits : ℕ} {gro : Bool}
  {t : CoalMeta × List Piece} {u : CoalMeta × List β}

/-- Two loops at the same point: one made what the other noted. -/
structure Follows (f : Piece → β) (u : CoalMeta × List β) (t : CoalMeta × List Piece) : Prop where
  fst : u.1 = t.1
  snd : u.2 = t.2.map f

/-- What is made of all these pieces. -/
def Makes (emit : CoalMeta → Bool → Option β) (f : Piece → β) (l : List Piece) : Prop :=
  ∀ p ∈ l, emit p.1 p.2 = some (f p)

theorem Makes.mono {l l' : List Piece} (h : Makes emit f l') (hl : l <+: l') : Makes emit f l :=
  fun p hp => h p (hl.subset hp)

theorem prefix_segmentData (pktId : ℕ) (valid : Bool) (t : CoalMeta × List Piece) :
    t.2 <+: (segmentData note pktId valid t).2 := List.prefix_append _ _

theorem prefix_flushData (pktId : ℕ) (t : CoalMeta × List Piece) :
    t.2 <+: (flushData note pktId t).2 := by
  unfold flushData
  split
  · exact prefix_segmentData _ _ _
  · exact List.prefix_rfl

theorem prefix_segmentPacket (bits : ℕ) (gro : Bool) (totalPkt : ℕ) (csumErr : Bool)
    (t : CoalMeta × List Piece) : t.2 <+: (segmentPacket note bits gro totalPkt csumErr t).2 := by
  unfold segmentPacket
  split
  · exact prefix_segmentData _ _ (setSegs 1 t)
  · split
    · exact (prefix_flushData _ _).trans (prefix_segmentData _ _ (setSegs 1 _))
    · exact List.prefix_rfl

theorem prefix_segmentPackets (bits : ℕ) (gro : Bool) (n totalPkt mask : ℕ)
    (t : CoalMeta × List Piece) :
    t.2 <+: (segmentPackets note bits gro n totalPkt mask t).2.2.2 := by
  induction n generalizing totalPkt mask t with
  | zero => exact List.prefix_rfl
  | succ n ih => exact (prefix_segmentPacket _ _ _ _ _).trans (ih _ _ _)

theorem prefix_segmentNlos (bits : ℕ) (gro : Bool) (hlen : ℕ) (nlos : List NlPair)
    (totalPkt mask : ℕ) (t : CoalMeta × List Piece) :
    t.2 <+: (segmentNlos note bits gro hlen nlos totalPkt mask t).2 := by
  induction nlos generalizing totalPkt mask t with
  | nil => exact List.prefix_rfl
  | cons p nlos ih =>
    simp only [segmentNlos]
    refine List.IsPrefix.trans ?_ (ih _ _ _)
    refine List.IsPrefix.trans ?_ (prefix_flushData _ _)
    exact prefix_segmentPackets bits gro p.numPackets totalPkt mask
      ({ t.1 with gsoSize := (p.pktLen + 2 ^ 16 - hlen % 2 ^ 16) % 2 ^ 16 }, t.2)

theorem Follows.segmentData (h : Follows f u t) {pktId : ℕ} {valid : Bool}
    (hm : Makes emit f (segmentData note pktId valid t).2) :
    Follows f (segmentData emit pktId valid u) (segmentData note pktId valid t) := by
  have hemit : emit t.1 valid = some (f (t.1, valid)) :=
    hm (t.1, valid) (List.mem_append_right _ List.mem_cons_self)
  unfold Rmnet.segmentData
  rw [h.fst, hemit]
  refine ⟨rfl, ?_⟩
  show u.2 ++ [f (t.1, valid)] = (t.2 ++ [(t.1, valid)]).map f
  rw [h.snd, List.map_append]
  rfl

theorem Follows.setSegs (h : Follows f u t) (n : ℕ) : Follows f (setSegs n u) (setSegs n t) :=
  ⟨congrArg (fun m => { m with gsoSegs := n }) h.fst, h.snd⟩

theorem Follows.flushData (h : Follows f u t) {pktId : ℕ}
    (hm : Makes emit f (flushData note pktId t).2) :
    Follows f (flushData emit pktId u) (flushData note pktId t) := by
  unfold Rmnet.flushData at hm ⊢
  rw [h.fst]
  split
  · rename_i hne
    rw [if_pos hne] at hm
    exact h.segmentData hm
  · exact h

theorem Follows.segmentPacket (h : Follows f u t) {totalPkt : ℕ} {csumErr : Bool}
    (hm : Makes emit f (segmentPacket note bits gro totalPkt csumErr t).2) :
    Follows f (segmentPacket emit bits gro totalPkt csumErr u)
      (segmentPacket note bits gro totalPkt csumErr t) := by
  unfold Rmnet.segmentPacket at hm ⊢
  split
  · rename_i hgro
    rw [if_pos hgro] at hm
    exact (h.setSegs 1).segmentData hm
  · rename_i hgro
    rw [if_neg hgro] at hm
    split
    · rename_i herr
      rw [if_pos herr] at hm
      have hflush : Follows f (Rmnet.flushData emit totalPkt u) (Rmnet.flushData note totalPkt t) :=
        h.flushData (hm.mono (prefix_segmentData _ _ (Rmnet.setSegs 1 _)))
      exact (hflush.setSegs 1).segmentData hm
    · rw [h.fst]
      exact h.setSegs _

theorem Follows.segmentPackets (h : Follows f u t) {n totalPkt mask : ℕ}
    (hm : Makes emit f (segmentPackets note bits gro n totalPkt mask t).2.2.2) :
    (segmentPackets emit bits gro n totalPkt mask u).1 =
        (segmentPackets note bits gro n totalPkt mask t).1 ∧
      (segmentPackets emit bits gro n totalPkt mask u).2.1 =
        (segmentPackets note bits gro n totalPkt mask t).2.1 ∧
      Follows f (segmentPackets emit bits gro n totalPkt mask u).2.2
        (segmentPackets note bits gro n totalPkt mask t).2.2 := by
  induction n generalizing totalPkt mask t u with
  | zero => exact ⟨rfl, rfl, h⟩
  | succ n ih => exact ih (h.segmentPacket (hm.mono (prefix_segmentPackets _ _ _ _ _ _))) hm

theorem Follows.segmentNlos (h : Follows f u t) {hlen : ℕ} {nlos : List NlPair} {totalPkt mask : ℕ}
    (hm : Makes emit f (segmentNlos note bits gro hlen nlos totalPkt mask t).2) :
    Follows f (segmentNlos emit bits gro hlen nlos totalPkt mask u)
      (segmentNlos note bits gro hlen nlos totalPkt mask t) := by
  induction nlos generalizing totalPkt mask t u with
  | nil => exact h
  | cons p nlos ih =>
    rw [Rmnet.segmentNlos] at hm
    simp only [Rmnet.segmentNlos]
    have hsize : Follows f
        ({ u.1 with gsoSize := (p.pktLen + 2 ^ 16 - hlen % 2 ^ 16) % 2 ^ 16 }, u.2)
        ({ t.1 with gsoSize := (p.pktLen + 2 ^ 16 - hlen % 2 ^ 16) % 2 ^ 16 }, t.2) :=
      ⟨by rw [h.fst], h.snd⟩
    have hmf := hm.mono (prefix_segmentNlos _ _ _ _ _ _ _)
    obtain ⟨ht, hmask, hf⟩ := hsize.segmentPackets (hmf.mono (prefix_flushData _ _))
    rw [ht, hmask]
    exact ih (hf.flushData hmf) hm

/-- **The packets sent out are those made of the pieces.** -/
theorem segmentNlos_eq (hm : Makes emit f (c.pieces bits)) :
    (segmentNlos emit bits c.gro c.hlen c.nlos 0 c.mask ({}, [])).2 = (c.pieces bits).map f := by
  have h : Follows f (({} : CoalMeta), ([] : List β)) ({}, []) := ⟨rfl, rfl⟩
  exact (h.segmentNlos hm).snd

end Made

end Cuts

end Sm8850.Rmnet
