/-
  A producer and a consumer on one host firmware interface ring.

  * `Step` interleaves one call of `__write_queue` with one call of
    `__read_queue`, access by access: the look at the header, the words of the
    two `memcpy` calls one at a time and in any order, and the publishing of the
    index, with the memory barriers of the code keeping these stages in order.
  * `RingInv` is the invariant: the words between the two indices are the
    packets written and not yet read, a producer that copies owns enough free
    words behind them, and a consumer that copies holds a part of the first one.
  * **`queue_fifo`**: the packets read are a prefix of the packets written, and
    the ring is never full.
-/
import Sm8850.Lib.Ring
import Sm8850.Venus.Queue
import Mathlib.Data.List.GetD
import Mathlib.Logic.Relation
import Mathlib.Tactic.Ring

namespace Sm8850.Venus

open Lib.Ring

/-! ## Steps -/

/-- A packet: its first word is its size in bytes, at most
    `VIDC_IFACEQ_VAR_HUGE_PKT_SIZE`. -/
def IsPacket (pkt : List ℕ) : Prop :=
  pkt ≠ [] ∧ pkt.getD 0 0 = pkt.length * 4 ∧ pkt.length * 4 ≤ hugePktSize

/-- Where a call of `__write_queue` is. -/
inductive Producer where
  | idle
  | copying (pkt : List ℕ) (c : Copy) (copied : List ℕ)

/-- Where a call of `__read_queue` is. -/
inductive Consumer where
  | idle
  | looked (readIdx writeIdx cell : ℕ)
  | copying (c : Copy) (packet : ℕ → ℕ) (copied : List ℕ)

/-- The shared ring and header, the two calls, and the packets successfully
    written and read so far. -/
structure RingState where
  queue : HfiQueueHeader
  ring : ℕ → ℕ
  producer : Producer
  consumer : Consumer
  written : List (List ℕ)
  read : List (List ℕ)

/-- The reset header over any ring contents. -/
def RingState.init (type : ℕ) (ring : ℕ → ℕ) : RingState :=
  ⟨setQueueHdrDefaults type, ring, .idle, .idle, [], []⟩

/-- The words of a packet that a consumer has copied. -/
def packetWords (packet : ℕ → ℕ) (size : ℕ) : List ℕ := (List.range size).map packet

/-- A call of `__write_queue` that returns an error: it ends with its look at the
    header. -/
def WriteRefused (memSize : ℕ) (s s' : RingState) : Prop :=
  s.producer = .idle ∧ ∃ pkt queue e, IsPacket pkt ∧
    writeLook memSize s.queue (pkt.getD 0 0) = (queue, .error e) ∧ s' = { s with queue := queue }

/-- One access of the producer or of the consumer. -/
inductive Step (memSize : ℕ) (s : RingState) : RingState → Prop
  | writeRefuse (s' : RingState) (h : WriteRefused memSize s s') : Step memSize s s'
  | writeLook (pkt : List ℕ) (queue : HfiQueueHeader) (c : Copy) (hp : IsPacket pkt)
      (hidle : s.producer = .idle)
      (hl : writeLook memSize s.queue (pkt.getD 0 0) = (queue, .ok c)) :
      Step memSize s { s with queue := queue, producer := .copying pkt c [] }
  | writeWord (pkt : List ℕ) (c : Copy) (copied : List ℕ) (i : ℕ)
      (hcopy : s.producer = .copying pkt c copied) (hi : i < c.size) :
      Step memSize s
        { s with
          ring := Function.update s.ring (c.cell i) (pkt.getD i 0)
          producer := .copying pkt c (i :: copied) }
  | writePublish (pkt : List ℕ) (c : Copy) (copied : List ℕ)
      (hcopy : s.producer = .copying pkt c copied) (hall : ∀ i < c.size, i ∈ copied) :
      Step memSize s
        { s with
          queue := writePublish s.queue c.newIdx, producer := .idle,
          written := s.written ++ [pkt] }
  | readRefuse (queue : HfiQueueHeader) (e : QueueErr) (hidle : s.consumer = .idle)
      (hl : readLook memSize s.queue = (queue, .error e)) :
      Step memSize s { s with queue := queue }
  | readLook (queue : HfiQueueHeader) (cell : ℕ) (hidle : s.consumer = .idle)
      (hl : readLook memSize s.queue = (queue, .ok cell)) :
      Step memSize s
        { s with
          queue := queue
          consumer := .looked s.queue.qhdrReadIdx s.queue.qhdrWriteIdx cell }
  | readZero (readIdx writeIdx cell : ℕ) (hlook : s.consumer = .looked readIdx writeIdx cell)
      (hplan : readPlan memSize readIdx writeIdx (s.ring cell) = .zeroSize) :
      Step memSize s { s with consumer := .idle }
  | readDrop (readIdx writeIdx cell newIdx : ℕ)
      (hlook : s.consumer = .looked readIdx writeIdx cell)
      (hplan : readPlan memSize readIdx writeIdx (s.ring cell) = .drop newIdx) :
      Step memSize s { s with queue := (readPublish s.queue newIdx).1, consumer := .idle }
  | readSize (readIdx writeIdx cell : ℕ) (c : Copy) (packet : ℕ → ℕ)
      (hlook : s.consumer = .looked readIdx writeIdx cell)
      (hplan : readPlan memSize readIdx writeIdx (s.ring cell) = .copy c) :
      Step memSize s { s with consumer := .copying c packet [] }
  | readWord (c : Copy) (packet : ℕ → ℕ) (copied : List ℕ) (i : ℕ)
      (hcopy : s.consumer = .copying c packet copied) (hi : i < c.size) :
      Step memSize s
        { s with
          consumer := .copying c (Function.update packet i (s.ring (c.cell i))) (i :: copied) }
  | readPublish (c : Copy) (packet : ℕ → ℕ) (copied : List ℕ)
      (hcopy : s.consumer = .copying c packet copied) (hall : ∀ i < c.size, i ∈ copied) :
      Step memSize s
        { s with
          queue := (readPublish s.queue c.newIdx).1, consumer := .idle,
          read := s.read ++ [packetWords packet c.size] }

/-- The states a run from the reset header reaches. -/
def Reachable (memSize : ℕ) (s : RingState) : Prop :=
  ∃ type ring, Relation.ReflTransGen (Step memSize) (RingState.init type ring) s

/-! ## The pure parts on a well-formed header -/

section
variable {memSize idx size : ℕ}

theorem shr2_mul_le (memSize : ℕ) : shr2 memSize * 4 ≤ memSize := Nat.div_mul_le_self memSize 4

theorem shr2_shl2 (hm : memSize < u32Size) (hi : idx < shr2 memSize) :
    shr2 (shl2 idx) = idx := by
  have := shr2_mul_le memSize
  rw [shl2_of_lt (by omega), shr2]
  omega

/-- The two `memcpy` calls follow the ring. -/
theorem splitCopy_spec (size : ℕ) (hm : memSize < u32Size) (hi : idx < shr2 memSize)
    (hs : size < shr2 memSize) :
    (splitCopy (shr2 memSize) idx size).size = size ∧
    (splitCopy (shr2 memSize) idx size).newIdx = wrapIndex (shr2 memSize) idx size ∧
    ∀ i < size, (splitCopy (shr2 memSize) idx size).cell i = wrapIndex (shr2 memSize) idx i := by
  have h4 := shr2_mul_le memSize
  have hadd : add32 idx size = idx + size := add32_of_lt (by omega)
  rw [splitCopy, hadd]
  by_cases hlt : idx + size < shr2 memSize
  · simp only [hlt, if_true, shr2_shl2 hm hi, Copy.cell]
    refine ⟨trivial, by rw [wrapIndex, if_pos hlt], fun i his => ?_⟩
    rw [if_pos his, wrapIndex, if_pos (by omega)]
  · have hsub : sub32 (idx + size) (shr2 memSize) = idx + size - shr2 memSize :=
      sub32_of_le (Nat.le_of_not_lt hlt) (by omega)
    have hfirst : sub32 size (idx + size - shr2 memSize) = shr2 memSize - idx := by
      rw [sub32_of_le (by omega) (by omega)]
      omega
    simp only [hlt, if_false, shr2_shl2 hm hi, hsub, hfirst, Copy.cell]
    refine ⟨trivial, by rw [wrapIndex, if_neg hlt], fun i his => ?_⟩
    rw [wrapIndex]
    split_ifs <;> omega

/-- The room `__write_queue` computes. -/
theorem emptySpace_eq {r w : ℕ} (hm : memSize < u32Size) (hr : r < shr2 memSize)
    (hw : w < shr2 memSize) :
    (if r ≤ w then sub32 (shr2 memSize) (sub32 w r) else sub32 r w) =
      freeSpace (shr2 memSize) r w := by
  have h4 := shr2_mul_le memSize
  rw [freeSpace]
  split_ifs with h
  · rw [sub32_of_le h (by omega), sub32_of_le (by omega) (by omega)]
  · rw [sub32_of_le (by omega) (by omega)]

theorem writeLook_idx (memSize : ℕ) (queue : HfiQueueHeader) (word : ℕ) :
    (writeLook memSize queue word).1.qhdrReadIdx = queue.qhdrReadIdx ∧
    (writeLook memSize queue word).1.qhdrWriteIdx = queue.qhdrWriteIdx := by
  simp only [writeLook]
  split_ifs <;> exact ⟨rfl, rfl⟩

theorem readLook_idx (memSize : ℕ) (queue : HfiQueueHeader) :
    (readLook memSize queue).1.qhdrReadIdx = queue.qhdrReadIdx ∧
    (readLook memSize queue).1.qhdrWriteIdx = queue.qhdrWriteIdx := by
  simp only [readLook]
  split_ifs <;> exact ⟨rfl, rfl⟩

/-- An admitted write has room for its packet and one word more. -/
theorem writeLook_ok {queue queue' : HfiQueueHeader} {word : ℕ} {c : Copy}
    (hm : memSize < u32Size) (hr : queue.qhdrReadIdx < shr2 memSize)
    (hw : queue.qhdrWriteIdx < shr2 memSize)
    (h : writeLook memSize queue word = (queue', .ok c)) :
    c = splitCopy (shr2 memSize) queue.qhdrWriteIdx (shr2 word) ∧
    shr2 word < freeSpace (shr2 memSize) queue.qhdrReadIdx queue.qhdrWriteIdx := by
  simp only [writeLook, emptySpace_eq hm hr hw] at h
  split_ifs at h with h1 h2 h3
  · cases (Prod.mk.inj h).2
  · cases (Prod.mk.inj h).2
  · cases (Prod.mk.inj h).2
  · exact ⟨(Except.ok.inj (Prod.mk.inj h).2).symm, Nat.lt_of_not_le h2⟩

/-- A read that goes on sees a ring that is not empty. -/
theorem readLook_ok {queue queue' : HfiQueueHeader} {cell : ℕ} (hm : memSize < u32Size)
    (hr : queue.qhdrReadIdx < shr2 memSize) (h : readLook memSize queue = (queue', .ok cell)) :
    cell = queue.qhdrReadIdx ∧ queue.qhdrReadIdx ≠ queue.qhdrWriteIdx := by
  simp only [readLook] at h
  split_ifs at h with h1 h2
  · cases (Prod.mk.inj h).2
  · cases (Prod.mk.inj h).2
  · rw [shr2_shl2 hm hr] at h
    exact ⟨(Except.ok.inj (Prod.mk.inj h).2).symm, h1⟩

/-- The size word of a packet is taken for what it is. -/
theorem readPlan_packet {readIdx writeIdx : ℕ} {pkt : List ℕ} (hr : readIdx < shr2 memSize)
    (hp : IsPacket pkt) :
    readPlan memSize readIdx writeIdx (pkt.getD 0 0) =
      .copy (splitCopy (shr2 memSize) readIdx pkt.length) := by
  obtain ⟨hne, hsize, hhuge⟩ := hp
  have hlen : pkt.length ≠ 0 := fun h => hne (List.length_eq_zero_iff.1 h)
  have hw : shr2 (pkt.getD 0 0) = pkt.length := by rw [hsize, shr2]; omega
  have hshl : shl2 pkt.length = pkt.length * 4 := by
    refine shl2_of_lt (lt_of_le_of_lt hhuge ?_)
    decide
  simp only [readPlan, hw, hlen, if_false, hshl, hhuge, hr.le, and_self, if_true]

end

/-! ## The invariant -/

/-- The invariant at stream position `pos` with the packets `pending` in the ring. -/
structure RingInv (memSize : ℕ) (s : RingState) (pos : ℕ) (pending : List (List ℕ)) : Prop where
  packets : ∀ pkt ∈ pending, IsPacket pkt
  log : s.written = s.read ++ pending
  readIdx : s.queue.qhdrReadIdx = pos % shr2 memSize
  writeIdx : s.queue.qhdrWriteIdx = (pos + pending.flatten.length) % shr2 memSize
  holds : Holds (shr2 memSize) s.ring pos pending.flatten
  /-- a producer has room for its packet and has put the words it says there -/
  producer : ∀ pkt c copied, s.producer = .copying pkt c copied →
    IsPacket pkt ∧ pending.flatten.length + pkt.length < shr2 memSize ∧
    c = splitCopy (shr2 memSize) s.queue.qhdrWriteIdx pkt.length ∧
    ∀ i ∈ copied, i < pkt.length →
      s.ring ((pos + pending.flatten.length + i) % shr2 memSize) = pkt.getD i 0
  /-- a consumer that has looked saw a packet -/
  looked : ∀ r w cell, s.consumer = .looked r w cell →
    r = s.queue.qhdrReadIdx ∧ cell = s.queue.qhdrReadIdx ∧ pending ≠ []
  /-- a consumer that copies has got the words it says of the first packet -/
  copying : ∀ c packet copied, s.consumer = .copying c packet copied →
    ∃ pkt rest, pending = pkt :: rest ∧
      c = splitCopy (shr2 memSize) s.queue.qhdrReadIdx pkt.length ∧
      ∀ i ∈ copied, i < pkt.length → packet i = pkt.getD i 0

section
variable {memSize pos : ℕ} {s s' : RingState} {pending : List (List ℕ)}

theorem RingInv.pos_ring (h : RingInv memSize s pos pending) : 0 < shr2 memSize :=
  Nat.zero_lt_of_lt h.holds.lt

theorem RingInv.readIdx_lt (h : RingInv memSize s pos pending) :
    s.queue.qhdrReadIdx < shr2 memSize := h.readIdx ▸ Nat.mod_lt _ h.pos_ring

theorem RingInv.writeIdx_lt (h : RingInv memSize s pos pending) :
    s.queue.qhdrWriteIdx < shr2 memSize := h.writeIdx ▸ Nat.mod_lt _ h.pos_ring

/-- The first packet of a ring that is not empty, and its first word. -/
theorem RingInv.head (h : RingInv memSize s pos pending) (hp : pending ≠ []) :
    ∃ pkt rest, pending = pkt :: rest ∧ IsPacket pkt ∧
      pkt.length + rest.flatten.length < shr2 memSize ∧
      ∀ i < pkt.length, s.ring ((pos + i) % shr2 memSize) = pkt.getD i 0 := by
  obtain ⟨pkt, rest, rfl⟩ := List.exists_cons_of_ne_nil hp
  have hlt := h.holds.lt
  rw [List.flatten_cons, List.length_append] at hlt
  refine ⟨pkt, rest, rfl, h.packets _ List.mem_cons_self, hlt, fun i hi => ?_⟩
  rw [h.holds.cell i (by rw [List.flatten_cons, List.length_append]; omega)]
  simp only [List.flatten_cons, List.getElem_append_left hi, List.getD_eq_getElem _ 0 hi]

/-- The ring looks empty exactly when it is. -/
theorem RingInv.empty_iff (h : RingInv memSize s pos pending) :
    s.queue.qhdrReadIdx = s.queue.qhdrWriteIdx ↔ pending = [] := by
  rw [h.readIdx, h.writeIdx, mod_eq_iff h.holds.lt]
  constructor
  · intro h0
    by_contra hp
    obtain ⟨pkt, rest, rfl, hpk, -, -⟩ := h.head hp
    rw [List.flatten_cons, List.length_append] at h0
    exact hpk.1 (List.length_eq_zero_iff.1 (by omega))
  · rintro rfl
    rfl

/-- A step that changes neither the indices nor the rest. -/
theorem RingInv.setQueue (h : RingInv memSize s pos pending) {queue : HfiQueueHeader}
    (hr : queue.qhdrReadIdx = s.queue.qhdrReadIdx)
    (hw : queue.qhdrWriteIdx = s.queue.qhdrWriteIdx) :
    RingInv memSize { s with queue := queue } pos pending where
  packets := h.packets
  log := h.log
  readIdx := hr.trans h.readIdx
  writeIdx := hw.trans h.writeIdx
  holds := h.holds
  producer pkt c copied hc := by
    simp only [hw]
    exact h.producer pkt c copied hc
  looked r w cell hc := by
    simp only [hr]
    exact h.looked r w cell hc
  copying c packet copied hc := by
    simp only [hr]
    exact h.copying c packet copied hc

theorem ringInv_init (hm : 4 ≤ memSize) (type : ℕ) (ring : ℕ → ℕ) :
    RingInv memSize (RingState.init type ring) 0 [] where
  packets := by simp
  log := rfl
  readIdx := rfl
  writeIdx := rfl
  holds := Holds.nil (by rw [shr2]; omega)
  producer _ _ _ h := by cases h
  looked _ _ _ h := by cases h
  copying _ _ _ h := by cases h

/-! ## The producer -/

theorem RingInv.writeLook {pkt : List ℕ} {queue : HfiQueueHeader} {c : Copy}
    (h : RingInv memSize s pos pending) (hm : memSize < u32Size) (hp : IsPacket pkt)
    (hl : Venus.writeLook memSize s.queue (pkt.getD 0 0) = (queue, .ok c)) :
    RingInv memSize { s with queue := queue, producer := .copying pkt c [] } pos pending := by
  have hidx := writeLook_idx memSize s.queue (pkt.getD 0 0)
  obtain ⟨hc, hroom⟩ := writeLook_ok hm h.readIdx_lt h.writeIdx_lt hl
  rw [hl] at hidx
  have hsize : shr2 (pkt.getD 0 0) = pkt.length := by rw [hp.2.1, shr2]; omega
  rw [hsize] at hc hroom
  rw [h.readIdx, h.writeIdx, freeSpace_mod h.holds.lt] at hroom
  have hq := h.setQueue hidx.1 hidx.2
  refine { hq with producer := fun pkt' c' copied hcopy => ?_ }
  cases hcopy
  refine ⟨hp, by omega, ?_, fun i hi => by cases hi⟩
  rw [hc, hidx.2]

theorem RingInv.writeWord {pkt : List ℕ} {c : Copy} {copied : List ℕ} {i : ℕ}
    (h : RingInv memSize s pos pending) (hm : memSize < u32Size)
    (hcopy : s.producer = .copying pkt c copied) (hi : i < c.size) :
    RingInv memSize
      { s with
        ring := Function.update s.ring (c.cell i) (pkt.getD i 0)
        producer := .copying pkt c (i :: copied) } pos pending := by
  obtain ⟨hp, hroom, hc, hdone⟩ := h.producer pkt c copied hcopy
  obtain ⟨hsize, -, hcells⟩ := splitCopy_spec pkt.length hm h.writeIdx_lt (by omega)
  rw [← hc] at hsize hcells
  have hil : i < pkt.length := hsize ▸ hi
  have hcell : c.cell i = (pos + pending.flatten.length + i) % shr2 memSize := by
    rw [hcells i hil, h.writeIdx, wrapIndex_eq_mod (by omega)]
  refine { h with holds := ?_, producer := fun pkt' c' copied' hcopy' => ?_ }
  · rw [hcell]
    exact h.holds.write (by omega) _
  · cases hcopy'
    refine ⟨hp, hroom, hc, fun j hj hjl => ?_⟩
    dsimp only
    by_cases hji : j = i
    · rw [hji, hcell, Function.update_self]
    · have hne : (pos + pending.flatten.length + j) % shr2 memSize ≠ c.cell i := by
        rw [hcell]
        rcases Nat.lt_or_gt_of_ne hji with hlt | hlt
        · exact mod_ne_mod (by omega) (by omega)
        · exact (mod_ne_mod (by omega) (by omega)).symm
      rw [Function.update_of_ne hne]
      exact hdone j ((List.mem_cons.1 hj).resolve_left hji) hjl

theorem RingInv.writePublish {pkt : List ℕ} {c : Copy} {copied : List ℕ}
    (h : RingInv memSize s pos pending) (hm : memSize < u32Size)
    (hcopy : s.producer = .copying pkt c copied) (hall : ∀ i < c.size, i ∈ copied) :
    RingInv memSize
      { s with
        queue := Venus.writePublish s.queue c.newIdx, producer := .idle,
        written := s.written ++ [pkt] } pos (pending ++ [pkt]) := by
  obtain ⟨hp, hroom, hc, hdone⟩ := h.producer pkt c copied hcopy
  obtain ⟨hsize, hnew, -⟩ := splitCopy_spec pkt.length hm h.writeIdx_lt (by omega)
  rw [← hc] at hsize hnew
  have hflat : (pending ++ [pkt]).flatten = pending.flatten ++ pkt := by simp
  refine
    { packets := ?_, log := ?_, readIdx := h.readIdx, writeIdx := ?_, holds := ?_,
      producer := fun _ _ _ hc' => by cases hc'
      looked := fun r w cell hl => ?_, copying := fun c' packet copied' hc' => ?_ }
  · intro q hq
    rcases List.mem_append.1 hq with hq | hq
    · exact h.packets q hq
    · rwa [List.mem_singleton.1 hq]
  · simp only [h.log, List.append_assoc]
  · simp only [Venus.writePublish, hflat, List.length_append]
    rw [hnew, h.writeIdx, wrapIndex_eq_mod (by omega), Nat.add_assoc]
  · rw [hflat]
    refine h.holds.append hroom fun i hi => ?_
    rw [hdone i (hall i (hsize ▸ hi)) hi, List.getD_eq_getElem _ 0 hi]
  · obtain ⟨hr, hcell, -⟩ := h.looked r w cell hl
    exact ⟨hr, hcell, by simp⟩
  · obtain ⟨p, rest, hpend, hcc, hbuf⟩ := h.copying c' packet copied' hc'
    exact ⟨p, rest ++ [pkt], by rw [hpend, List.cons_append], hcc, hbuf⟩

/-! ## The consumer -/

theorem RingInv.readLook {queue : HfiQueueHeader} {cell : ℕ} (h : RingInv memSize s pos pending)
    (hm : memSize < u32Size) (hl : Venus.readLook memSize s.queue = (queue, .ok cell)) :
    RingInv memSize
      { s with
        queue := queue
        consumer := .looked s.queue.qhdrReadIdx s.queue.qhdrWriteIdx cell } pos pending := by
  have hidx := readLook_idx memSize s.queue
  obtain ⟨hcell, hne⟩ := readLook_ok hm h.readIdx_lt hl
  rw [hl] at hidx
  have hq := h.setQueue hidx.1 hidx.2
  refine
    { hq with
      looked := fun r w cell' hlook => ?_, copying := fun _ _ _ hc => by cases hc }
  cases hlook
  exact ⟨hidx.1.symm, hcell.trans hidx.1.symm, fun hp => hne (h.empty_iff.2 hp)⟩

/-- The size word a consumer reads is the one of the first packet. -/
theorem RingInv.readPlan {r w cell : ℕ} (h : RingInv memSize s pos pending)
    (hlook : s.consumer = .looked r w cell) :
    ∃ pkt rest, pending = pkt :: rest ∧ Venus.readPlan memSize r w (s.ring cell) =
      .copy (splitCopy (shr2 memSize) s.queue.qhdrReadIdx pkt.length) := by
  obtain ⟨rfl, rfl, hp⟩ := h.looked r w cell hlook
  obtain ⟨pkt, rest, hpend, hpk, -, hwords⟩ := h.head hp
  refine ⟨pkt, rest, hpend, ?_⟩
  have h0 := hwords 0 (List.length_pos_iff.2 hpk.1)
  rw [Nat.add_zero, ← h.readIdx] at h0
  rw [h0, readPlan_packet h.readIdx_lt hpk]

theorem RingInv.readSize {r w cell : ℕ} {c : Copy} {packet : ℕ → ℕ}
    (h : RingInv memSize s pos pending) (hlook : s.consumer = .looked r w cell)
    (hplan : Venus.readPlan memSize r w (s.ring cell) = .copy c) :
    RingInv memSize { s with consumer := .copying c packet [] } pos pending := by
  obtain ⟨pkt, rest, hpend, hc⟩ := h.readPlan hlook
  rw [hplan] at hc
  refine
    { h with
      looked := fun _ _ _ hl => by cases hl
      copying := fun c' packet' copied hcopy => ?_ }
  cases hcopy
  exact ⟨pkt, rest, hpend, ReadPlan.copy.inj hc, fun i hi => by cases hi⟩

theorem RingInv.readWord {c : Copy} {packet : ℕ → ℕ} {copied : List ℕ} {i : ℕ}
    (h : RingInv memSize s pos pending) (hm : memSize < u32Size)
    (hcopy : s.consumer = .copying c packet copied) (hi : i < c.size) :
    RingInv memSize
      { s with
        consumer := .copying c (Function.update packet i (s.ring (c.cell i))) (i :: copied) }
      pos pending := by
  obtain ⟨pkt, rest, hpend, hc, hbuf⟩ := h.copying c packet copied hcopy
  obtain ⟨pkt', rest', hpend', -, hlt, hwords⟩ := h.head (hpend ▸ List.cons_ne_nil _ _)
  obtain ⟨rfl, rfl⟩ := List.cons.inj (hpend.symm.trans hpend')
  obtain ⟨hsize, -, hcells⟩ := splitCopy_spec pkt.length hm h.readIdx_lt (by omega)
  rw [← hc] at hsize hcells
  refine
    { h with
      looked := fun _ _ _ hl => by cases hl
      copying := fun c' packet' copied' hcopy' => ?_ }
  cases hcopy'
  refine ⟨pkt, rest, hpend, hc, fun j hj hjl => ?_⟩
  by_cases hji : j = i
  · subst hji
    rw [Function.update_self, hcells j hjl, h.readIdx, wrapIndex_eq_mod (by omega), hwords j hjl]
  · rw [Function.update_of_ne hji]
    exact hbuf j ((List.mem_cons.1 hj).resolve_left hji) hjl

theorem RingInv.readPublish {c : Copy} {packet : ℕ → ℕ} {copied : List ℕ}
    (h : RingInv memSize s pos pending) (hm : memSize < u32Size)
    (hcopy : s.consumer = .copying c packet copied) (hall : ∀ i < c.size, i ∈ copied) :
    ∃ pkt rest, pending = pkt :: rest ∧ RingInv memSize
      { s with
        queue := (Venus.readPublish s.queue c.newIdx).1, consumer := .idle,
        read := s.read ++ [packetWords packet c.size] } (pos + pkt.length) rest := by
  obtain ⟨pkt, rest, hpend, hc, hbuf⟩ := h.copying c packet copied hcopy
  subst hpend
  have hlt := h.holds.lt
  rw [List.flatten_cons, List.length_append] at hlt
  obtain ⟨hsize, hnew, -⟩ := splitCopy_spec pkt.length hm h.readIdx_lt (by omega)
  rw [← hc] at hsize hnew
  have hwords : packetWords packet c.size = pkt := by
    rw [hsize]
    refine List.ext_getElem (by simp [packetWords]) fun i hi hi' => ?_
    simp only [packetWords, List.getElem_map, List.getElem_range]
    rw [hbuf i (hall i (hsize ▸ hi')) hi', List.getD_eq_getElem _ 0 hi']
  have hpos : pos + (pkt :: rest).flatten.length = pos + pkt.length + rest.flatten.length := by
    simp [Nat.add_assoc]
  refine ⟨pkt, rest, rfl,
    { packets := fun q hq => h.packets q (List.mem_cons_of_mem _ hq)
      log := ?_, readIdx := ?_, writeIdx := ?_, holds := ?_
      producer := fun pkt' c' copied' hc' => ?_
      looked := fun _ _ _ hl => by cases hl
      copying := fun _ _ _ hc' => by cases hc' }⟩
  · simp only [h.log, hwords, List.append_assoc, List.singleton_append]
  · simp only [Venus.readPublish]
    rw [hnew, h.readIdx, wrapIndex_eq_mod (by omega)]
  · simp only [Venus.readPublish]
    rw [h.writeIdx, hpos]
  · have hh := h.holds
    rw [List.flatten_cons] at hh
    exact hh.drop
  · obtain ⟨hp, hroom, hcc, hdone⟩ := h.producer pkt' c' copied' hc'
    rw [hpos] at hdone
    rw [List.flatten_cons, List.length_append] at hroom
    exact ⟨hp, by omega, hcc, hdone⟩

/-! ## Runs -/

/-- Every access keeps the invariant. -/
theorem RingInv.step (h : RingInv memSize s pos pending) (hm : memSize < u32Size)
    (hst : Step memSize s s') : ∃ pos' pending', RingInv memSize s' pos' pending' := by
  cases hst with
  | writeRefuse _ hrefused =>
    obtain ⟨-, pkt, queue, e, -, hl, rfl⟩ := hrefused
    have hidx := writeLook_idx memSize s.queue (pkt.getD 0 0)
    rw [hl] at hidx
    exact ⟨pos, pending, h.setQueue hidx.1 hidx.2⟩
  | writeLook pkt queue c hp _ hl => exact ⟨pos, pending, h.writeLook hm hp hl⟩
  | writeWord pkt c copied i hcopy hi => exact ⟨pos, pending, h.writeWord hm hcopy hi⟩
  | writePublish pkt c copied hcopy hall => exact ⟨pos, _, h.writePublish hm hcopy hall⟩
  | readRefuse queue e _ hl =>
    have hidx := readLook_idx memSize s.queue
    rw [hl] at hidx
    exact ⟨pos, pending, h.setQueue hidx.1 hidx.2⟩
  | readLook queue cell _ hl => exact ⟨pos, pending, h.readLook hm hl⟩
  | readZero r w cell hlook hplan =>
    obtain ⟨pkt, rest, -, hc⟩ := h.readPlan hlook
    rw [hplan] at hc
    cases hc
  | readDrop r w cell newIdx hlook hplan =>
    obtain ⟨pkt, rest, -, hc⟩ := h.readPlan hlook
    rw [hplan] at hc
    cases hc
  | readSize r w cell c packet hlook hplan => exact ⟨pos, pending, h.readSize hlook hplan⟩
  | readWord c packet copied i hcopy hi => exact ⟨pos, pending, h.readWord hm hcopy hi⟩
  | readPublish c packet copied hcopy hall =>
    obtain ⟨pkt, rest, -, h'⟩ := h.readPublish hm hcopy hall
    exact ⟨_, rest, h'⟩

theorem Reachable.ringInv (hs : Reachable memSize s) (h4 : 4 ≤ memSize) (hm : memSize < u32Size) :
    ∃ pos pending, RingInv memSize s pos pending := by
  obtain ⟨type, ring, hrun⟩ := hs
  induction hrun with
  | refl => exact ⟨0, [], ringInv_init h4 type ring⟩
  | tail _ hst ih =>
    obtain ⟨pos, pending, h⟩ := ih
    exact h.step hm hst

end

/-- **The ring is a queue of packets.**  In every state a run reaches, the packets
    read are a prefix of the packets written, and what is left is what the ring
    holds, fewer words than it has; both indices lie in the ring, and are equal
    exactly when everything written has been read.  A refused write changes
    neither the ring nor the indices. -/
theorem queue_fifo {memSize : ℕ} (h4 : 4 ≤ memSize) (hm : memSize < u32Size) {s : RingState}
    (hs : Reachable memSize s) :
    (∃ pending, s.written = s.read ++ pending ∧ pending.flatten.length < shr2 memSize ∧
      s.queue.qhdrWriteIdx =
        (s.queue.qhdrReadIdx + pending.flatten.length) % shr2 memSize) ∧
    s.queue.qhdrReadIdx < shr2 memSize ∧ s.queue.qhdrWriteIdx < shr2 memSize ∧
    (s.queue.qhdrReadIdx = s.queue.qhdrWriteIdx ↔ s.read = s.written) ∧
    ∀ s', WriteRefused memSize s s' → s'.ring = s.ring ∧
      s'.queue.qhdrReadIdx = s.queue.qhdrReadIdx ∧
      s'.queue.qhdrWriteIdx = s.queue.qhdrWriteIdx := by
  obtain ⟨pos, pending, h⟩ := hs.ringInv h4 hm
  refine ⟨⟨pending, h.log, h.holds.lt, ?_⟩, h.readIdx_lt, h.writeIdx_lt, ?_, ?_⟩
  · rw [h.writeIdx, h.readIdx, Nat.mod_add_mod]
  · rw [h.empty_iff, h.log]
    simp
  · rintro s' ⟨-, pkt, queue, e, -, hl, rfl⟩
    have hidx := writeLook_idx memSize s.queue (pkt.getD 0 0)
    rw [hl] at hidx
    exact ⟨rfl, hidx⟩

/-- A write of the packet `[8, 7]` to a fresh message ring. -/
theorem queue_fifo_onePacket : ∃ s : RingState, s.written = [[8, 7]] ∧ s.read = [] ∧
    s.queue.qhdrReadIdx ≠ s.queue.qhdrWriteIdx := by
  have hp : IsPacket [8, 7] := ⟨by simp, rfl, by decide⟩
  have h1 : Step queueSize (.init 1 fun _ => 0) _ := .writeLook [8, 7] _ _ hp rfl rfl
  have h2 := Relation.ReflTransGen.single h1
  have h3 := h2.tail (.writeWord _ _ _ 0 rfl (by decide))
  have h4 := h3.tail (.writeWord _ _ _ 1 rfl (by decide))
  have h5 := h4.tail (.writePublish _ _ _ rfl (by decide))
  have hf := queue_fifo (by decide) (by decide) ⟨1, _, h5⟩
  exact ⟨_, rfl, rfl, fun h => absurd (hf.2.2.2.1.1 h) (by decide)⟩

end Sm8850.Venus
