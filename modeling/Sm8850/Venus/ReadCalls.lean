/-
  The two read calls of the message and the debug ring (`venus_hfi_queue_msg_read`,
  `venus_hfi_queue_dbg_read`), over one whole call of `__read_queue`.

  * `readQueue`, `ifaceRead`: a call on the ring, and what the caller is answered.
  * `Consumes`: an empty ring stays, a packet is delivered, a malformed head is skipped.
  * `Serves`: the states in which a call does so.
  * **`reads_consume_iff`**: there, and nowhere else.
-/
import Sm8850.Venus.QueueRuns

namespace Sm8850.Venus

open Lib.Ring

/-! ## The calls -/

/-- `enum msm_vidc_core_state` -/
inductive CoreState where
  | deinit | initWait | init
  deriving DecidableEq

/-- `core_in_valid_state` -/
def coreInValidState (state : CoreState) : Bool := state ≠ .deinit

/-- The errors of the read calls. -/
inductive ReadErr where
  | einval | enodata

/-- A ring of `core->iface_queues`: whether its memory is mapped
    (`q_array.align_virtual_addr`), its header and its words. -/
structure IfaceQueue where
  mapped : Bool
  queue : HfiQueueHeader
  ring : ℕ → ℕ

/-- What a read leaves: the return code, the header, the words it has copied and
    `tx_req_is_set`. -/
structure ReadResult where
  rc : Except ReadErr Unit
  queue : HfiQueueHeader
  packet : List ℕ
  txReqIsSet : ℕ

/-- `__read_queue`; each of its errors is `-ENODATA`. -/
def readQueue (memSize : ℕ) (queue : HfiQueueHeader) (ring : ℕ → ℕ) : ReadResult :=
  match readLook memSize queue with
  | (queue, .error _) => ⟨.error .enodata, queue, [], 0⟩
  | (queue, .ok cell) =>
    match readPlan memSize queue.qhdrReadIdx queue.qhdrWriteIdx (ring cell) with
    | .zeroSize => ⟨.error .enodata, queue, [], 0⟩
    | .copy c =>
      let (queue, txReqIsSet) := readPublish queue c.newIdx
      ⟨.ok (), queue, (List.range c.size).map fun i => ring (c.cell i), txReqIsSet⟩
    | .drop newIdx =>
      let (queue, txReqIsSet) := readPublish queue newIdx
      ⟨.error .enodata, queue, [], txReqIsSet⟩

/-- What both calls do with their ring. -/
def ifaceRead (memSize : ℕ) (q : IfaceQueue) : ReadResult :=
  if ! q.mapped then ⟨.error .enodata, q.queue, [], 0⟩
  else
    let r := readQueue memSize q.queue q.ring
    match r.rc with
    -- the packet is in the caller's buffer, and its words are given back
    | .ok () => if r.txReqIsSet ≠ 0 then { r with rc := .error .einval } else r
    | .error _ => { r with rc := .error .enodata }

/-- `venus_hfi_queue_msg_read` -/
def venusHfiQueueMsgRead (memSize : ℕ) (state : CoreState) (q : IfaceQueue) : ReadResult :=
  if ! coreInValidState state then ⟨.error .einval, q.queue, [], 0⟩ else ifaceRead memSize q

/-- `venus_hfi_queue_dbg_read` -/
def venusHfiQueueDbgRead (memSize : ℕ) (q : IfaceQueue) : ReadResult := ifaceRead memSize q

/-! ## What a call is for -/

section
variable (memSize : ℕ) (q : IfaceQueue)

/-- The ring holds nothing. -/
def IfaceQueue.Empty : Prop := q.queue.qhdrReadIdx = q.queue.qhdrWriteIdx

/-- The number of words of the packet at the read index. -/
def IfaceQueue.headSize : ℕ := shr2 (q.ring q.queue.qhdrReadIdx)

/-- The read index is in the ring, and the packet there has a size that packets have. -/
def IfaceQueue.HeadOk : Prop :=
  q.queue.qhdrReadIdx < shr2 memSize ∧ q.headSize ≠ 0 ∧ q.headSize * 4 ≤ hugePktSize

/-- The words of the packet at the read index, around the end of the ring. -/
def IfaceQueue.headPacket : List ℕ :=
  (List.range q.headSize).map fun i => q.ring ((q.queue.qhdrReadIdx + i) % shr2 memSize)

/-- **An empty ring stays as it is; otherwise a packet is delivered and taken off the
    ring, and a malformed head is skipped.** -/
def Consumes (r : ReadResult) : Prop :=
  q.Empty ∧ r.queue.qhdrReadIdx = q.queue.qhdrReadIdx ∨
  ¬ q.Empty ∧ q.HeadOk memSize ∧ r.rc = .ok () ∧ r.packet = q.headPacket memSize ∧
    r.queue.qhdrReadIdx = (q.queue.qhdrReadIdx + q.headSize) % shr2 memSize ∨
  ¬ q.Empty ∧ ¬ q.HeadOk memSize ∧ r.queue.qhdrReadIdx ≠ q.queue.qhdrReadIdx

/-- The shifted read index names a word of the ring, and that is no zero size. -/
def IfaceQueue.HeadSeen : Prop :=
  shl2 q.queue.qhdrReadIdx ≤ memSize - 4 ∧ shr2 (q.ring (shr2 (shl2 q.queue.qhdrReadIdx))) ≠ 0

/-- The ring is empty, or the call reaches it (`go`), sees its head, and the firmware has
    not asked for room (`qhdr_tx_req`) in front of a packet. -/
def Serves (go : Bool) : Prop :=
  q.Empty ∨ go = true ∧ q.mapped = true ∧ q.HeadSeen memSize ∧
    (q.HeadOk memSize → q.queue.qhdrTxReq ≠ 1)

end

/-! ## One call of `__read_queue` -/

section
variable {memSize : ℕ} {q : IfaceQueue}

theorem readQueue_empty (h : q.Empty) : (readQueue memSize q.queue q.ring).rc = .error .enodata ∧
    (readQueue memSize q.queue q.ring).queue.qhdrReadIdx = q.queue.qhdrReadIdx := by
  simp only [readQueue, readLook, if_pos (show q.queue.qhdrReadIdx = q.queue.qhdrWriteIdx from h),
    and_self]

/-- A head that is not seen blocks the ring. -/
theorem readQueue_blocked (h : ¬ q.Empty) (hs : ¬ q.HeadSeen memSize) :
    (readQueue memSize q.queue q.ring).rc = .error .enodata ∧
      (readQueue memSize q.queue q.ring).queue.qhdrReadIdx = q.queue.qhdrReadIdx := by
  have hne : ¬ q.queue.qhdrReadIdx = q.queue.qhdrWriteIdx := h
  unfold IfaceQueue.HeadSeen at hs
  by_cases hptr : memSize - 4 < shl2 q.queue.qhdrReadIdx
  · simp only [readQueue, readLook, if_neg hne, if_pos hptr, and_self]
  · have hzero : shr2 (q.ring (shr2 (shl2 q.queue.qhdrReadIdx))) = 0 := by
      by_contra hz
      exact hs ⟨not_lt.1 hptr, hz⟩
    simp only [readQueue, readLook, if_neg hne, if_neg hptr, readPlan, hzero, if_true, and_self]

variable (hm : memSize < 2 ^ 31) (hhuge : hugePktSize < shr2 memSize * 4)

include hm hhuge

/-- A packet is copied around the end of the ring and taken off. -/
theorem readQueue_packet (h : ¬ q.Empty) (hok : q.HeadOk memSize) :
    (readQueue memSize q.queue q.ring).rc = .ok () ∧
      (readQueue memSize q.queue q.ring).packet = q.headPacket memSize ∧
      (readQueue memSize q.queue q.ring).queue.qhdrReadIdx =
        (q.queue.qhdrReadIdx + q.headSize) % shr2 memSize ∧
      (readQueue memSize q.queue q.ring).txReqIsSet =
        if q.queue.qhdrTxReq = 1 then 1 else 0 := by
  obtain ⟨hlt, hsize, hle⟩ := hok
  have hne : ¬ q.queue.qhdrReadIdx = q.queue.qhdrWriteIdx := h
  have hm32 : memSize < u32Size := hm.trans (by decide)
  have hmul := shr2_mul_le memSize
  have hidx : shl2 q.queue.qhdrReadIdx = q.queue.qhdrReadIdx * 4 := shl2_of_lt (by omega)
  have hptr : ¬ memSize - 4 < shl2 q.queue.qhdrReadIdx := by
    rw [hidx]
    omega
  have hwords : q.headSize < shr2 memSize := by omega
  have hshl : shl2 q.headSize = q.headSize * 4 := shl2_of_lt (by omega)
  obtain ⟨hcsize, hcnew, hcell⟩ := splitCopy_spec q.headSize hm32 hlt hwords
  have hplan : readPlan memSize q.queue.qhdrReadIdx q.queue.qhdrWriteIdx
      (q.ring q.queue.qhdrReadIdx) =
      .copy (splitCopy (shr2 memSize) q.queue.qhdrReadIdx q.headSize) := by
    unfold IfaceQueue.headSize at hsize hle hshl ⊢
    rw [readPlan, if_neg hsize, if_pos ⟨hshl.trans_le hle, hlt.le⟩]
  have hwrap : ∀ i < shr2 memSize, wrapIndex (shr2 memSize) q.queue.qhdrReadIdx i =
      (q.queue.qhdrReadIdx + i) % shr2 memSize := fun i hi => by
    rw [← wrapIndex_eq_mod hi, Nat.mod_eq_of_lt hlt]
  simp only [readQueue, readLook, if_neg hne, if_neg hptr, shr2_shl2 hm32 hlt, hplan, readPublish]
  refine ⟨trivial, ?_, hcnew.trans (hwrap _ hwords), trivial⟩
  rw [IfaceQueue.headPacket, hcsize]
  refine List.map_congr_left fun i hi => ?_
  have hi := List.mem_range.1 hi
  rw [hcell i hi, hwrap i (hi.trans hwords)]

/-- A malformed head that is seen takes everything off the ring that the call has seen. -/
theorem readQueue_malformed (h32 : ∀ i, q.ring i < u32Size) (h : ¬ q.Empty)
    (hs : q.HeadSeen memSize) (hbad : ¬ q.HeadOk memSize) :
    (readQueue memSize q.queue q.ring).rc = .error .enodata ∧
      (readQueue memSize q.queue q.ring).queue.qhdrReadIdx = q.queue.qhdrWriteIdx := by
  have hne : ¬ q.queue.qhdrReadIdx = q.queue.qhdrWriteIdx := h
  obtain ⟨hptr, hsize⟩ := hs
  have hm32 : memSize < u32Size := hm.trans (by decide)
  have hword := h32 (shr2 (shl2 q.queue.qhdrReadIdx))
  have hdrop : ¬ (shl2 (shr2 (q.ring (shr2 (shl2 q.queue.qhdrReadIdx)))) ≤ hugePktSize ∧
      q.queue.qhdrReadIdx ≤ shr2 memSize) := by
    rintro ⟨hle, hidx⟩
    have hmul := shr2_mul_le memSize
    rw [shl2_of_lt (a := q.queue.qhdrReadIdx) (by omega)] at hptr
    have hlt : q.queue.qhdrReadIdx < shr2 memSize := by
      unfold shr2 at hidx hhuge ⊢
      omega
    rw [shr2_shl2 hm32 hlt] at hle hsize hword
    have hback : shr2 (q.ring q.queue.qhdrReadIdx) * 4 ≤ q.ring q.queue.qhdrReadIdx :=
      Nat.div_mul_le_self ..
    rw [shl2_of_lt (hback.trans_lt hword)] at hle
    exact hbad ⟨hlt, hsize, hle⟩
  simp only [readQueue, readLook, if_neg hne, if_neg (not_lt.2 hptr), readPlan, if_neg hsize,
    if_neg hdrop, readPublish, and_self]

/-! ## The calls -/

omit hm hhuge in
theorem ifaceRead_idx (hmap : q.mapped = true) : (ifaceRead memSize q).queue.qhdrReadIdx =
    (readQueue memSize q.queue q.ring).queue.qhdrReadIdx := by
  simp only [ifaceRead, hmap, Bool.not_true, Bool.false_eq_true, if_false]
  split
  · split
    · rfl
    · rfl
  · rfl

omit hm hhuge in
theorem ifaceRead_error (hmap : q.mapped = true)
    (h : (readQueue memSize q.queue q.ring).rc = .error .enodata) :
    (ifaceRead memSize q).rc = .error .enodata := by
  simp only [ifaceRead, hmap, Bool.not_true, Bool.false_eq_true, if_false, h]

omit hm hhuge in
/-- A call that leaves a ring which is not empty, and answers an error, consumes nothing. -/
theorem not_consumes {r : ReadResult} {e : ReadErr} (h : ¬ q.Empty) (hrc : r.rc = .error e)
    (hidx : r.queue.qhdrReadIdx = q.queue.qhdrReadIdx) : ¬ Consumes memSize q r := by
  rintro (⟨hempty, -⟩ | ⟨-, -, hok, -⟩ | ⟨-, -, hne⟩)
  · exact h hempty
  · rw [hrc] at hok
    cases hok
  · exact hne hidx

/-- A call consumes what the ring holds in the states that serve, and in no other. -/
theorem ifaceRead_iff (h32 : ∀ i, q.ring i < u32Size) :
    Consumes memSize q (ifaceRead memSize q) ↔ Serves memSize q true := by
  by_cases hmap : q.mapped = true
  swap
  · have hidle : ifaceRead memSize q = ⟨.error .enodata, q.queue, [], 0⟩ := by
      rw [ifaceRead, Bool.eq_false_iff.2 hmap]
      rfl
    rw [hidle]
    by_cases hempty : q.Empty
    · exact iff_of_true (Or.inl ⟨hempty, rfl⟩) (Or.inl hempty)
    · refine iff_of_false (not_consumes hempty rfl rfl) ?_
      rintro (h | ⟨-, h, -⟩)
      · exact hempty h
      · exact hmap h
  have hidx := @ifaceRead_idx memSize q hmap
  by_cases hempty : q.Empty
  · exact iff_of_true (Or.inl ⟨hempty, hidx.trans (readQueue_empty hempty).2⟩) (Or.inl hempty)
  by_cases hseen : q.HeadSeen memSize
  swap
  · obtain ⟨hrc, hkept⟩ := readQueue_blocked hempty hseen
    refine iff_of_false (not_consumes hempty (ifaceRead_error hmap hrc) (hidx.trans hkept)) ?_
    rintro (h | ⟨-, -, h, -⟩)
    · exact hempty h
    · exact hseen h
  by_cases hok : q.HeadOk memSize
  · obtain ⟨hrc, hpkt, hnew, htx⟩ := readQueue_packet hm hhuge hempty hok
    have hread : ifaceRead memSize q = if q.queue.qhdrTxReq = 1 then
        { readQueue memSize q.queue q.ring with rc := .error .einval }
        else readQueue memSize q.queue q.ring := by
      simp only [ifaceRead, hmap, Bool.not_true, Bool.false_eq_true, if_false, hrc, htx]
      split_ifs <;> first | rfl | contradiction
    constructor
    · rintro (⟨h, -⟩ | ⟨-, -, hdone, -⟩ | ⟨-, hbad, -⟩)
      · exact absurd h hempty
      · refine Or.inr ⟨rfl, hmap, hseen, fun _ htx1 => ?_⟩
        rw [hread, if_pos htx1] at hdone
        cases hdone
      · exact absurd hok hbad
    · rintro (h | ⟨-, -, -, htx1⟩)
      · exact absurd h hempty
      · rw [hread, if_neg (htx1 hok)]
        exact Or.inr (Or.inl ⟨hempty, hok, hrc, hpkt, hnew⟩)
  · obtain ⟨-, hnew⟩ := readQueue_malformed hm hhuge h32 hempty hseen hok
    refine iff_of_true (Or.inr (Or.inr ⟨hempty, hok, ?_⟩))
      (Or.inr ⟨rfl, hmap, hseen, fun h => absurd h hok⟩)
    rw [hidx, hnew]
    exact fun h => hempty h.symm

/-- **Each read call consumes what its ring holds exactly in the states that serve.** -/
theorem reads_consume_iff (h32 : ∀ i, q.ring i < u32Size) (state : CoreState) :
    (Consumes memSize q (venusHfiQueueMsgRead memSize state q) ↔
      Serves memSize q (coreInValidState state)) ∧
    (Consumes memSize q (venusHfiQueueDbgRead memSize q) ↔ Serves memSize q true) := by
  have hread := ifaceRead_iff hm hhuge h32
  refine ⟨?_, hread⟩
  unfold venusHfiQueueMsgRead
  cases hstate : coreInValidState state
  · have hidle : (if (!false) = true then ⟨.error .einval, q.queue, [], 0⟩
        else ifaceRead memSize q) = (⟨.error .einval, q.queue, [], 0⟩ : ReadResult) := rfl
    rw [hidle]
    by_cases hempty : q.Empty
    · exact iff_of_true (Or.inl ⟨hempty, rfl⟩) (Or.inl hempty)
    · refine iff_of_false (not_consumes hempty rfl rfl) ?_
      rintro (h | ⟨h, -⟩)
      · exact hempty h
      · cases h
  · exact hread

end

/-- A message of two words, and the ring as the firmware leaves it. -/
def oneMessage : IfaceQueue where
  mapped := true
  queue := ⟨ctrlToHostMsgQ, 1, 0, 0, 2⟩
  ring i := if i = 0 then 8 else if i = 1 then 7 else 0

/-- The message is delivered. -/
theorem reads_consume_iff_oneMessage :
    Consumes queueSize oneMessage (venusHfiQueueMsgRead queueSize .init oneMessage) ∧
      (venusHfiQueueMsgRead queueSize .init oneMessage).packet = [8, 7] := by
  have hserves : Serves queueSize oneMessage (coreInValidState .init) :=
    Or.inr ⟨rfl, rfl, ⟨by decide, by decide⟩, fun _ => by decide⟩
  refine ⟨((reads_consume_iff (by decide) (by decide) (fun i => ?_) .init).1).2 hserves, by decide⟩
  unfold oneMessage
  dsimp only
  split_ifs <;> decide

/-- The same message with `qhdr_tx_req` set is taken off the ring and lost, and one with
    a zero size word is never passed. -/
theorem reads_lose :
    ¬ Consumes queueSize { oneMessage with queue := ⟨ctrlToHostMsgQ, 1, 1, 0, 2⟩ }
        (venusHfiQueueMsgRead queueSize .init
          { oneMessage with queue := ⟨ctrlToHostMsgQ, 1, 1, 0, 2⟩ }) ∧
      ¬ Consumes queueSize { oneMessage with ring := fun _ => 0 }
        (venusHfiQueueMsgRead queueSize .init { oneMessage with ring := fun _ => 0 }) := by
  constructor
  · rintro (⟨h, -⟩ | ⟨-, -, h, -⟩ | ⟨-, h, -⟩)
    · exact absurd h (by decide : ¬ (0 : ℕ) = 2)
    · cases h
    · exact h ⟨by decide, by decide, by decide⟩
  · exact not_consumes (by decide : ¬ (0 : ℕ) = 2) rfl rfl

end Sm8850.Venus
