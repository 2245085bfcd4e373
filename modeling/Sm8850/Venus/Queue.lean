/-
  The host firmware interface rings of the video driver
  (`venus_hfi_queue.c`): `__write_queue` and `__read_queue`.

  * A ring is `mem_size >> 2` words of memory and the two indices of its
    header.  All header fields and the intermediate `u32` values are natural
    numbers below `2 ^ 32`, with `sub32`, `add32` and `shl2` the C operations.
  * `writeLook` and `readLook` are the parts that look at the header and decide;
    they return the `Copy` the two `memcpy` calls then make: `size` words,
    the first `first` of them at word `start` of the ring and the rest at its
    beginning.
  * Both functions test their pointers first; the ring and the packet are there,
    so those tests pass.
-/
import Mathlib.Data.Nat.Notation

namespace Sm8850.Venus

/-! ## Machine arithmetic -/

/-- The number of values of a `u32`. -/
abbrev u32Size : ℕ := 4294967296

/-- `a + b` in `u32` -/
def add32 (a b : ℕ) : ℕ := (a + b) % u32Size

/-- `a - b` in `u32` -/
def sub32 (a b : ℕ) : ℕ := (a + u32Size - b) % u32Size

/-- `a << 2` in `u32` -/
def shl2 (a : ℕ) : ℕ := a * 4 % u32Size

/-- `a >> 2` -/
def shr2 (a : ℕ) : ℕ := a / 4

theorem add32_of_lt {a b : ℕ} (h : a + b < u32Size) : add32 a b = a + b := Nat.mod_eq_of_lt h

theorem sub32_of_le {a b : ℕ} (h : b ≤ a) (ha : a < u32Size) : sub32 a b = a - b := by
  rw [sub32, Nat.mod_eq_sub_mod (by omega), Nat.mod_eq_of_lt (by omega)]
  omega

theorem shl2_of_lt {a : ℕ} (h : a * 4 < u32Size) : shl2 a = a * 4 := Nat.mod_eq_of_lt h

/-! ## The ring -/

/-- `VIDC_IFACEQ_VAR_HUGE_PKT_SIZE` -/
def hugePktSize : ℕ := 1024 * 4

/-- `VIDC_IFACEQ_QUEUE_SIZE`: the `mem_size` of every ring. -/
def queueSize : ℕ := 1024 * 50 * 16

/-- `HFI_Q_ID_CTRL_TO_HOST_MSG_Q` -/
def ctrlToHostMsgQ : ℕ := 1

/-- The fields of `struct hfi_queue_header` that the two functions use. -/
structure HfiQueueHeader where
  qhdrType : ℕ
  qhdrRxReq : ℕ
  qhdrTxReq : ℕ
  qhdrReadIdx : ℕ
  qhdrWriteIdx : ℕ

/-- `__set_queue_hdr_defaults`, with the type the ring is given. -/
def setQueueHdrDefaults (type : ℕ) : HfiQueueHeader := ⟨type, 1, 0, 0, 0⟩

/-- The errors of the two functions. -/
inductive QueueErr where
  | enodata | enotempty

/-- The two `memcpy` calls of a packet: `size` words, the first `first` of them
    from word `start` of the ring on and the rest from its beginning, and the
    index to publish afterwards. -/
structure Copy where
  size : ℕ
  start : ℕ
  first : ℕ
  newIdx : ℕ

/-- The word of the ring that word `i` of the packet is copied to or from. -/
def Copy.cell (c : Copy) (i : ℕ) : ℕ := if i < c.first then c.start + i else i - c.first

/-- The split of a copy of `size` words at index `idx` of a ring of `n` words. -/
def splitCopy (n idx size : ℕ) : Copy :=
  let newIdx := add32 idx size
  if newIdx < n then ⟨size, shr2 (shl2 idx), size, newIdx⟩
  else
    let newIdx := sub32 newIdx n
    ⟨size, shr2 (shl2 idx), sub32 size newIdx, newIdx⟩

/-- `__write_queue` up to its first `memcpy`, for a packet with the given size
    word: the header it leaves and the copy to make. -/
def writeLook (memSize : ℕ) (queue : HfiQueueHeader) (sizeWord : ℕ) :
    HfiQueueHeader × Except QueueErr Copy :=
  let size := shr2 sizeWord
  if size = 0 ∨ shr2 memSize < size then (queue, .error .enodata)
  else
    let readIdx := queue.qhdrReadIdx
    let writeIdx := queue.qhdrWriteIdx
    let emptySpace :=
      if readIdx ≤ writeIdx then sub32 (shr2 memSize) (sub32 writeIdx readIdx)
      else sub32 readIdx writeIdx
    if emptySpace ≤ size then ({ queue with qhdrTxReq := 1 }, .error .enotempty)
    else
      let queue := { queue with qhdrTxReq := 0 }
      -- the pointer is checked, not the index
      if memSize < shl2 writeIdx then (queue, .error .enodata)
      else (queue, .ok (splitCopy (shr2 memSize) writeIdx size))

/-- `receive_request` of a ring -/
def receiveRequest (queue : HfiQueueHeader) : ℕ :=
  if queue.qhdrType &&& ctrlToHostMsgQ = 0 then 0 else 1

/-- `__read_queue` up to the read of the size word: the header it leaves, and
    the word of the ring the size is read from. -/
def readLook (memSize : ℕ) (queue : HfiQueueHeader) : HfiQueueHeader × Except QueueErr ℕ :=
  if queue.qhdrReadIdx = queue.qhdrWriteIdx then
    ({ queue with qhdrRxReq := receiveRequest queue }, .error .enodata)
  else if memSize - 4 < shl2 queue.qhdrReadIdx then (queue, .error .enodata)
  else (queue, .ok (shr2 (shl2 queue.qhdrReadIdx)))

/-- What `__read_queue` does with the size word it read: nothing for a zero
    size, the copy of a packet, or the index that drops everything up to the
    write index it saw. -/
inductive ReadPlan where
  | zeroSize
  | copy (c : Copy)
  | drop (newIdx : ℕ)

/-- `__read_queue` between the size word and its first `memcpy`, for the indices
    it read before. -/
def readPlan (memSize readIdx writeIdx sizeWord : ℕ) : ReadPlan :=
  let size := shr2 sizeWord
  if size = 0 then .zeroSize
  else if shl2 size ≤ hugePktSize ∧ readIdx ≤ shr2 memSize then
    .copy (splitCopy (shr2 memSize) readIdx size)
  else .drop writeIdx

/-- The end of `__write_queue`: publish the packet. -/
def writePublish (queue : HfiQueueHeader) (newIdx : ℕ) : HfiQueueHeader :=
  { queue with qhdrWriteIdx := newIdx }

/-- The end of `__read_queue`: give the room back, and answer `tx_req`. -/
def readPublish (queue : HfiQueueHeader) (newIdx : ℕ) : HfiQueueHeader × ℕ :=
  ({ queue with qhdrRxReq := receiveRequest queue, qhdrReadIdx := newIdx },
    if queue.qhdrTxReq = 1 then 1 else 0)

end Sm8850.Venus
