/-
  The integer parsers of `qdf_types.c`.

  * A string is the list of its bytes up to the NUL; what is read at its end is the NUL.
  * `qdfIntParseLazy`: white space, a sign, the radix, the digits; the number is kept in 64 bits,
    and what follows is left to the caller.
  * `qdfIntParse`: nothing but white space follows.
  * `IntType.parse`: the parsers for the integer types, from these.
  * `arrayLoop`: the loop of the array parsers, which they have in common but for the range check.
-/
import Mathlib.Data.Int.Notation
import Mathlib.Tactic.Common

namespace Sm8850.Qdf

/-! ## Characters -/

/-- `QDF_STATUS`, as far as the parsers return it. -/
inductive QdfStatus
  | success | eFailure | eRange
  deriving DecidableEq

/-- The bytes of a text. -/
def bytes (cs : List Char) : List UInt8 := cs.map Char.toUInt8

/-- The character a string begins with. -/
def first (s : List UInt8) : UInt8 := s.headD 0

/-- `qdf_is_space`, with the table of the kernel. -/
def isSpace (c : UInt8) : Bool := c = 32 || (9 ≤ c && c ≤ 13) || c = 160

/-- `qdf_str_left_trim`. -/
def qdfStrLeftTrim (s : List UInt8) : List UInt8 := s.dropWhile isSpace

/-- `qdf_consume_char`. -/
def qdfConsumeChar (s : List UInt8) (c : Char) : Option (List UInt8) :=
  if first s = c.toUInt8 then some s.tail else none

/-- The value of a hexadecimal digit. -/
def hexDigit (c : UInt8) : Option ℕ :=
  if '0'.toUInt8 ≤ c ∧ c ≤ '9'.toUInt8 then some (c.toNat - '0'.toNat)
  else if 'a'.toUInt8 ≤ c ∧ c ≤ 'f'.toUInt8 then some (c.toNat - 'a'.toNat + 10)
  else if 'A'.toUInt8 ≤ c ∧ c ≤ 'F'.toUInt8 then some (c.toNat - 'A'.toNat + 10)
  else none

/-- `qdf_consume_radix`. -/
def qdfConsumeRadix (s : List UInt8) : Option (ℕ × List UInt8) :=
  if first s = '0'.toUInt8 then
    if first s.tail = 'b'.toUInt8 then some (2, s.drop 2)
    else if first s.tail = 'o'.toUInt8 then some (8, s.drop 2)
    else if first s.tail = 'x'.toUInt8 then some (16, s.drop 2)
    else some (10, s)
  else if '0'.toUInt8 ≤ first s ∧ first s ≤ '9'.toUInt8 then some (10, s)
  else none

/-! ## One integer -/

/-- The loop over the digits, which `qdf_consume_hex` takes one by one. -/
def digitLoop (radix : ℕ) : List UInt8 → BitVec 64 → Except QdfStatus (BitVec 64 × List UInt8)
  | [], value => .ok (value, [])
  | c :: rest, value =>
    match hexDigit c with
    | none => .ok (value, c :: rest)
    | some digit =>
      if radix ≤ digit then .error .eFailure
      else
        let nextValue := value * BitVec.ofNat 64 radix + BitVec.ofNat 64 digit
        if nextValue < value then .error .eRange else digitLoop radix rest nextValue

/-- `__qdf_int_parse_lazy`: the number, whether there is a minus, and what follows. -/
def qdfIntParseLazy (s : List UInt8) : Except QdfStatus (BitVec 64 × Bool × List UInt8) :=
  let s := qdfStrLeftTrim s
  let (negate, s) := match qdfConsumeChar s '-' with
    | some s => (true, s)
    | none => (false, (qdfConsumeChar s '+').getD s)
  match qdfConsumeRadix s with
  | none => .error .eFailure
  | some (radix, s) => do
    let (value, s) ← digitLoop radix s 0
    return (value, negate, s)

/-- `qdf_int_parse`. -/
def qdfIntParse (s : List UInt8) : Except QdfStatus (BitVec 64 × Bool) := do
  let (value, negate, s) ← qdfIntParseLazy s
  if first (qdfStrLeftTrim s) ≠ 0 then throw .eFailure
  else return (value, negate)

/-! ## The integer types -/

/-- `qdf_int64_parse`. -/
def qdfInt64Parse (s : List UInt8) (out : BitVec 64) : QdfStatus × BitVec 64 :=
  match qdfIntParse s with
  | .error status => (status, out)
  | .ok (value, negate) =>
    if negate then
      let signedValue := -value
      if 0 < signedValue.toInt then (.eRange, out) else (.success, signedValue)
    else if value.toInt < 0 then (.eRange, out)
    else (.success, value)

/-- `qdf_uint64_parse`. -/
def qdfUint64Parse (s : List UInt8) (out : BitVec 64) : QdfStatus × BitVec 64 :=
  match qdfIntParse s with
  | .error status => (status, out)
  | .ok (value, negate) => if negate then (.eRange, out) else (.success, value)

/-- `qdf_int32_parse`. -/
def qdfInt32Parse (s : List UInt8) (out : BitVec 32) : QdfStatus × BitVec 32 :=
  let (status, value) := qdfInt64Parse s 0
  if status ≠ .success then (status, out)
  else if (value.setWidth 32).signExtend 64 ≠ value then (.eRange, out)
  else (.success, value.setWidth 32)

/-- A parser for a narrower unsigned type. -/
def qdfUintParse (w : ℕ) (s : List UInt8) (out : BitVec w) : QdfStatus × BitVec w :=
  let (status, value) := qdfUint64Parse s 0
  if status ≠ .success then (status, out)
  else if (value.setWidth w).setWidth 64 ≠ value then (.eRange, out)
  else (.success, value.setWidth w)

/-- `qdf_uint8_parse`. -/
def qdfUint8Parse := qdfUintParse 8

/-- `qdf_uint16_parse`. -/
def qdfUint16Parse := qdfUintParse 16

/-- `qdf_uint32_parse`. -/
def qdfUint32Parse := qdfUintParse 32

inductive IntType
  | int32 | int64 | uint8 | uint16 | uint32 | uint64

namespace IntType

def width : IntType → ℕ
  | int32 | uint32 => 32
  | int64 | uint64 => 64
  | uint8 => 8
  | uint16 => 16

def signed : IntType → Bool
  | int32 | int64 => true
  | uint8 | uint16 | uint32 | uint64 => false

/-- The parser for the type: it gets what the output held, and returns what it holds then. -/
def parse : (t : IntType) → List UInt8 → BitVec t.width → QdfStatus × BitVec t.width
  | int32 => qdfInt32Parse
  | int64 => qdfInt64Parse
  | uint8 => qdfUint8Parse
  | uint16 => qdfUint16Parse
  | uint32 => qdfUint32Parse
  | uint64 => qdfUint64Parse

end IntType

/-! ## Arrays -/

/-- What an array parser returns: the status, the elements it stored, and `out_size` if it
    stored that. -/
structure ArrayResult (w : ℕ) where
  status : QdfStatus
  stored : List (BitVec w)
  outSize : Option ℕ

/-- The loop of the array parsers, `left` being the number of elements for which there is still
    room; `elem` is the range check. -/
def arrayLoop {w : ℕ} (elem : BitVec 64 → Bool → Option (BitVec w)) :
    ℕ → List UInt8 → List (BitVec w) → ArrayResult w
  | 0, _, stored => ⟨.eFailure, stored, none⟩
  | left + 1, s, stored =>
    match qdfIntParseLazy s with
    | .error status => ⟨status, stored, none⟩
    | .ok (value, negate, s) =>
      match elem value negate with
      | none => ⟨.eRange, stored, none⟩
      | some x =>
        let s := qdfStrLeftTrim s
        if first s = ','.toUInt8 then arrayLoop elem left s.tail (stored ++ [x])
        else if first s = 0 then ⟨.success, stored ++ [x], some (stored.length + 1)⟩
        else ⟨.eFailure, stored, none⟩

/-- The check of `qdf_int32_array_parse`, and the number as it is stored. -/
def int32Elem (value : BitVec 64) (negate : Bool) : Option (BitVec 32) :=
  if negate then
    let signedValue := -value
    if 0 < signedValue.toInt then none else some (signedValue.setWidth 32)
  else if value.toInt < 0 then none
  else some (value.setWidth 32)

/-- The check of the other array parsers. -/
def uintElem (w : ℕ) (value : BitVec 64) (negate : Bool) : Option (BitVec w) :=
  if (value.setWidth w).setWidth 64 ≠ value ∨ negate then none else some (value.setWidth w)

/-- `qdf_int32_array_parse`. -/
def qdfInt32ArrayParse (s : List UInt8) (arraySize : ℕ) : ArrayResult 32 :=
  arrayLoop int32Elem arraySize s []

/-- `qdf_uint32_array_parse`. -/
def qdfUint32ArrayParse (s : List UInt8) (arraySize : ℕ) : ArrayResult 32 :=
  arrayLoop (uintElem 32) arraySize s []

/-- `qdf_uint16_array_parse`. -/
def qdfUint16ArrayParse (s : List UInt8) (arraySize : ℕ) : ArrayResult 16 :=
  arrayLoop (uintElem 16) arraySize s []

/-- `qdf_uint8_array_parse`. -/
def qdfUint8ArrayParse (s : List UInt8) (arraySize : ℕ) : ArrayResult 8 :=
  arrayLoop (uintElem 8) arraySize s []

end Sm8850.Qdf
