/-
  Pieces of a buffer, written and moved.

  * `put` writes a piece at an offset, if the buffer reaches as far.
  * `transfer` reads a piece of one buffer and then writes it to another, or to the same.
  * `put_append` and `slice_append` do so for buffers given in parts.
-/
import Sm8850.Lib.Bytes

namespace Sm8850.Lib.Bytes

variable {l l' a b c d : List UInt8} {off n m : ℕ}

/-- Write `b` from an offset on. -/
def put (l : List UInt8) (off : ℕ) (b : List UInt8) : Option (List UInt8) :=
  if off + b.length ≤ l.length then some (l.take off ++ b ++ l.drop (off + b.length)) else none

/-- Read `n` bytes of `src` at `s`, and write them to `dst` at `d`. -/
def transfer (src dst : List UInt8) (s d n : ℕ) : Option (List UInt8) :=
  (slice src s n).bind fun b => put dst d b

theorem put_eq (h : off + b.length ≤ l.length) :
    put l off b = some (l.take off ++ b ++ l.drop (off + b.length)) := if_pos h

/-- A piece in the middle is replaced. -/
theorem put_append (ha : a.length = off) (hc : c.length = b.length) :
    put (a ++ c ++ d) off b = some (a ++ b ++ d) := by
  subst ha
  rw [put_eq (by simp only [List.length_append]; omega)]
  have htake : (a ++ c ++ d).take a.length = a := by simp
  have hdrop : (a ++ c ++ d).drop (a.length + b.length) = d := by
    rw [← hc, ← List.length_append, List.drop_left]
  rw [htake, hdrop]

theorem slice_append (ha : a.length = off) (hb : b.length = n) :
    slice (a ++ b ++ d) off n = some b := by
  subst ha hb
  rw [slice_eq (by simp only [List.length_append]; omega)]
  simp

theorem transfer_eq (hs : slice l off n = some b) (hp : put l' m b = some c) :
    transfer l l' off m n = some c := by
  rw [transfer, hs, Option.bind_some, hp]

end Sm8850.Lib.Bytes
