/-
  ExchangePipeline/Text/CodePoints.lean
  =====================================
  **Sets of code points, given by their ranges.**

  A large set is written as one text: its ranges in hexadecimal and in increasing
  order, with a blank between them, as in `"aa b2-b3 b5"`.
-/
import ExchangePipeline.Text.Hexadecimal

namespace ExchangePipeline

/-- A set of code points: the bounds of its ranges, both of them included. -/
structure CodePoints where
  ranges : List (Nat × Nat)
deriving Repr

namespace CodePoints

/-- The number that hexadecimal digits spell. -/
def hexValue (digits : List Char) : Nat :=
  digits.foldl (fun n c => 16 * n + (Text.hexDigit? c).getD 0) 0

/-- The bounds of a range, or of a single code point. -/
def bounds (range : List Char) : Nat × Nat :=
  let low := range.takeWhile (· ≠ '-')
  let high := (range.dropWhile (· ≠ '-')).drop 1
  (hexValue low, hexValue (if high.isEmpty then low else high))

/-- The set that a text of ranges spells. -/
def ofText (text : String) : CodePoints :=
  ⟨(text.toList.splitOn ' ').map bounds⟩

/-- Whether a character is in the set. -/
def contains (set : CodePoints) (c : Char) : Bool :=
  set.ranges.any fun range => range.1 ≤ c.toNat && c.toNat ≤ range.2

end CodePoints

end ExchangePipeline
