/-
The natural order on texts: runs of ASCII digits compare as numbers, all other
characters by code point. A text is read as chunks, and texts compare as their
lists of chunks do, so the order is total as soon as the order on chunks is.
-/
import VersionPick.Text.Decimal

namespace VersionPick.Text

/-- A run of digits, by its value and its length, or one other character. -/
inductive Chunk
  | number (value width : Nat)
  | letter (c : Char)
  deriving DecidableEq, Repr

namespace Chunk

/-- Numbers compare by value and then by width, so more leading zeros come
later. A number stands among the other characters where its digits do. -/
def compare : Chunk → Chunk → Ordering
  | .number v w, .number v' w' => (Ord.compare v v').then (Ord.compare w w')
  | .number _ _, .letter c => if c < '0' then .gt else .lt
  | .letter c, .number _ _ => if c < '0' then .lt else .gt
  | .letter c, .letter d => Ord.compare c d

instance : Ord Chunk := ⟨Chunk.compare⟩

end Chunk

/-- The chunk of the digits read so far, if there are any. -/
def flushDigits (digits : List Char) : List Chunk :=
  if digits.isEmpty then [] else [.number (Decimal.value digits) digits.length]

/-- The chunks of a text whose first characters `digits` are digits of a run. -/
def chunksAfter (digits : List Char) : List Char → List Chunk
  | [] => flushDigits digits
  | c :: cs =>
    if c.isDigit then chunksAfter (digits ++ [c]) cs
    else flushDigits digits ++ .letter c :: chunksAfter [] cs

/-- The chunks of a text: every run of digits is as long as it can be. -/
def chunks (cs : List Char) : List Chunk :=
  chunksAfter [] cs

def naturalCompare (a b : List Char) : Ordering :=
  compare (chunks a) (chunks b)

/-- Sorts by the natural order; equal texts keep their places. -/
def naturalSort (texts : List String) : List String :=
  texts.mergeSort fun a b => (naturalCompare a.toList b.toList).isLE

end VersionPick.Text
