/-
Hosts that are written as numbers. In the short form up to four numerals stand
between dots, in decimal, octal behind `0` or hexadecimal behind `0x`, and the
last one fills the bytes that are left. In the long form eight groups of
hexadecimal digits stand between colons; `::` stands for groups of zeros, and
four decimal numerals for the last two groups.
-/
import VersionPick.Text.Decimal
import VersionPick.Text.Hex
import VersionPick.Text.Pieces

namespace VersionPick.Host

open Text

/-- The number of digits in some base. -/
def valueIn (base : Nat) (digits : List Nat) : Nat :=
  digits.foldl (fun n d => base * n + d) 0

/-- The number of a numeral whose digits are below `base`; it may have none. -/
def digitsIn? (base : Nat) (cs : List Char) : Option Nat :=
  match cs.mapM Hex.digit? with
  | some digits => if digits.all (· < base) then some (valueIn base digits) else none
  | none => none

/-- The number of a numeral in the base that its start tells. -/
def numeral? : List Char → Option Nat
  | [] => none
  | ['0'] => some 0
  | '0' :: 'x' :: cs => digitsIn? 16 cs
  | '0' :: 'X' :: cs => digitsIn? 16 cs
  | '0' :: cs => digitsIn? 8 cs
  | cs => digitsIn? 10 cs

/-- The labels of a name without the empty one behind a final dot. -/
def withoutRoot (labels : List (List Char)) : List (List Char) :=
  match labels.reverse with
  | [] :: label :: before => (label :: before).reverse
  | _ => labels

/-- The last label is a number, or would be one but for its base. -/
def endsInNumber (labels : List (List Char)) : Bool :=
  ((withoutRoot labels).getLast?).any fun label =>
    Decimal.isNumeral label || (numeral? label).isSome

/-- The number that the numerals of a short form make: one byte each, and the
last one fills up to four. -/
def join4? : (room : Nat) → List Nat → Option Nat
  | _, [] => none
  | 0, _ :: _ => none
  | room + 1, [n] => if n < 256 ^ (room + 1) then some n else none
  | room + 1, n :: ns => if n < 256 then (join4? room ns).map (256 ^ room * n + ·) else none

/-- The number of a host in the short form. -/
def short? (labels : List (List Char)) : Option Nat :=
  ((withoutRoot labels).mapM numeral?).bind (join4? 4)

/-- One of the four plain numerals that may end the long form. -/
def byte? (cs : List Char) : Option Nat :=
  (Decimal.plain? cs).bind fun n => if n < 256 then some n else none

/-- A group of the long form. -/
def group? (cs : List Char) : Option Nat :=
  if !cs.isEmpty && cs.length ≤ 4 then digitsIn? 16 cs else none

/-- Groups between colons; only if `isLast` they may end in the short form. -/
def groups? (isLast : Bool) : List (List Char) → Option (List Nat)
  | [] => some []
  | [cs] =>
    match group? cs with
    | some n => some [n]
    | none =>
      match isLast, (List.splitOn '.' cs).mapM byte? with
      | true, some [a, b, c, d] => some [256 * a + b, 256 * c + d]
      | _, _ => none
  | cs :: rest => do
    let n ← group? cs
    return n :: (← groups? isLast rest)

/-- The pieces between colons; an empty text has none. -/
def pieces (cs : List Char) : List (List Char) :=
  if cs.isEmpty then [] else List.splitOn ':' cs

/-- The text before and after the first two colons in a row. -/
def cutZeros : List Char → Option (List Char × List Char)
  | ':' :: ':' :: cs => some ([], cs)
  | c :: cs => (cutZeros cs).map fun (before, after) => (c :: before, after)
  | [] => none

/-- The eight groups of a host in the long form. -/
def long? (cs : List Char) : Option (List Nat) :=
  match cutZeros cs with
  | none => (groups? true (pieces cs)).filter (·.length == 8)
  | some (before, after) => do
    let left ← groups? false (pieces before)
    let right ← groups? true (pieces after)
    if left.length + right.length < 8 then
      some (left ++ List.replicate (8 - left.length - right.length) 0 ++ right)
    else none

end VersionPick.Host
