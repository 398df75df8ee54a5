/-
The numbers of TOML documents. An integer fits into 64 bits with a sign and
may be hexadecimal, octal or binary without one; a floating point number has a
fraction, an exponent or both, and is not so great that it rounds to infinity.
Single underscores may stand between digits.
-/
import VersionPick.Text.Decimal
import VersionPick.Text.Hex
import VersionPick.Text.Pieces

namespace VersionPick.Toml

open Text

/-- The text behind a sign, and whether the sign is a minus. -/
def unsigned : List Char → Bool × List Char
  | '+' :: cs => (false, cs)
  | '-' :: cs => (true, cs)
  | cs => (false, cs)

/-- The digits without the underscores between them. -/
def digits? (isDigit : Char → Bool) (cs : List Char) : Option (List Char) :=
  let groups := List.splitOn '_' cs
  if groups.all fun group => !group.isEmpty && group.all isDigit then some groups.flatten else none

/-- The digits of a decimal integer, which has no superfluous leading zeros. -/
def integerDigits? (cs : List Char) : Option (List Char) :=
  (digits? Char.isDigit cs).filter Decimal.isPlain

/-- A decimal integer of 64 bits with a sign. -/
def isDecimalInteger (cs : List Char) : Bool :=
  let (negative, cs) := unsigned cs
  match integerDigits? cs with
  | some ds => if negative then Decimal.value ds ≤ UInt64.size / 2 else Decimal.value ds < UInt64.size / 2
  | none => false

/-- The number that digits of a base write. -/
def radixValue (base : Nat) (ds : List Char) : Nat :=
  ds.foldl (fun n c => base * n + (Hex.digit? c).getD 0) 0

/-- An integer with the mark of its base in front. -/
def isRadixInteger (mark : List Char) (base : Nat) (cs : List Char) : Bool :=
  match (List.isPrefixOf? mark cs).bind (digits? fun c => (Hex.digit? c).any (· < base)) with
  | some ds => radixValue base ds < UInt64.size / 2
  | none => false

/-- The number `ds · 10 ^ exponent` rounds to infinity in 64 bits: it is at
least half a unit above the greatest finite number. The count of its digits
tells the magnitude, so that no power is computed that is far from the bound. -/
def overflows (ds : List Char) (exponent : Int) : Bool :=
  let ds := ds.dropWhile (· == '0')
  let magnitude := ds.length + exponent
  let bound := Nat.pow 2 1024 - Nat.pow 2 970
  if ds.isEmpty || magnitude < 309 then false
  else if 309 < magnitude then true
  else if 0 ≤ exponent then bound ≤ Decimal.value ds * Nat.pow 10 exponent.toNat
  else bound * Nat.pow 10 (-exponent).toNat ≤ Decimal.value ds

def exponent? (cs : List Char) : Option Int :=
  let (negative, cs) := unsigned cs
  (digits? Char.isDigit cs).map fun ds =>
    if negative then -(Decimal.value ds : Int) else Decimal.value ds

/-- A part that may be left out, which then stands for `absent`. -/
def optional? (absent : α) (read? : List Char → Option α) : Option (List Char) → Option α
  | none => some absent
  | some cs => read? cs

def isFloat (cs : List Char) : Bool :=
  let (negative, body) := unsigned cs
  if body == ['i', 'n', 'f'] || body == ['n', 'a', 'n'] then true
  else
    let (mantissa, exponent) := cutFirst 'e' (replace 'E' ['e'] body)
    let (whole, fraction) := cutFirst '.' mantissa
    (fraction.isSome || exponent.isSome) &&
      match integerDigits? whole, optional? [] (digits? Char.isDigit) fraction,
          optional? 0 exponent? exponent with
      | some w, some f, some e => negative || !overflows (w ++ f) (e - f.length)
      | _, _, _ => false

def isNumber (cs : List Char) : Bool :=
  isDecimalInteger cs || isFloat cs || isRadixInteger ['0', 'x'] 16 cs ||
    isRadixInteger ['0', 'o'] 8 cs || isRadixInteger ['0', 'b'] 2 cs

end VersionPick.Toml
