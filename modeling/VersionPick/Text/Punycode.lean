/-
Punycode, the writing of any text in letters, digits and hyphens: its ASCII
characters, and behind the last hyphen a row of numbers. Each number tells how
far it is to the next other character, counted over all characters and all
places where they can be inserted. The digits of a number have bounds that
follow the numbers before.
-/
import VersionPick.Text.Hex
import VersionPick.Text.Pieces

namespace VersionPick.Text.Punycode

/-- The value of a digit: the letters in either case, then the digits. -/
def digit? (c : Char) : Option Nat :=
  if c.isAlpha then some (c.toLower.toNat - 'a'.toNat)
  else if c.isDigit then some (c.toNat - '0'.toNat + 26)
  else none

/-- Digits below this bound end a number; `place` is 36 for its first digit, 72
for the second, and so on. -/
def bound (place bias : Nat) : Nat :=
  max 1 (min 26 (place - bias))

/-- The bias that goes with a distance: the places until it is small enough,
and a share of the last one. -/
def biasOf (place distance : Nat) : Nat :=
  if 455 < distance then biasOf (place + 36) (distance / 35)
  else place + 36 * distance / (distance + 38)
termination_by distance
decreasing_by omega

/-- The bias behind a number, where `count` characters have been placed. -/
def adapt (distance count : Nat) (isFirst : Bool) : Nat :=
  let distance := if isFirst then distance / 700 else distance / 2
  biasOf 0 (distance + distance / count)

/-- The number that starts a text, and the text behind it. -/
def number? (bias : Nat) : (place weight soFar : Nat) → List Char → Option (Nat × List Char)
  | _, _, _, [] => none
  | place, weight, soFar, c :: cs =>
    match digit? c with
    | none => none
    | some d =>
      let soFar := soFar + d * weight
      if d < bound place bias then some (soFar, cs)
      else number? bias (place + 36) (weight * (36 - bound place bias)) soFar cs

/-- Inserts the characters that numbers tell into a text. `code` and `index`
are where the counting stands. -/
def insertAll : (fuel code index bias : Nat) → (soFar : List Char) → List Char → Option (List Char)
  | _, _, _, _, soFar, [] => some soFar
  | 0, _, _, _, _, _ :: _ => none
  | fuel + 1, code, index, bias, soFar, c :: cs => do
    let (distance, rest) ← number? bias 36 1 0 (c :: cs)
    let count := soFar.length + 1
    let code := code + (index + distance) / count
    let place := (index + distance) % count
    let inserted ← Hex.scalar? code
    insertAll fuel code (place + 1) (adapt distance count (index == 0))
      (soFar.insertIdx place inserted) rest

/-- The text that a text in Punycode stands for. -/
def decode? (cs : List Char) : Option (List Char) :=
  match cutAt '-' cs.reverse with
  | some (numbers, c :: plain) =>
    insertAll numbers.length 128 0 72 (c :: plain).reverse numbers.reverse
  | _ => insertAll cs.length 128 0 72 [] cs

end VersionPick.Text.Punycode
