/-
Reading JSON texts. Blanks may stand around every token; a number has no
superfluous zeros in front; no comma follows the last element or member.
-/
import VersionPick.Json.Value
import VersionPick.Text.Pieces

namespace VersionPick.Json

open Text

/-- The blanks of JSON. -/
def isBlank (c : Char) : Bool :=
  c == ' ' || c == '\n' || c == '\t' || c == '\r'

def skipBlanks (cs : List Char) : List Char :=
  cs.dropWhile isBlank

/-- An exponent: digits with an optional sign. -/
def isExponent : List Char → Bool
  | '+' :: cs => Decimal.isNumeral cs
  | '-' :: cs => Decimal.isNumeral cs
  | cs => Decimal.isNumeral cs

/-- A number: digits with an optional minus, fraction and exponent. -/
def isNumber (cs : List Char) : Bool :=
  let (mantissa, exponent) := cutFirst 'e' (replace 'E' ['e'] ((List.isPrefixOf? ['-'] cs).getD cs))
  let (whole, fraction) := cutFirst '.' mantissa
  Decimal.isPlain whole && fraction.all Decimal.isNumeral && exponent.all isExponent

def isNumberChar (c : Char) : Bool :=
  c.isDigit || c == '-' || c == '+' || c == '.' || c == 'e' || c == 'E'

/-- Reads a value that has no brackets and is no string. -/
def readPlain? (cs : List Char) : Option (Value × List Char) :=
  match cs with
  | 'n' :: rest => (List.isPrefixOf? ['u', 'l', 'l'] rest).map (.null, ·)
  | 't' :: rest => (List.isPrefixOf? ['r', 'u', 'e'] rest).map (.bool true, ·)
  | 'f' :: rest => (List.isPrefixOf? ['a', 'l', 's', 'e'] rest).map (.bool false, ·)
  | cs =>
    if isNumber (cs.takeWhile isNumberChar) then
      some (.number (cs.takeWhile isNumberChar), cs.dropWhile isNumberChar)
    else none

mutual

/-- Reads a value and the blanks in front of it. -/
def readValue? : (fuel : Nat) → List Char → Option (Value × List Char)
  | 0, _ => none
  | fuel + 1, cs =>
    match skipBlanks cs with
    | '"' :: rest => (closeQuote .plain rest).map fun (written, rest) => (.string written, rest)
    | '[' :: rest =>
      match skipBlanks rest with
      | ']' :: rest => some (.array [], rest)
      | rest => (readElements? fuel rest).map fun (vs, rest) => (.array vs, rest)
    | '\x7b' :: rest =>
      match skipBlanks rest with
      | '\x7d' :: rest => some (.object [], rest)
      | rest => (readMembers? fuel rest).map fun (members, rest) => (.object members, rest)
    | rest => readPlain? rest

/-- Reads the elements of an array, of which there is at least one, and its
closing bracket. -/
def readElements? : (fuel : Nat) → List Char → Option (List Value × List Char)
  | 0, _ => none
  | fuel + 1, cs =>
    match readValue? fuel cs with
    | none => none
    | some (v, rest) =>
      match skipBlanks rest with
      | ',' :: rest => (readElements? fuel rest).map fun (vs, rest) => (v :: vs, rest)
      | ']' :: rest => some ([v], rest)
      | _ => none

/-- Reads the members of an object, of which there is at least one, and its
closing brace. -/
def readMembers? : (fuel : Nat) → List Char → Option (List (List Char × Value) × List Char)
  | 0, _ => none
  | fuel + 1, cs =>
    match readMember? fuel cs with
    | none => none
    | some (member, rest) =>
      match skipBlanks rest with
      | ',' :: rest =>
        (readMembers? fuel rest).map fun (members, rest) => (member :: members, rest)
      | '\x7d' :: rest => some ([member], rest)
      | _ => none

/-- Reads a key, a colon and a value. -/
def readMember? : (fuel : Nat) → List Char → Option ((List Char × Value) × List Char)
  | 0, _ => none
  | fuel + 1, cs =>
    match skipBlanks cs with
    | '"' :: rest =>
      match closeQuote .plain rest with
      | none => none
      | some (key, rest) =>
        match skipBlanks rest with
        | ':' :: rest => (readValue? fuel rest).map fun (v, rest) => ((key, v), rest)
        | _ => none
    | _ => none

end

/-- The value of a text. Three steps of reading take at least a character. -/
def read? (text : List Char) : Option Value :=
  match readValue? (3 * text.length + 3) text with
  | some (v, rest) => if (skipBlanks rest).isEmpty then some v else none
  | none => none

end VersionPick.Json
