/-
JSON values with their strings and numbers as they are written. What stands in
a member that nobody asks for is so never decoded, and needs no meaning.
-/
import VersionPick.Json.Quoted
import VersionPick.Text.Decimal

namespace VersionPick.Json

open Text

/-- A JSON value. -/
inductive Value
  | null
  | bool (b : Bool)
  | number (written : List Char)
  /-- A string, as it is written between its quotes. -/
  | string (written : List Char)
  | array (elements : List Value)
  | object (members : List (List Char × Value))
  deriving Repr

namespace Value

def ofText (s : String) : Value :=
  .string (encode s.toList)

def ofWord (n : UInt64) : Value :=
  .number (Decimal.writeWord n)

def text? : Value → Option String
  | .string written => (decode? written).map String.ofList
  | _ => none

def bool? : Value → Option Bool
  | .bool b => some b
  | _ => none

/-- The natural number, written without sign, fraction and exponent. -/
def nat? : Value → Option Nat
  | .number written => Decimal.plain? written
  | _ => none

/-- The number, if it is a 64-bit word. -/
def word? (v : Value) : Option UInt64 :=
  v.nat?.bind Decimal.toWord?

/-- The number, if it is a 32-bit word. -/
def halfWord? (v : Value) : Option UInt32 :=
  v.nat?.bind fun n => if n < UInt32.size then some (UInt32.ofNat n) else none

def elements? : Value → Option (List Value)
  | .array elements => some elements
  | _ => none

/-- The members of an object, with the texts of their keys. -/
def members? : Value → Option (List (String × Value))
  | .object members =>
    members.mapM fun (key, v) => (decode? key).map fun key => (String.ofList key, v)
  | _ => none

mutual

/-- The text of a value, without blanks. -/
def write : Value → List Char
  | .null => ['n', 'u', 'l', 'l']
  | .bool true => ['t', 'r', 'u', 'e']
  | .bool false => ['f', 'a', 'l', 's', 'e']
  | .number written => written
  | .string written => '"' :: written ++ ['"']
  | .array [] => ['[', ']']
  | .array (v :: vs) => '[' :: (v.write ++ writeElements vs)
  | .object [] => ['\x7b', '\x7d']
  | .object ((key, v) :: members) =>
    '\x7b' :: '"' :: (key ++ '"' :: ':' :: (v.write ++ writeMembers members))

/-- The elements of an array that follow others, and its closing bracket. -/
def writeElements : List Value → List Char
  | [] => [']']
  | v :: vs => ',' :: (v.write ++ writeElements vs)

/-- The members of an object that follow others, and its closing brace. -/
def writeMembers : List (List Char × Value) → List Char
  | [] => ['\x7d']
  | (key, v) :: members => ',' :: '"' :: (key ++ '"' :: ':' :: (v.write ++ writeMembers members))

end

end Value

end VersionPick.Json
