/-
Compat entries of Julia projects, read as ranges. Commas separate the
alternatives; a clause is one comparator or one hyphen range; a version
without operator means caret; `≥` and `≤` may stand for `>=` and `<=`.
-/
import VersionPick.Range.Reader
import VersionPick.Text.DigitClass

namespace VersionPick.CompatEntry

open Text

/-- The mathematical signs written as operators. -/
def plainSigns (cs : List Char) : List Char :=
  replace '≤' ['<', '='] (replace '≥' ['>', '='] cs)

/-- A word that ends with one of the operators `>=`, `>` and `<`. -/
def endsWithSign (word : List Char) : Bool :=
  match word.reverse with
  | '>' :: _ => true
  | '<' :: _ => true
  | '=' :: '>' :: _ => true
  | _ => false

def startsWithDigit : List Char → Bool
  | c :: _ => isDecimalDigit c
  | [] => false

/-- One space between the words, but none between an operator and a digit. -/
def layOut : List (List Char) → List Char
  | [] => []
  | [word] => word
  | word :: next :: words =>
    if endsWithSign word && startsWithDigit next then word ++ layOut (next :: words)
    else word ++ ' ' :: layOut (next :: words)

/-- A clause of one word, or of three with a lone hyphen in the middle. -/
def isSingle (clause : List Char) : Bool :=
  match List.splitOn ' ' clause with
  | [_] => true
  | [_, ['-'], _] => true
  | _ => false

/-- The range text of a clause: the clause itself, with the caret that a bare
version means. None if the clause is unusable. -/
def clause? (raw : List Char) : Option (List Char) :=
  let clause := layOut (words (plainSigns raw))
  if clause.isEmpty || (Range.read? clause).isNone || !isSingle clause ||
      (List.isPrefixOf? ['<', '='] clause).isSome || clause == ['*'] then none
  else match clause with
    | c :: _ => if c.isDigit && !clause.contains ' ' then some ('^' :: clause) else some clause
    | [] => none

def read? (raw : List Char) : Option Range := do
  let clauses ← (List.splitOn ',' raw).mapM clause?
  Range.read? (List.intercalate [' ', '|', '|', ' '] clauses)

def range? (raw : String) : Option Range :=
  read? raw.toList

end VersionPick.CompatEntry
