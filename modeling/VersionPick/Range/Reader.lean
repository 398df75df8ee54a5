/-
Reading ranges. A range is alternatives with `||` between them; an alternative
is words, so the kind and amount of white space never matter. Three words with
a lone hyphen in the middle are a hyphen range; any other words are
comparators, where an operator may stand apart from its version.
-/
import VersionPick.Range.Operator
import VersionPick.Text.Blank

namespace VersionPick

open Text

/-- The text is not a range. -/
structure InvalidRange where
  text : String
  deriving DecidableEq, Repr

def InvalidRange.message (e : InvalidRange) : String :=
  "Invalid version range: \"" ++ e.text ++ "\""

namespace Range

/-- Puts operators back in front of the word that follows them: `pending` is
the operator read so far, empty if there is none. An operator that nothing
follows stays as it is. -/
def attachSigns (pending : List Char) : List (List Char) → List (List Char)
  | [] => if pending.isEmpty then [] else [pending]
  | word :: words =>
    if Operator.isSign (pending ++ word) then attachSigns (pending ++ word) words
    else (pending ++ word) :: attachSigns [] words

/-- The operator in front of a word and the rest of the word. -/
def splitSign (word : List Char) : Operator × List Char :=
  match Operator.signs.findSome? fun (sign, op) => (List.isPrefixOf? sign word).map (op, ·) with
  | some found => found
  | none => (.compare .eq, word)

def readComparator? (word : List Char) : Option Alternative :=
  let (op, rest) := splitSign word
  (Partial.read? rest).map op.apply

def readWords? : List (List Char) → Option Alternative
  | [low, ['-'], high] => do
    let low ← Partial.read? low
    let high ← Partial.read? high
    some (low.upTo high)
  | words => ((attachSigns [] words).mapM readComparator?).map List.flatten

def read? (cs : List Char) : Option Range :=
  ((splitOnPair '|' cs).mapM fun part => readWords? (words part)).map Range.mk

/-- The range of a text, or the text that is none. -/
def parse (text : String) : Except InvalidRange Range :=
  match read? text.toList with
  | some r => .ok r
  | none => .error ⟨text⟩

end Range

end VersionPick
