/-
Reading TOML documents: lines with a pair, a header or nothing, each of which
a comment may end. Only arrays go on over lines.

What nests is bounded: a value stands in fewer than `depthLimit` arrays and
tables in braces, and a dotted key has fewer than `depthLimit` parts.
-/
import VersionPick.Toml.Value
import VersionPick.Toml.Quoted
import VersionPick.Toml.Number
import VersionPick.Toml.Moment

namespace VersionPick.Toml

open Text

/-- What may not be reached by nesting. -/
def depthLimit : Nat := 80

/-- The text behind blanks, line breaks and comments, if the characters of the
comments may stand there. -/
def skipGap : (inComment : Bool) → List Char → Option (List Char)
  | _, [] => some []
  | inComment, c :: cs =>
    if c == '\n' then skipGap false cs
    else if c == '\r' && cs.head? == some '\n' then skipGap false cs
    else if inComment then if isShown c then skipGap true cs else none
    else if c == '#' then skipGap true cs
    else if isBlank c then skipGap false cs
    else some (c :: cs)

def skipBlanks (cs : List Char) : List Char :=
  cs.dropWhile isBlank

/-- Nothing but a comment is left of a line. -/
def atLineEnd : List Char → Bool
  | [] => true
  | '\r' :: '\n' :: _ => true
  | c :: _ => c == '\n' || c == '#'

/-- A character of a key without quotes. -/
def isBareKeyChar (c : Char) : Bool :=
  c.isAlphanum || c == '_' || c == '-'

/-- Reads one part of a key. -/
def readKeyPart? (cs : List Char) : Option (String × List Char) :=
  if (delimiter? cs).isSome then readShort? cs
  else if (cs.takeWhile isBareKeyChar).isEmpty then none
  else some (String.ofList (cs.takeWhile isBareKeyChar), cs.dropWhile isBareKeyChar)

/-- Reads a key of at most the given number of parts: its parents, its last
part, and the text behind it and the blanks that follow. -/
def readKey? : (parts : Nat) → List Char → Option (List String × String × List Char)
  | 0, _ => none
  | parts + 1, cs => do
    let (key, rest) ← readKeyPart? (skipBlanks cs)
    match skipBlanks rest with
    | '.' :: rest => (readKey? parts rest).map fun (parents, last, rest) => (key :: parents, last, rest)
    | rest => some ([], key, rest)

/-- A character that ends a value without quotes or brackets. -/
def endsBare (c : Char) : Bool :=
  isBlank c || "#\n\r,]\x7d".toList.contains c

/-- The text of a value without quotes or brackets, and the rest behind it. A
date takes the time with it that stands behind a space. -/
def bareText (cs : List Char) : List Char × List Char :=
  let (text, rest) := cs.span (!endsBare ·)
  if isDate text && beforeTime rest then
    let (time, rest) := rest.tail.span (!endsBare ·)
    (text ++ ' ' :: time, rest)
  else (text, rest)

def ofBareText? (text : List Char) : Option Value :=
  if isMoment text then some .dateTime
  else if isNumber text || text == "true".toList || text == "false".toList then some .literal
  else none

mutual

/-- Reads a value that stands in brackets up to `depth` deep. -/
def readValue? : (fuel depth : Nat) → List Char → Option (Value × List Char)
  | 0, _, _ => none
  | fuel + 1, depth, cs =>
    match cs, depth with
    | '[' :: rest, depth + 1 => do
      let (elements, rest) ← readElements? fuel depth (← skipGap false rest)
      some (.array elements, rest)
    | '[' :: _, 0 => none
    | '\x7b' :: rest, depth + 1 =>
      match skipBlanks rest with
      | '\x7d' :: rest => some (.table .braces [], rest)
      | rest => do
        let (entries, rest) ← readPairs? fuel depth [] rest
        some (.table .braces entries, rest)
    | '\x7b' :: _, 0 => none
    | cs, _ =>
      if (delimiter? cs).isSome then (readText? cs).map fun (s, rest) => (.text s, rest)
      else (ofBareText? (bareText cs).1).map (·, (bareText cs).2)

/-- Reads the elements of an array and its closing bracket. A comma may follow
the last element. -/
def readElements? : (fuel depth : Nat) → List Char → Option (List Value × List Char)
  | 0, _, _ => none
  | fuel + 1, depth, cs =>
    match cs with
    | ']' :: rest => some ([], rest)
    | cs => do
      let (v, rest) ← readValue? fuel depth cs
      match ← skipGap false rest with
      | ',' :: rest =>
        let (vs, rest) ← readElements? fuel depth (← skipGap false rest)
        some (v :: vs, rest)
      | ']' :: rest => some ([v], rest)
      | _ => none

/-- Reads the pairs of a table in braces and its closing brace, and adds them
to the entries before them. -/
def readPairs? : (fuel depth : Nat) → Entries → List Char → Option (Entries × List Char)
  | 0, _, _, _ => none
  | fuel + 1, depth, entries, cs => do
    let (parents, key, rest) ← readKey? (depthLimit - 1) cs
    match rest with
    | '=' :: rest =>
      let (v, rest) ← readValue? fuel depth (skipBlanks rest)
      let entries ← addPair parents key v .braces entries
      match skipBlanks rest with
      | ',' :: rest => readPairs? fuel depth entries rest
      | '\x7d' :: rest => some (entries, rest)
      | _ => none
    | _ => none

end

/-- Reads what a line says; the line is not empty. -/
def readStatement? (cs : List Char) : Option (Statement × List Char) :=
  match cs with
  | '[' :: '[' :: rest => do
    let (parents, key, rest) ← readKey? (depthLimit - 1) rest
    let rest ← List.isPrefixOf? [']', ']'] rest
    some (.next parents key, rest)
  | '[' :: rest => do
    let (parents, key, rest) ← readKey? (depthLimit - 1) rest
    let rest ← List.isPrefixOf? [']'] rest
    some (.table parents key, rest)
  | cs => do
    let (parents, key, rest) ← readKey? (depthLimit - 1) cs
    let rest ← List.isPrefixOf? ['='] rest
    let (v, rest) ← readValue? (2 * rest.length + 2) (depthLimit - 1) (skipBlanks rest)
    some (.pair parents key v, rest)

/-- Reads the statements of a document, each of which takes at least a
character. -/
def readStatements? : (fuel : Nat) → List Char → Option (List Statement)
  | 0, _ => none
  | fuel + 1, cs => do
    match ← skipGap false cs with
    | [] => some []
    | cs =>
      let (statement, rest) ← readStatement? cs
      if atLineEnd (skipBlanks rest) then
        let statements ← readStatements? fuel rest
        some (statement :: statements)
      else none

/-- The entries of the document that a text writes, if it writes one. A byte
order mark at its start does not matter. -/
def readDocument? (text : List Char) : Option Entries := do
  let text := (List.isPrefixOf? ['\ufeff'] text).getD text
  let statements ← readStatements? (text.length + 1) text
  let draft ← Draft.ofStatements statements
  some draft.entries

end VersionPick.Toml
