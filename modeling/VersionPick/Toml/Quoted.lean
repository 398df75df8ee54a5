/-
Texts of TOML documents: between apostrophes everything stands for itself,
between double quotes a backslash starts an escape. With the delimiter written
three times a text may go on over lines; a line break right behind the opening
delimiter is not part of it.
-/
import VersionPick.Text.Hex
import VersionPick.Text.Pieces

namespace VersionPick.Toml

open Text

/-- The space and the tab. -/
def isBlank (c : Char) : Bool :=
  c == ' ' || c == '\t'

/-- A character that may stand in a text or comment: no control character but
the tab. -/
def isShown (c : Char) : Bool :=
  c == '\t' || (' ' ≤ c && c != '\x7f')

/-- Puts a character in front of the first of two texts. -/
def consFst (c : Char) (p : List Char × List Char) : List Char × List Char :=
  (c :: p.1, p.2)

/-- What stands before a delimiter of one character, and the rest behind it.
`escapes` says whether a backslash takes the next character with it, and
`escaped` that this has just happened. -/
def closeShort (delimiter : Char) (escapes : Bool) :
    (escaped : Bool) → List Char → Option (List Char × List Char)
  | _, [] => none
  | true, c :: cs => (closeShort delimiter escapes false cs).map (consFst c)
  | false, c :: cs =>
    if c == delimiter then some ([], cs)
    else (closeShort delimiter escapes (escapes && c == '\\') cs).map (consFst c)

/-- The delimiters, two at most, that a text ends with although they look like
a part of the closing ones. -/
def trailing (delimiter : Char) : List Char → List Char × List Char
  | [] => ([], [])
  | [c] => if c == delimiter then ([c], []) else ([], [c])
  | c :: d :: cs =>
    if c == delimiter then if d == delimiter then ([c, d], cs) else ([c], d :: cs)
    else ([], c :: d :: cs)

/-- What stands before three delimiters, and the rest behind them. -/
def closeLong (delimiter : Char) (escapes : Bool) :
    (escaped : Bool) → List Char → Option (List Char × List Char)
  | _, [] => none
  | true, c :: cs => (closeLong delimiter escapes false cs).map (consFst c)
  | false, c :: cs =>
    match List.isPrefixOf? [delimiter, delimiter, delimiter] (c :: cs) with
    | some rest => some (trailing delimiter rest)
    | none => (closeLong delimiter escapes (escapes && c == '\\') cs).map (consFst c)

def plainLines : List Char → List Char
  | [] => []
  | [c] => [c]
  | c :: d :: cs =>
    if c == '\r' && d == '\n' then '\n' :: plainLines cs else c :: plainLines (d :: cs)

/-- What follows a line feed at the start. -/
def dropFirstBreak (cs : List Char) : List Char :=
  (List.isPrefixOf? ['\n'] cs).getD cs

/-- A character that stands for itself. -/
def isPlain (lines : Bool) (c : Char) : Bool :=
  isShown c || (lines && c == '\n')

/-- The characters that are escaped by a name of one character. -/
def namedEscapes : List (Char × Char) :=
  [('b', '\x08'), ('t', '\t'), ('n', '\n'), ('f', '\x0c'), ('r', '\r'), ('"', '"'), ('\\', '\\')]

/-- Where the reading of a text with escapes stands. -/
inductive QuotedState
  | plain
  /-- Right behind a backslash. -/
  | escape
  /-- `left` more digits and one are to come, `soFar` is the number read. -/
  | digits (left soFar : Nat)
  /-- In the blanks between a backslash and the end of its line. -/
  | lineEnd
  /-- In the blanks and line breaks behind a line that ended with a backslash. -/
  | lineStart
  deriving DecidableEq, Repr

/-- The text that the rest of a text with escapes stands for; `lines` says
whether it may go on over lines. -/
def unescapeFrom (lines : Bool) : QuotedState → List Char → Option (List Char)
  | .plain, [] => some []
  | .lineStart, [] => some []
  | .escape, [] => none
  | .digits _ _, [] => none
  | .lineEnd, [] => none
  | .plain, c :: cs =>
    if c == '\\' then unescapeFrom lines .escape cs
    else if isPlain lines c then (unescapeFrom lines .plain cs).map (c :: ·)
    else none
  | .escape, c :: cs =>
    match namedEscapes.lookup c with
    | some d => (unescapeFrom lines .plain cs).map (d :: ·)
    | none =>
      if c == 'u' then unescapeFrom lines (.digits 3 0) cs
      else if c == 'U' then unescapeFrom lines (.digits 7 0) cs
      else if lines && c == '\n' then unescapeFrom lines .lineStart cs
      else if lines && isBlank c then unescapeFrom lines .lineEnd cs
      else none
  | .digits left soFar, c :: cs =>
    match Hex.digit? c with
    | none => none
    | some d =>
      match left with
      | left + 1 => unescapeFrom lines (.digits left (16 * soFar + d)) cs
      | 0 =>
        match Hex.scalar? (16 * soFar + d) with
        | some e => (unescapeFrom lines .plain cs).map (e :: ·)
        | none => none
  | .lineEnd, c :: cs =>
    if c == '\n' then unescapeFrom lines .lineStart cs
    else if isBlank c then unescapeFrom lines .lineEnd cs
    else none
  | .lineStart, c :: cs =>
    if c == '\n' || isBlank c then unescapeFrom lines .lineStart cs
    else if c == '\\' then unescapeFrom lines .escape cs
    else if isPlain lines c then (unescapeFrom lines .plain cs).map (c :: ·)
    else none

/-- The text of what stands between delimiters. -/
def unquote? (escapes lines : Bool) (body : List Char) : Option (List Char) :=
  if escapes then unescapeFrom lines .plain body
  else if body.all (isPlain lines) then some body
  else none

/-- The delimiter at the start of a text, and whether escapes have a meaning
between two of it. -/
def delimiter? : List Char → Option (Char × Bool)
  | '"' :: _ => some ('"', true)
  | '\'' :: _ => some ('\'', false)
  | _ => none

/-- Reads a text on one line, which starts with its delimiter. -/
def readShort? (cs : List Char) : Option (String × List Char) := do
  let (delimiter, escapes) ← delimiter? cs
  let (body, rest) ← closeShort delimiter escapes false cs.tail
  let text ← unquote? escapes false body
  some (String.ofList text, rest)

/-- Reads a text, which starts with one or three of its delimiter. -/
def readText? (cs : List Char) : Option (String × List Char) := do
  let (delimiter, escapes) ← delimiter? cs
  match List.isPrefixOf? [delimiter, delimiter, delimiter] cs with
  | none => readShort? cs
  | some cs =>
    let (body, rest) ← closeLong delimiter escapes false cs
    let text ← unquote? escapes true (dropFirstBreak (plainLines body))
    some (String.ofList text, rest)

end VersionPick.Toml
