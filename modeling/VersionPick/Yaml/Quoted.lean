/-
The text inside YAML quotes. Between single quotes a quote is written twice
and all else stands for itself; between double quotes a backslash starts an
escape: a named character, a character by its hexadecimal number, or a line
break that is dropped together with the blanks the next line starts with.
-/
import VersionPick.Text.Hex

namespace VersionPick.Yaml

open Text

/-- The text that is written between single quotes. -/
def unquoteSingle : List Char → List Char
  | [] => []
  | [c] => [c]
  | c :: d :: cs =>
    if c == '\'' && d == '\'' then '\'' :: unquoteSingle cs else c :: unquoteSingle (d :: cs)

/-- What the character behind a backslash asks for. -/
inductive Escape
  | char (c : Char)
  /-- The character with the number that the next `digits` digits write. -/
  | number (digits : Nat)
  /-- The line break is dropped. -/
  | lineBreak
  deriving DecidableEq, Repr

/-- The characters that are escaped by a name of one character. -/
def namedEscapes : List (Char × Char) := [
  ('0', '\x00'), ('a', '\x07'), ('b', '\x08'), ('t', '\t'), ('\t', '\t'), ('n', '\n'),
  ('v', '\x0b'), ('f', '\x0c'), ('r', '\r'), ('e', '\x1b'), (' ', ' '), ('"', '"'),
  ('/', '/'), ('\\', '\\'), ('N', '\u0085'), ('_', '\u00a0'), ('L', '\u2028'), ('P', '\u2029')]

/-- The meaning of the character behind a backslash. -/
def Escape.ofChar? (c : Char) : Option Escape :=
  match c with
  | 'x' => some (.number 2)
  | 'u' => some (.number 4)
  | 'U' => some (.number 8)
  | '\n' => some .lineBreak
  | _ => (namedEscapes.lookup c).map .char

/-- Where the reading of a double-quoted text stands. -/
inductive QuotedState
  | plain
  /-- Right behind a backslash. -/
  | escape
  /-- `left` more digits and one are to come, `soFar` is the number read. -/
  | digits (left soFar : Nat)
  /-- In the blanks behind an escaped line break. -/
  | lineStart
  deriving DecidableEq, Repr

/-- The text that the rest of a double-quoted text stands for, if all escapes
in it are complete and have a meaning. -/
def unescapeFrom : QuotedState → List Char → Option (List Char)
  | .plain, [] => some []
  | .lineStart, [] => some []
  | .escape, [] => none
  | .digits _ _, [] => none
  | .escape, c :: cs =>
    match Escape.ofChar? c with
    | some (.char d) => (unescapeFrom .plain cs).map (d :: ·)
    | some (.number (left + 1)) => unescapeFrom (.digits left 0) cs
    | some (.number 0) => none
    | some .lineBreak => unescapeFrom .lineStart cs
    | none => none
  | .digits left soFar, c :: cs =>
    match Hex.digit? c with
    | none => none
    | some d =>
      match left with
      | left + 1 => unescapeFrom (.digits left (16 * soFar + d)) cs
      | 0 =>
        match Hex.scalar? (16 * soFar + d) with
        | some e => (unescapeFrom .plain cs).map (e :: ·)
        | none => none
  | .lineStart, c :: cs =>
    if c == ' ' || c == '\t' then unescapeFrom .lineStart cs
    else if c == '\\' then unescapeFrom .escape cs
    else (unescapeFrom .plain cs).map (c :: ·)
  | .plain, c :: cs =>
    if c == '\\' then unescapeFrom .escape cs
    else (unescapeFrom .plain cs).map (c :: ·)

def unescape? (cs : List Char) : Option (List Char) :=
  unescapeFrom .plain cs

end VersionPick.Yaml
