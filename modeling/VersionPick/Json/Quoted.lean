/-
The text inside JSON quotes. `encode` escapes what has to be escaped: quotes,
backslashes and control characters. `decode?` knows every escape; a character
past the first 65536 may be written as a pair of surrogates, and a surrogate
without its partner stands for no text.
-/
import VersionPick.Text.Hex

namespace VersionPick.Json

open Text

/-- The characters that have an escape of one letter, by that letter. -/
def namedEscapes : List (Char × Char) := [
  ('"', '"'), ('\\', '\\'), ('/', '/'), ('b', '\x08'), ('f', '\x0c'), ('n', '\n'), ('r', '\r'),
  ('t', '\t')]

/-- A character that may not stand between quotes. -/
def isControl (c : Char) : Bool :=
  c < ' '

/-- The written form of a character. -/
def encodeChar (c : Char) : List Char :=
  if c == '"' then ['\\', '"']
  else if c == '\\' then ['\\', '\\']
  else if c == '\x08' then ['\\', 'b']
  else if c == '\x0c' then ['\\', 'f']
  else if c == '\n' then ['\\', 'n']
  else if c == '\r' then ['\\', 'r']
  else if c == '\t' then ['\\', 't']
  else if isControl c then
    ['\\', 'u', '0', '0', Hex.digit (c.toNat / 16), Hex.digit (c.toNat % 16)]
  else [c]

def encode (cs : List Char) : List Char :=
  cs.flatMap encodeChar

/-- A number is that of the first half of a surrogate pair. -/
def isHighSurrogate (n : Nat) : Bool :=
  0xD800 ≤ n && n ≤ 0xDBFF

/-- A number is that of the second half of a surrogate pair. -/
def isLowSurrogate (n : Nat) : Bool :=
  0xDC00 ≤ n && n ≤ 0xDFFF

/-- The number of the character that a surrogate pair stands for. -/
def joinSurrogates (high low : Nat) : Nat :=
  0x10000 + (high - 0xD800) * 0x400 + (low - 0xDC00)

/-- Where the reading of a written text stands. -/
inductive QuotedState
  | plain
  /-- Right behind a backslash. -/
  | escape
  /-- `left` more digits and one are to come, `soFar` is the number read, `high`
  the surrogate before it that waits for its partner. -/
  | digits (left soFar : Nat) (high : Option Nat)
  /-- Behind a first surrogate, before the backslash of its partner. -/
  | partner (high : Nat)
  /-- Behind the backslash of the partner. -/
  | partnerEscape (high : Nat)
  deriving DecidableEq, Repr

/-- What a number written in four digits gives: a character, or a surrogate
that waits for its partner. -/
def unit? (high : Option Nat) (n : Nat) : Option (Char ⊕ Nat) :=
  match high with
  | some h => if isLowSurrogate n then (Hex.scalar? (joinSurrogates h n)).map .inl else none
  | none => if isHighSurrogate n then some (.inr n) else (Hex.scalar? n).map .inl

/-- The text that the rest of a written text stands for. -/
def decodeFrom : QuotedState → List Char → Option (List Char)
  | .plain, [] => some []
  | _, [] => none
  | .plain, c :: cs =>
    if c == '\\' then decodeFrom .escape cs
    else (decodeFrom .plain cs).map (c :: ·)
  | .escape, c :: cs =>
    if c == 'u' then decodeFrom (.digits 3 0 none) cs
    else match namedEscapes.lookup c with
      | some d => (decodeFrom .plain cs).map (d :: ·)
      | none => none
  | .digits left soFar high, c :: cs =>
    match Hex.digit? c with
    | none => none
    | some d =>
      match left with
      | left + 1 => decodeFrom (.digits left (16 * soFar + d) high) cs
      | 0 =>
        match unit? high (16 * soFar + d) with
        | some (.inl e) => (decodeFrom .plain cs).map (e :: ·)
        | some (.inr h) => decodeFrom (.partner h) cs
        | none => none
  | .partner high, c :: cs => if c == '\\' then decodeFrom (.partnerEscape high) cs else none
  | .partnerEscape high, c :: cs =>
    if c == 'u' then decodeFrom (.digits 3 0 (some high)) cs else none

def decode? (written : List Char) : Option (List Char) :=
  decodeFrom .plain written

/-- Where the search for the closing quote stands. -/
inductive ScanState
  | plain
  | escape
  /-- The number of hexadecimal digits to come, less one. -/
  | digits (left : Nat)
  deriving DecidableEq, Repr

/-- What is written up to the closing quote, and the rest behind it. Escapes
have to be complete, but nothing is asked of surrogates. -/
def closeQuote : ScanState → List Char → Option (List Char × List Char)
  | _, [] => none
  | .plain, c :: cs =>
    if c == '"' then some ([], cs)
    else if isControl c then none
    else (closeQuote (if c == '\\' then .escape else .plain) cs).map fun p => (c :: p.1, p.2)
  | .escape, c :: cs =>
    if c == 'u' then (closeQuote (.digits 3) cs).map fun p => (c :: p.1, p.2)
    else if (namedEscapes.lookup c).isSome then
      (closeQuote .plain cs).map fun p => (c :: p.1, p.2)
    else none
  | .digits left, c :: cs =>
    if (Hex.digit? c).isSome then
      match left with
      | left + 1 => (closeQuote (.digits left) cs).map fun p => (c :: p.1, p.2)
      | 0 => (closeQuote .plain cs).map fun p => (c :: p.1, p.2)
    else none

end VersionPick.Json
