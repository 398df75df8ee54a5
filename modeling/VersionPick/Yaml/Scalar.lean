/-
Scalars of a YAML text: plain, between single quotes, between double quotes.
The value of a plain scalar is its text as it stands, line breaks included.

A scalar may go on over several lines. `floor` is the least indentation that
its further lines need; a document marker ends what it could belong to.
-/
import VersionPick.Yaml.Gap
import VersionPick.Yaml.Quoted
import VersionPick.Text.Blank

namespace VersionPick.Yaml

open Text

/-- A printable character that is neither blank nor line end nor byte order
mark. -/
def isVisible (c : Char) : Bool :=
  let n := c.toNat
  (0x21 ≤ n && n ≤ 0x7E) || n == 0x85 || (0xA0 ≤ n && n ≤ 0xFEFE) ||
    (0xFF00 ≤ n && n ≤ 0xFFFD) || 0x10000 ≤ n

/-- The characters that build collections between brackets. -/
def isFlowSign (c : Char) : Bool :=
  c == ',' || c == '[' || c == ']' || c == '{' || c == '}'

/-- The characters that no plain scalar starts with. -/
def isIndicator (c : Char) : Bool :=
  "-?:,[]\x7b\x7d#&*!|>'\"%@\x60".toList.contains c

/-- A character that belongs to a plain scalar wherever it stands in it. -/
def isPlainChar (inFlow : Bool) (c : Char) : Bool :=
  isVisible c && !(inFlow && isFlowSign c)

/-- The text starts with a character of a plain scalar. -/
def beforePlain (inFlow : Bool) : List Char → Bool
  | [] => false
  | c :: _ => isPlainChar inFlow c

/-- A plain scalar starts here. The signs `-`, `?` and `:` start one if a
character of the scalar follows. -/
def startsPlain (inFlow : Bool) : List Char → Bool
  | [] => false
  | c :: cs =>
    if c == '-' || c == '?' || c == ':' then beforePlain inFlow cs
    else isPlainChar inFlow c && !isIndicator c

/-- The separators behind the last character of a plain scalar, of which it is
not yet known whether the scalar goes on behind them. -/
structure Pause where
  held : List Char
  newLine : Bool
  /-- The end of the scalar if it does not go on. -/
  start : Place
  deriving DecidableEq, Repr

namespace Pause

/-- The pause with one more separator. -/
def add (c : Char) : Option Pause → Place → Pause
  | none, here => ⟨[c], isLineEnd c, here⟩
  | some p, _ => ⟨p.held ++ [c], p.newLine || isLineEnd c, p.start⟩

end Pause

/-- The rest of a plain scalar, from a place inside it, and the place behind
it. There is none where a colon turns the scalar into the key of a mapping. -/
def plainRest (inFlow : Bool) (floor : Nat) :
    Option Pause → Nat → List Char → Option (List Char × Place)
  | pause, column, [] => some ([], (pause.map (·.start)).getD ⟨column, []⟩)
  | pause, column, c :: cs =>
    let here : Place := ⟨column, c :: cs⟩
    let stop := (pause.map (·.start)).getD here
    let onNewLine := (pause.map (·.newLine)).getD false
    if isLineEnd c then plainRest inFlow floor (some (Pause.add c pause here)) 0 cs
    else if isInlineBlank c then
      plainRest inFlow floor (some (Pause.add c pause here)) (column + 1) cs
    else if onNewLine && (column < floor || here.atMarker) then some ([], stop)
    else if c == '#' && pause.isSome then some ([], stop)
    else if c == ':' && !beforePlain inFlow cs then none
    else if isPlainChar inFlow c then
      (plainRest inFlow floor none (column + 1) cs).map fun (text, after) =>
        ((pause.map (·.held)).getD [] ++ c :: text, after)
    else some ([], stop)

/-- The plain scalar that starts at a place. -/
def plain? (inFlow : Bool) (floor : Nat) (p : Place) : Option (List Char × Place) :=
  if startsPlain inFlow p.rest then
    match p.rest with
    | [] => none
    | c :: cs =>
      (plainRest inFlow floor none (p.column + 1) cs).map fun (text, after) =>
        (trim (c :: text), after)
  else none

/-- Where the reading of a quoted scalar stands. -/
inductive QuoteState
  /-- Inside a line. -/
  | inside
  /-- In the blanks that a further line starts with, behind `indent` spaces up
  to a tab. -/
  | lineStart (indent : Nat) (tabbed : Bool)
  /-- The next character stands for itself. -/
  | escaped
  /-- Behind `count` equal signs, three at most, with which a further line
  starts as a document marker would. -/
  | signs (sign : Char) (count : Nat)
  deriving DecidableEq, Repr

/-- What a character of a quoted scalar does. -/
inductive QuoteStep
  /-- It belongs to the scalar; the next one is read in `state` at `column`. -/
  | goOn (state : QuoteState) (column : Nat)
  /-- It is the closing quote. -/
  | close
  /-- It may not stand here. -/
  | refuse
  deriving DecidableEq, Repr

def isControl (c : Char) : Bool :=
  c.toNat < 0x20 && c != '\t'

namespace QuoteStep

/-- The step over a character inside a line; `next` is what follows it. -/
def inLine (quote : Char) (column : Nat) (c : Char) (next : List Char) : QuoteStep :=
  if isLineEnd c then .goOn (.lineStart 0 false) 0
  else if isControl c then .refuse
  else if c == '\\' && quote == '"' then .goOn .escaped (column + 1)
  else if c == quote then
    if quote == '\'' && next.head? == some '\'' then .goOn .escaped (column + 1) else .close
  else .goOn .inside (column + 1)

/-- The step over a character. On a further line the signs of a document
marker are read up to the first character that differs, which therefore stands
for itself, be it a quote, a backslash or a line end. -/
def of (quote : Char) (floor : Nat) (state : QuoteState) (column : Nat) (c : Char)
    (next : List Char) : QuoteStep :=
  match state with
  | .inside => inLine quote column c next
  | .lineStart indent tabbed =>
    if c == ' ' then .goOn (.lineStart (if tabbed then indent else indent + 1) tabbed) (column + 1)
    else if c == '\t' then .goOn (.lineStart indent true) (column + 1)
    else if !isLineEnd c && indent < floor then .refuse
    else if column == 0 && isMarkerSign c then .goOn (.signs c 1) (column + 1)
    else inLine quote column c next
  | .escaped =>
    if isLineEnd c then .goOn (.lineStart 0 false) 0
    else if isControl c then .refuse
    else .goOn .inside (column + 1)
  | .signs sign count =>
    if c == sign && count < 3 then .goOn (.signs sign (count + 1)) (column + 1)
    else if count == 3 && (isSeparator c || c == '\x00') then .refuse
    else .goOn .inside (column + 1)

end QuoteStep

/-- The text up to the closing quote, as it is written, and the place behind
the quote. -/
def quotedRest (quote : Char) (floor : Nat) :
    QuoteState → Nat → List Char → Option (List Char × Place)
  | _, _, [] => none
  | state, column, c :: cs =>
    match QuoteStep.of quote floor state column c cs with
    | .goOn state column =>
      (quotedRest quote floor state column cs).map fun (text, after) => (c :: text, after)
    | .close => some ([], ⟨column + 1, cs⟩)
    | .refuse => none

/-- The scalar that starts at a place, quotes removed. -/
def scalar? (inFlow : Bool) (floor : Nat) (p : Place) : Option (List Char × Place) :=
  match p.rest with
  | '"' :: cs => do
    let (inner, after) ← quotedRest '"' floor .inside (p.column + 1) cs
    let text ← unescape? inner
    some (text, after)
  | '\'' :: cs =>
    (quotedRest '\'' floor .inside (p.column + 1) cs).map fun (inner, after) =>
      (unquoteSingle inner, after)
  | _ => plain? inFlow floor p

end VersionPick.Yaml
