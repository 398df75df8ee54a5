/-
The dot-separated identifiers of a pre-release (`rc1`, `0`, `beta-2`) and
their precedence: identifiers of digits only are numbers and stand before all
others, which compare as texts.

An identifier of digits has no leading zero, so its number fixes its text and
the order below is an order on texts: a longer numeral is a larger number.
-/
import VersionPick.Text.Pieces

namespace VersionPick.Version

open Text

/-- The characters of identifiers: ASCII letters, digits and the hyphen. -/
def isIdentifierChar (c : Char) : Bool :=
  c.isAlphanum || c == '-'

def isNumericText (cs : List Char) : Bool :=
  cs.all Char.isDigit

/-- The texts of pre-release identifiers: not empty, of identifier characters,
and a numeral has no leading zero unless it is `0`. -/
def isIdentifierText (cs : List Char) : Bool :=
  !cs.isEmpty && cs.all isIdentifierChar &&
    !(isNumericText cs && cs.head? == some '0' && cs != ['0'])

structure Identifier where
  text : List Char
  isText : isIdentifierText text = true := by decide
  deriving DecidableEq, Repr

namespace Identifier

def ofText? (cs : List Char) : Option Identifier :=
  if h : isIdentifierText cs = true then some ⟨cs, h⟩ else none

def isNumeric (i : Identifier) : Bool :=
  isNumericText i.text

/-- Numbers first, by value; then the other identifiers, as texts. -/
def compare (i j : Identifier) : Ordering :=
  match i.isNumeric, j.isNumeric with
  | true, true => (Ord.compare i.text.length j.text.length).then (Ord.compare i.text j.text)
  | true, false => .lt
  | false, true => .gt
  | false, false => Ord.compare i.text j.text

instance : Ord Identifier := ⟨Identifier.compare⟩

/-- The identifier `0`, the lowest there is. -/
def lowest : Identifier where
  text := ['0']

end Identifier

/-- The identifiers of a pre-release, read from the text after its hyphen. The
empty text has none. -/
def Identifier.list? (cs : List Char) : Option (List Identifier) :=
  if cs.isEmpty then some [] else (List.splitOn '.' cs).mapM Identifier.ofText?

def Identifier.listText (ids : List Identifier) : List Char :=
  List.intercalate ['.'] (ids.map Identifier.text)

/-- The texts of build metadata after its plus sign: as for pre-releases, but
numerals may have leading zeros. The empty text is one. -/
def isBuildText (cs : List Char) : Bool :=
  cs.isEmpty || (List.splitOn '.' cs).all fun part => !part.isEmpty && part.all isIdentifierChar

end VersionPick.Version
