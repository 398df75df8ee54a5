/-
The host that an address names: a number in the short or in the long form, or a
name. Percent codes may stand for its characters. What ends in a numeral is a
short form or nothing.
-/
import VersionPick.Remote.Host.Name
import VersionPick.Remote.Host.Numeric

namespace VersionPick

open Text

/-- A host. -/
inductive Host
  | short (number : Nat)
  | long (groups : List Nat)
  | name (spelling : List Char)
  deriving DecidableEq, Repr

namespace Host

/-- The bytes of a text, percent codes read. -/
def octets : List Char → List UInt8
  | [] => []
  | '%' :: a :: b :: cs =>
    match Hex.digit? a, Hex.digit? b with
    | some x, some y => UInt8.ofNat (16 * x + y) :: octets cs
    | _, _ => String.utf8EncodeChar '%' ++ octets (a :: b :: cs)
  | c :: cs => String.utf8EncodeChar c ++ octets cs

/-- The host that a text without brackets names. -/
def open? (cs : List Char) : Option Host := do
  let text ← String.fromUTF8? ⟨(octets cs).toArray⟩
  let spelled ← name? text.toList
  let labels := List.splitOn '.' spelled
  if endsInNumber labels then (short? labels).map .short else some (.name spelled)

/-- The host that a text names. The long form stands in brackets. -/
def read? : List Char → Option Host
  | '[' :: cs => ((List.isSuffixOf? [']'] cs).bind long?).map .long
  | cs => open? cs

def text : Host → List Char
  | .short n =>
    List.intercalate ['.'] ([n / 0x1000000, n / 0x10000 % 256, n / 256 % 256, n % 256].map Decimal.write)
  | .long groups => List.intercalate [':'] (groups.map (Nat.toDigits 16))
  | .name spelling => spelling

end Host

end VersionPick
