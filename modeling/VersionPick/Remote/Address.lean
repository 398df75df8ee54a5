/-
Web addresses: a scheme, a host, perhaps with a number, and what the host is
asked for. What stands in front of the host up to a sign `@` names a user, and
does not matter here.
-/
import VersionPick.Remote.Host
import VersionPick.Remote.Target

namespace VersionPick

open Text

structure Address where
  /-- The connection to the host is secured. -/
  secured : Bool
  host : Host
  /-- The number behind the host. -/
  number : Nat
  /-- What the host is asked for. -/
  target : List Char
  deriving DecidableEq, Repr

namespace Address

/-- A control character or the space. -/
def isIdle (c : Char) : Bool :=
  c ≤ ' '

/-- The text without idle characters around it and line ends or tabs inside. -/
def clean (cs : List Char) : List Char :=
  ((cs.dropWhile isIdle).reverse.dropWhile isIdle).reverse.filter fun c =>
    c != '\t' && c != '\n' && c != '\r'

/-- A character that ends the part with the host. -/
def endsHost (c : Char) : Bool :=
  c == '/' || c == '\\' || c == '?' || c == '#'

/-- Whether connections of a scheme are secured, if it is one of the web. -/
def secured? (scheme : List Char) : Option Bool :=
  match String.ofList (scheme.map Char.toLower) with
  | "http" => some false
  | "https" => some true
  | _ => none

/-- The number that stands behind a host by default. -/
def usualNumber (secured : Bool) : Nat :=
  if secured then 443 else 80

/-- The number behind a host: the usual one, or a numeral of sixteen bits. -/
def number? (secured : Bool) (written : Option (List Char)) : Option Nat :=
  match written with
  | none => some (usualNumber secured)
  | some [] => some (usualNumber secured)
  | some cs => (Decimal.read? cs).filter (· < 65536)

/-- The text of a host, and the text behind the colon that may follow it.
Colons between brackets do not count. -/
def cutNumber (inBrackets : Bool) : List Char → List Char × Option (List Char)
  | [] => ([], none)
  | c :: cs =>
    if c == ':' && !inBrackets then ([], some cs)
    else
      let (host, number) := cutNumber (c == '[' || (inBrackets && c != ']')) cs
      (c :: host, number)

/-- The greatest length of an address. -/
def lengthLimit : Nat := 65534

/-- The address that a text writes. -/
def parse? (written : List Char) : Option Address := do
  let (scheme, rest) ← cutAt ':' (clean written)
  let secured ← secured? scheme
  let rest := rest.dropWhile fun c => c == '/' || c == '\\'
  let authority := rest.takeWhile (!endsHost ·)
  let rest := rest.dropWhile (!endsHost ·)
  let hostPart := (authority.reverse.takeWhile (· != '@')).reverse
  let (hostText, numberText) := cutNumber false hostPart
  let host ← Host.read? hostText
  let number ← number? secured numberText
  let target := Target.ofRest rest
  let length := scheme.length + "://".length + hostPart.length + target.length +
    (Target.fragment rest).length
  if length ≤ lengthLimit then some ⟨secured, host, number, target⟩ else none

def sameServer (a b : Address) : Bool :=
  a.secured == b.secured && a.host == b.host && a.number == b.number

end Address

end VersionPick
