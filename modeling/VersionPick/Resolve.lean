/-
Resolving one specifier against what is known: the listed versions, the
long-term support line, the project's compat range and its manifest's pin.

No match is the answer `none`; whether that matters is the caller's business,
and so is whether a nightly build exists.
-/
import VersionPick.Specifier
import VersionPick.Range.Reader
import VersionPick.Range.Pick
import VersionPick.Resolve.Failure

namespace VersionPick

/-- What specifiers are resolved against. -/
structure Known where
  lts : Range
  available : List String
  /-- The project's compat range, when it was asked for. -/
  compat : Option Range
  /-- The version in the project's manifest. -/
  pin : Option String
  deriving Repr

/-- The listed version equal to an exact one. The same text comes first; then
the first entry that denotes the same release, build metadata included. -/
def findExact (text : String) (available : List String) : Option String :=
  match available.find? (· == text) with
  | some entry => some entry
  | none => do
    let wanted ← Release.read? text
    available.find? fun entry => Release.read? entry == some wanted

namespace Known

/-- The version that a specifier picks. -/
def resolve (known : Known) : Specifier → Except Failure (Option String)
  | .exact text => .ok (findExact text known.available)
  | .range text => .ok ((Range.read? text.toList).bind (·.greatest known.available))
  | .alias .lts => .ok (known.lts.greatest known.available)
  | .alias .min =>
    match known.compat with
    | some compat => .ok (compat.least known.available)
    | none => .error .noCompatRange
  | .alias .manifest => .ok (known.pin.filter (· ≠ ""))
  | .alias .pre => .ok (Entry.greatest (Entry.list known.available))
  | .nightly _ => .ok none

end Known

end VersionPick
