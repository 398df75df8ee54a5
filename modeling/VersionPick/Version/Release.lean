/-
The versions a catalogue lists: a complete version with optional build
metadata, read from `1.10.4`, `v1.0.5` or `1.11.0-rc1+a.b`.

Three parts are cut in this order: the build metadata at the first plus sign,
the pre-release at the first hyphen before it, the core. Each of the two
optional parts, once its sign is there, must not be empty.
-/
import VersionPick.Version
import VersionPick.Text.Blank

namespace VersionPick

open Text Version

/-- A version with the build metadata written after it, empty if there is none. -/
structure Release where
  version : Version
  build : List Char
  deriving DecidableEq, Repr

/-- The core of three dotted numerals. -/
def Core.ofText? (cs : List Char) : Option Core :=
  match (List.splitOn '.' cs).mapM Decimal.word? with
  | some [major, minor, patch] => some ⟨major, minor, patch⟩
  | _ => none

/-- The text before a sign and the text after it, which is not empty; without
the sign the text is whole. -/
def cutOptional? (sign : Char) (cs : List Char) : Option (List Char × List Char) :=
  match cutAt sign cs with
  | none => some (cs, [])
  | some (_, []) => none
  | some cut => some cut

namespace Release

/-- The release of a complete version text, without white space or sign in
front. -/
def ofText? (cs : List Char) : Option Release := do
  let (rest, build) ← cutOptional? '+' cs
  let (core, pre) ← cutOptional? '-' rest
  let core ← Core.ofText? core
  let pre ← Identifier.list? pre
  if isBuildText build then some ⟨⟨core, pre⟩, build⟩ else none

def unprefixed (cs : List Char) : List Char :=
  (List.isPrefixOf? ['v'] cs).getD cs

/-- Reads a catalogue entry: blanks around it and one leading `v` do not
matter. -/
def read? (entry : String) : Option Release :=
  ofText? (unprefixed (trim entry.toList))

end Release

end VersionPick
