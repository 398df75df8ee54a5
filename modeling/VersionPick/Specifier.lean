/-
Version specifiers: what a user may ask for. A text is classified without
being checked: a nightly build, an alias, an exact version, or else a range,
which then may turn out to be none. No class loses the text it came from.
-/
import VersionPick.Version.Release
import VersionPick.Text.DigitClass

namespace VersionPick

open Text

/-- Names for versions that a project or the catalogue decides. -/
inductive Alias
  /-- The latest release of the long-term support line. -/
  | lts
  /-- The earliest release that the project is compatible with. -/
  | min
  /-- The version that the project's manifest was resolved with. -/
  | manifest
  /-- The latest version, pre-releases included; never accepted from a user. -/
  | pre
  deriving DecidableEq, Repr

namespace Alias

def text : Alias → String
  | .lts => "lts"
  | .min => "min"
  | .manifest => "manifest"
  | .pre => "pre"

def all : List Alias := [.lts, .min, .manifest, .pre]

end Alias

/-- A classified specifier. -/
inductive Specifier
  /-- A complete version, with or without a `v` in front. -/
  | exact (text : String)
  /-- A text that is meant as a range. -/
  | range (text : String)
  | alias (a : Alias)
  /-- The nightly build, of the given release branch if there is one. -/
  | nightly (branch : Option String)
  deriving DecidableEq, Repr

namespace Specifier

def text : Specifier → String
  | .exact s => s
  | .range s => s
  | .alias a => a.text
  | .nightly none => "nightly"
  | .nightly (some branch) => branch ++ "-nightly"

/-- Two runs of decimal digits, of any script, with a dot between them. -/
def isBranch (cs : List Char) : Bool :=
  match List.splitOn '.' cs with
  | [major, minor] =>
    !major.isEmpty && major.all isDecimalDigit && !minor.isEmpty && minor.all isDecimalDigit
  | _ => false

/-- The release branch in front of `-nightly`. -/
def branch? (cs : List Char) : Option (List Char) :=
  (List.isSuffixOf? "-nightly".toList cs).filter isBranch

def classify (raw : String) : Specifier :=
  if raw = "nightly" then .nightly none
  else match branch? raw.toList with
    | some branch => .nightly (some (String.ofList branch))
    | none =>
      match Alias.all.find? (·.text == raw) with
      | some a => .alias a
      | none =>
        if (Release.ofText? (Release.unprefixed raw.toList)).isSome then .exact raw
        else .range raw

end Specifier

end VersionPick
