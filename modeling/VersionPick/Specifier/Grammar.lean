/-
The specifiers that are accepted from a user: one to three dotted numerals
with an optional `^` or `~` in front, a nightly build, or one of the aliases
`lts`, `min` and `manifest`. Digits are ASCII here and leading zeros allowed.
-/
import VersionPick.Specifier

namespace VersionPick.Specifier

open Text

def isDottedNumerals (cs : List Char) : Bool :=
  let parts := List.splitOn '.' cs
  parts.length ≤ 3 && parts.all Decimal.isNumeral

def isNumeralPair (cs : List Char) : Bool :=
  let parts := List.splitOn '.' cs
  parts.length == 2 && parts.all Decimal.isNumeral

def withoutSign : List Char → List Char
  | c :: cs => if c == '^' || c == '~' then cs else c :: cs
  | [] => []

def isNumericSpecifier (cs : List Char) : Bool :=
  isDottedNumerals (withoutSign cs)

/-- A nightly build, perhaps of a release branch. -/
def isNightlySpecifier (cs : List Char) : Bool :=
  cs == "nightly".toList ||
    match List.isSuffixOf? "-nightly".toList cs with
    | some branch => isNumeralPair branch
    | none => false

def isAliasSpecifier (cs : List Char) : Bool :=
  cs == "lts".toList || cs == "min".toList || cs == "manifest".toList

/-- A text that users may write as a specifier. -/
def isSpecifier (cs : List Char) : Bool :=
  isNumericSpecifier cs || isNightlySpecifier cs || isAliasSpecifier cs

end VersionPick.Specifier
