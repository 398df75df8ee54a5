/-
Versions as a range writes them: with fewer than three numbers, or with
wildcards (`x`, `X`, `*`) in their place. What counts is the numbers before
the first one that is missing, so a partial version is one of four things;
a pre-release counts only behind three numbers.
-/
import VersionPick.Version

namespace VersionPick

open Text Version

inductive Partial
  | any
  | major (a : UInt64)
  | minor (a b : UInt64)
  | full (v : Version)
  deriving DecidableEq, Repr

namespace Partial

/-- The partial version of its numbers, `none` standing for a wildcard. -/
def ofNumbers : List (Option UInt64) → List Identifier → Partial
  | some a :: some b :: some c :: _, pre => .full ⟨⟨a, b, c⟩, pre⟩
  | some a :: some b :: _, _ => .minor a b
  | some a :: _, _ => .major a
  | _, _ => .any

/-- One dotted component: a wildcard, or a numeral without leading zeros. -/
def number? (cs : List Char) : Option (Option UInt64) :=
  if cs == ['x'] || cs == ['X'] || cs == ['*'] then some none
  else (Decimal.word? cs).map some

/-- The text before a sign, and the text after it if the sign is there. -/
def cut (sign : Char) (cs : List Char) : List Char × Option (List Char) :=
  match cutAt sign cs with
  | some (before, behind) => (before, some behind)
  | none => (cs, none)

/-- The text without the `v` and `=` characters in front. -/
def bare (cs : List Char) : List Char :=
  cs.dropWhile fun c => c == 'v' || c == '='

/-- Reads a version of one to three components. Pre-release and build metadata
need all three; either may be empty behind its sign, and build metadata is
checked and dropped. -/
def read? (cs : List Char) : Option Partial := do
  let (front, build) := cut '+' (bare cs)
  let (core, pre) := cut '-' front
  let parts := List.splitOn '.' core
  let numbers ← parts.mapM number?
  let ids ← Identifier.list? (pre.getD [])
  let complete := parts.length == 3 || (pre.isNone && build.isNone)
  if complete && parts.length ≤ 3 && isBuildText (build.getD []) then some (ofNumbers numbers ids)
  else none

end Partial

end VersionPick
