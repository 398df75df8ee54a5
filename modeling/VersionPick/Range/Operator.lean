/-
The operators of ranges, and what each makes of a partial version: between no
and two comparators.

An upper bound that a partial version leaves open is the lowest pre-release of
the next core, so that no pre-release of that core slips in below it. The next
number of the largest word is that word itself.
-/
import VersionPick.Range
import VersionPick.Range.Partial

namespace VersionPick

open Version

/-- What may stand before a partial version. A version without sign is
compared for equality. -/
inductive Operator
  | compare (r : Relation)
  | tilde
  | caret
  deriving DecidableEq, Repr

/-- The next number; the largest word has none and stays. -/
def nextNumber (n : UInt64) : UInt64 :=
  if n = 18446744073709551615 then n else n + 1

namespace Partial

/-- Comparators for "at least `low` and below the pre-releases of a core". -/
def between (low : Version) (major minor patch : UInt64) : Alternative :=
  [⟨.ge, low⟩, ⟨.lt, .lowest major minor patch⟩]

/-- The versions that agree with all the numbers given. -/
def within : Partial → Alternative
  | .any => []
  | .major a => between (.release a 0 0) (nextNumber a) 0 0
  | .minor a b => between (.release a b 0) a (nextNumber b) 0
  | .full v => [⟨.eq, v⟩]

/-- Above everything that agrees with the numbers given. -/
def above : Partial → Alternative
  | .any => [⟨.lt, .lowest 0 0 0⟩]
  | .major a => [⟨.ge, .release (nextNumber a) 0 0⟩]
  | .minor a b => [⟨.ge, .release a (nextNumber b) 0⟩]
  | .full v => [⟨.gt, v⟩]

/-- From the first version that agrees with the numbers given. -/
def atLeast : Partial → Alternative
  | .any => []
  | .major a => [⟨.ge, .release a 0 0⟩]
  | .minor a b => [⟨.ge, .release a b 0⟩]
  | .full v => [⟨.ge, v⟩]

/-- Below everything that agrees with the numbers given. -/
def below : Partial → Alternative
  | .any => [⟨.lt, .lowest 0 0 0⟩]
  | .major a => [⟨.lt, .lowest a 0 0⟩]
  | .minor a b => [⟨.lt, .lowest a b 0⟩]
  | .full v => [⟨.lt, v⟩]

/-- Up to the last version that agrees with the numbers given. -/
def atMost : Partial → Alternative
  | .any => []
  | .major a => [⟨.lt, .lowest (nextNumber a) 0 0⟩]
  | .minor a b => [⟨.lt, .lowest a (nextNumber b) 0⟩]
  | .full v => [⟨.le, v⟩]

/-- At least this version, with the same major and minor number as far as they
are given. -/
def tilde : Partial → Alternative
  | .full v => between v v.core.major (nextNumber v.core.minor) 0
  | p => p.within

/-- At least this version, with the same numbers up to the first that is not
zero. -/
def caret : Partial → Alternative
  | .any => []
  | .major a => between (.release a 0 0) (nextNumber a) 0 0
  | .minor a b =>
    if a = 0 then between (.release a b 0) 0 (nextNumber b) 0
    else between (.release a b 0) (nextNumber a) 0 0
  | .full v =>
    if v.core.major ≠ 0 then between v (nextNumber v.core.major) 0 0
    else if v.core.minor ≠ 0 then between v 0 (nextNumber v.core.minor) 0
    else between v 0 0 (nextNumber v.core.patch)

/-- The hyphen range from one partial version to another, both included. -/
def upTo (low high : Partial) : Alternative :=
  low.atLeast ++ high.atMost

end Partial

namespace Operator

/-- What an operator makes of the partial version behind it. -/
def apply : Operator → Partial → Alternative
  | .compare .eq, p => p.within
  | .compare .gt, p => p.above
  | .compare .ge, p => p.atLeast
  | .compare .lt, p => p.below
  | .compare .le, p => p.atMost
  | .tilde, p => p.tilde
  | .caret, p => p.caret

/-- The signs of operators with what they mean, those of two characters before
those that they start with. -/
def signs : List (List Char × Operator) := [
  (['~', '>'], .tilde),
  (['~'], .tilde),
  (['^'], .caret),
  (['>', '='], .compare .ge),
  (['<', '='], .compare .le),
  (['>'], .compare .gt),
  (['<'], .compare .lt),
  (['='], .compare .eq)]

def isSign (cs : List Char) : Bool :=
  signs.any (·.1 == cs)

end Operator

end VersionPick
