/-
Version ranges in normal form: alternatives, each a list of comparators that
must all hold. The empty list of comparators holds of every release (`*`).

Pre-releases have to be asked for: an alternative admits one only if a
comparator of the same alternative names a pre-release of the same core.
-/
import VersionPick.Version

namespace VersionPick

/-- How a version stands to the version of a comparator. -/
inductive Relation
  | eq | gt | ge | lt | le
  deriving DecidableEq, Repr

namespace Relation

/-- Whether two versions whose precedence compares as `o` stand so. -/
def holds : Relation → Ordering → Bool
  | .eq, o => o.isEq
  | .gt, o => o.isGT
  | .ge, o => o.isGE
  | .lt, o => o.isLT
  | .le, o => o.isLE

/-- The sign in front of the version; equality has none. -/
def sign : Relation → List Char
  | .eq => []
  | .gt => ['>']
  | .ge => ['>', '=']
  | .lt => ['<']
  | .le => ['<', '=']

end Relation

/-- A single comparison such as `>=1.2.0`. -/
structure Comparator where
  relation : Relation
  version : Version
  deriving DecidableEq, Repr

namespace Comparator

/-- The version stands to the comparator's version as its relation says. -/
def admits (c : Comparator) (v : Version) : Bool :=
  c.relation.holds (compare v c.version)

/-- The comparator asks for pre-releases of the version's core. -/
def opensTo (c : Comparator) (v : Version) : Bool :=
  !c.version.isRelease && c.version.core == v.core

end Comparator

/-- One alternative of a range: comparators that must all hold. -/
abbrev Alternative := List Comparator

namespace Alternative

/-- Every comparator admits the version, and if it is a pre-release, one of
them asks for it. -/
def admits (cs : Alternative) (v : Version) : Bool :=
  cs.all (·.admits v) && (v.isRelease || cs.any (·.opensTo v))

end Alternative

/-- A range: a version is in it when some alternative admits it. -/
structure Range where
  alternatives : List Alternative
  deriving DecidableEq, Repr

namespace Range

def any : Range := ⟨[[]]⟩

/-- Some alternative admits the version. -/
def admits (r : Range) (v : Version) : Bool :=
  r.alternatives.any (Alternative.admits · v)

end Range

end VersionPick
