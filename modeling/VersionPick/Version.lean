/-
Versions and their precedence. A version is a core of three numbers and the
identifiers of its pre-release; build metadata is no part of it, because it
has no say in precedence (`Release` keeps it beside the version).

`compare` is the precedence: cores first, then a version without pre-release
stands after those with one, then the identifiers from left to right. Two
versions of equal precedence are the same version.
-/
import VersionPick.Version.Identifier
import VersionPick.Text.Decimal

namespace VersionPick

open Text Version

/-- The numbers of a version, each a 64-bit word. -/
structure Core where
  major : UInt64
  minor : UInt64
  patch : UInt64
  deriving DecidableEq, Repr

namespace Core

/-- Cores compare number by number. -/
def compare (a b : Core) : Ordering :=
  (Ord.compare a.major b.major).then
    ((Ord.compare a.minor b.minor).then (Ord.compare a.patch b.patch))

instance : Ord Core := ⟨Core.compare⟩

def text (c : Core) : List Char :=
  List.intercalate ['.'] [Decimal.writeWord c.major, Decimal.writeWord c.minor, Decimal.writeWord c.patch]

end Core

/-- A version: its core and the identifiers of its pre-release, of which a
release has none. -/
structure Version where
  core : Core
  pre : List Identifier
  deriving DecidableEq, Repr

namespace Version

/-- A pre-release stands before its release; two compare by their identifiers. -/
def comparePre : List Identifier → List Identifier → Ordering
  | [], [] => .eq
  | [], _ :: _ => .gt
  | _ :: _, [] => .lt
  | is, js => compare is js

def compare (v w : Version) : Ordering :=
  (Ord.compare v.core w.core).then (comparePre v.pre w.pre)

instance : Ord Version := ⟨Version.compare⟩

def isRelease (v : Version) : Bool :=
  v.pre.isEmpty

def release (major minor patch : UInt64) : Version :=
  ⟨⟨major, minor, patch⟩, []⟩

/-- The lowest pre-release of a core: every version below its release and above
all of these is another pre-release of the same core. -/
def lowest (major minor patch : UInt64) : Version :=
  ⟨⟨major, minor, patch⟩, [.lowest]⟩

def text (v : Version) : List Char :=
  v.core.text ++ if v.pre.isEmpty then [] else '-' :: Identifier.listText v.pre

end Version

end VersionPick
