/-
Picking from a list of entries: the first of those that no other beats. An
entry that is no release is passed over, and the picked entry is given as it
is written in the list.
-/
import VersionPick.Range
import VersionPick.Version.Release

namespace VersionPick

/-- The first element of those that no other beats: a later one takes the
place of the best so far only if it beats it. -/
def firstBest (beats : α → α → Bool) : List α → Option α
  | [] => none
  | a :: as => some (as.foldl (fun best b => if beats b best then b else best) a)

/-- A catalogue entry as it is written, with the release it denotes. -/
structure Entry where
  written : String
  release : Release
  deriving DecidableEq, Repr

namespace Entry

/-- The entries that denote releases, in the order of the list. -/
def list (entries : List String) : List Entry :=
  entries.filterMap fun written => (Release.read? written).map (Entry.mk written)

/-- The first of the entries of greatest precedence, as written. -/
def greatest (entries : List Entry) : Option String :=
  (firstBest (fun a b => (compare a.release.version b.release.version).isGT) entries).map (·.written)

/-- The first of the entries of least precedence, as written. -/
def least (entries : List Entry) : Option String :=
  (firstBest (fun a b => (compare a.release.version b.release.version).isLT) entries).map (·.written)

end Entry

namespace Range

/-- The entries whose release is in the range. -/
def entries (r : Range) (available : List String) : List Entry :=
  (Entry.list available).filter fun e => r.admits e.release.version

/-- The first of the greatest entries in the range. -/
def greatest (r : Range) (available : List String) : Option String :=
  Entry.greatest (r.entries available)

/-- The first of the least entries in the range. -/
def least (r : Range) (available : List String) : Option String :=
  Entry.least (r.entries available)

end Range

end VersionPick
