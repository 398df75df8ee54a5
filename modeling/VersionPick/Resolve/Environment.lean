/-
An environment in which everything that can be asked for is given beforehand:
a tree with a project in it, how the download of the catalogue ends, and what
probing a nightly build says. It keeps a record of what it was asked for.
-/
import VersionPick.Resolve.Batch
import VersionPick.Project.Lookup
import VersionPick.Catalogue

namespace VersionPick

/-- Something that a resolution asks for. -/
inductive Effect
  | readCompat
  | readPin
  | fetchCatalogue
  | probe (branch : String)
  deriving DecidableEq, Repr

/-- A computation that keeps a record of its effects, in their order. -/
abbrev Recorded := StateM (List Effect)

/-- The answers that a resolution gets. -/
structure Environment where
  tree : Tree
  project : String
  catalogue : Except FetchError Catalogue
  nightly : String → Except FetchError Bool

namespace Environment

def record (e : Effect) : ExceptT Failure Recorded Unit :=
  modify (· ++ [e])

def ofFetch : Except FetchError α → ExceptT Failure Recorded α
  | .ok a => return a
  | .error e => throw (.fetch e)

/-- The sources that give the answers of an environment. -/
def sources (e : Environment) : Sources Recorded where
  compat := do
    record .readCompat
    Project.loadCompat e.tree.files e.project
  pin := do
    record .readPin
    Project.loadPin e.tree.files e.project
  available := do
    record .fetchCatalogue
    return (← ofFetch e.catalogue).versions
  hasNightly branch := do
    record (.probe branch)
    ofFetch (e.nightly branch)

end Environment

end VersionPick
