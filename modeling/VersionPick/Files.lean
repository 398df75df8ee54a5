/-
Files as a resolution sees them: it asks what a path leads to, and reads.
`Tree.files` answers from a tree that does not change meanwhile.
-/
import VersionPick.Files.Tree

namespace VersionPick

/-- Answers to questions about paths. -/
structure Files (m : Type → Type) where
  isFile : String → m Bool
  isFolder : String → m Bool
  read : String → m (Except FileFault String)

def Tree.files [Pure m] (t : Tree) : Files m where
  isFile path := pure (t.isFile path)
  isFolder path := pure (t.isFolder path)
  read path := pure (t.read path)

end VersionPick
