/-
Paths as they are written. Nothing is normalised: a joined path starts with
the text of its folder, and the parent of a path is a part of its text.
-/
import VersionPick.Text.Pieces

namespace VersionPick.Path

open Text

def join (folder name : String) : String :=
  if folder = "" ∨ folder.toList.getLast? = some '/' then folder ++ name
  else folder ++ "/" ++ name

/-- The pieces of a path from the last one on, without those in front that
name nothing. What a path starts with always counts. -/
def dropIdle : List (List Char) → List (List Char)
  | [] => []
  | [first] => [first]
  | piece :: before :: pieces =>
    if piece.isEmpty || piece == ['.'] then dropIdle (before :: pieces)
    else piece :: before :: pieces

/-- The path up to its last name, without what separates the two. The empty
path and the root have none. -/
def parent? (path : String) : Option String :=
  match dropIdle (List.splitOn '/' path.toList).reverse with
  | [] => none
  | [first] => if first.isEmpty then none else some ""
  | _ :: pieces =>
    match dropIdle pieces with
    | [[]] => some "/"
    | pieces => some (String.ofList (List.intercalate ['/'] pieces.reverse))

end VersionPick.Path
