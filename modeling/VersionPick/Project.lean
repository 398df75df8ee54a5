/-
Projects: the path of a project among the inputs, and what its metadata mean
for a resolution.
-/
import VersionPick.Project.Metadata
import VersionPick.CompatEntry
import VersionPick.Resolve.Failure

namespace VersionPick.Project

open Text

/-- An input without the blanks around it, unless nothing is left of it. -/
def given? (input : Option String) : Option String :=
  (input.map fun s => String.ofList (trim s.toList)).filter (· ≠ "")

/-- The path of the project: the input, else the one of the environment, else
the working directory. -/
def path (input environment : Option String) : String :=
  ((given? input).or (given? environment)).getD "."

/-- The range of the versions a project is compatible with. A project that
does not say so is compatible with every version. -/
def compatRange (entry : Option String) : Except Failure Range :=
  match entry with
  | none => .ok .any
  | some raw =>
    match CompatEntry.range? raw with
    | some r => .ok r
    | none => .error (.badCompat raw)

end VersionPick.Project
