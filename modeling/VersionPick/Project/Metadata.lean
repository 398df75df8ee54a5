/-
What project and manifest files say that matters here: the entry `julia` of
the table `compat`, and the top-level entry `julia_version`. Other entries are
not looked at.
-/
import VersionPick.Toml.Reader

namespace VersionPick

open Toml

structure Metadata where
  /-- The compat entry for Julia, as it is written. -/
  compat : Option String
  /-- The version of Julia that a manifest was resolved with. -/
  pin : Option String
  deriving DecidableEq, Repr

namespace Metadata

/-- An entry that is a text if it is there; none if it is something else. -/
def textEntry? (key : String) (entries : Entries) : Option (Option String) :=
  match entries.lookup key with
  | none => some none
  | some (.text s) => some (some s)
  | some _ => none

/-- The compat entry in the value of `compat`. An array gives the entry as its
first element. -/
def compatEntry? : Value → Option (Option String)
  | .table _ entries => textEntry? "julia" entries
  | .array (.text s :: _) => some (some s)
  | .dateTime => some none
  | _ => none

/-- The metadata in the entries of a document, if they have the types that are
expected. -/
def ofEntries? (entries : Entries) : Option Metadata := do
  let compat ← match entries.lookup "compat" with
    | some v => compatEntry? v
    | none => some none
  let pin ← textEntry? "julia_version" entries
  some ⟨compat, pin⟩

/-- What is wrong with a text that has no metadata. -/
inductive Defect
  | malformed
  /-- An entry has a value of another type than expected. -/
  | wrongType
  deriving DecidableEq, Repr

def Defect.message : Defect → String
  | .malformed => "malformed document"
  | .wrongType => "entry of the wrong type"

def ofText (text : String) : Except Defect Metadata :=
  match readDocument? text.toList with
  | none => .error .malformed
  | some entries =>
    match ofEntries? entries with
    | none => .error .wrongType
    | some m => .ok m

end Metadata

end VersionPick
