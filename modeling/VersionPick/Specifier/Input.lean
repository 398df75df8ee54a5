/-
The inputs of a user: the specifiers, as a YAML scalar or list of scalars, and
the policy for specifiers that no version matches.
-/
import VersionPick.Specifier.Grammar
import VersionPick.Yaml.ScalarList

namespace VersionPick

open Text

/-- What is done about a specifier that no version matches. -/
inductive Policy
  /-- Its place stays empty, with a warning. -/
  | warn
  /-- Nothing is resolved. -/
  | error
  deriving DecidableEq, Repr

/-- An input cannot be used. -/
inductive InputError
  | unreadable (raw : String)
  | notSpecifier (value : String)
  | notPolicy (value : String)
  deriving DecidableEq, Repr

def InputError.message : InputError → String
  | .unreadable raw => "Unable to parse \"version\" input:\n" ++ raw
  | .notSpecifier value => "Invalid version specifier provided: \"" ++ value ++ "\""
  | .notPolicy value =>
    "Invalid \"if-missing\" input: \"" ++ value ++ "\" (expected \"warn\" or \"error\")"

namespace Policy

def ofName (name : String) : Except InputError Policy :=
  if name = "warn" then .ok .warn
  else if name = "error" then .ok .error
  else .error (.notPolicy name)

def name : Policy → String
  | .warn => "warn"
  | .error => "error"

/-- The policy of an input, where blanks do not matter and nothing at all
means `error`. -/
def ofInput (raw : String) : Except InputError Policy :=
  let name := String.ofList (trim raw.toList)
  if name = "" then .ok .error else ofName name

end Policy

namespace Specifier

def ofScalar (cs : List Char) : Except InputError Specifier :=
  if isSpecifier cs then .ok (classify (String.ofList cs))
  else .error (.notSpecifier (String.ofList cs))

/-- The specifiers of an input. The whole list is read before the first of its
scalars is looked at. -/
def listOfInput (raw : String) : Except InputError (List Specifier) :=
  let text := trim raw.toList
  match Yaml.readScalars? text with
  | none => .error (.unreadable (String.ofList text))
  | some scalars => scalars.mapM ofScalar

end Specifier

end VersionPick
