/-
From the inputs of a user to the report. The inputs are read before anything
is asked for.
-/
import VersionPick.Resolve.Batch
import VersionPick.Report

namespace VersionPick

/-- The inputs of a user, as they are given. -/
structure Inputs where
  version : String
  ifMissing : String
  deriving DecidableEq, Repr

namespace Report

/-- The texts of the specifiers that have no version. -/
def missingOf : List Specifier → List (Option String) → List String
  | s :: specifiers, none :: resolved => s.text :: missingOf specifiers resolved
  | _ :: specifiers, some _ :: resolved => missingOf specifiers resolved
  | _, _ => []

/-- The report on specifiers and what they resolved to. -/
def ofSpecifiers (specifiers : List Specifier) (resolved : List (Option String)) : Report :=
  { ofResolved resolved with missing := missingOf specifiers resolved }

end Report

namespace Inputs

def read (inputs : Inputs) : Except Failure (List Specifier × Policy) :=
  match Specifier.listOfInput inputs.version with
  | .error e => .error (.input e)
  | .ok specifiers =>
    match Policy.ofInput inputs.ifMissing with
    | .error e => .error (.input e)
    | .ok policy => .ok (specifiers, policy)

def resolve [Monad m] (inputs : Inputs) (sources : Sources m) (lts : Range) :
    ExceptT Failure m Report := do
  let (specifiers, policy) ← inputs.read
  let resolved ← sources.resolve lts policy specifiers
  return .ofSpecifiers specifiers resolved

end Inputs

end VersionPick
