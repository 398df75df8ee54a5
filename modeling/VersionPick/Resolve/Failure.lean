/-
The failures of a resolution. Each has one message, shown as it is; `causes`
are the messages of the failures behind it.
-/
import VersionPick.Specifier.Input
import VersionPick.Remote.Failure
import VersionPick.Files.Fault

namespace VersionPick

/-- A resolution failed. -/
inductive Failure
  | input (e : InputError)
  | fetch (e : FetchError)
  /-- A project or manifest file is no TOML document of the expected shape. -/
  | notToml (detail : String)
  | badCompat (entry : String)
  | noProjectFile (project : String)
  | noManifestFile (project : String)
  | noCompatRange
  | noMatch (specifier : String)
  | unreadable (path : String) (fault : FileFault)
  deriving DecidableEq, Repr

namespace Failure

def message : Failure → String
  | .input e => e.message
  | .fetch e => e.message
  | .notToml detail => "Invalid TOML: " ++ detail
  | .badCompat entry => "Invalid version range found in Julia compat: " ++ entry
  | .noProjectFile project => "Unable to locate Julia project file with project: " ++ project
  | .noManifestFile project => "Unable to locate Julia manifest file with project: " ++ project
  | .noCompatRange =>
    "Unable to use version \"min\" when the Julia project file does not specify a compat for Julia"
  | .noMatch specifier => "No Julia version exists matching specifier: \"" ++ specifier ++ "\""
  | .unreadable path fault => "Failed to read " ++ path ++ ": " ++ fault.message

/-- The messages of the failures behind this one, nearest first. -/
def causes : Failure → List String
  | .fetch e => e.causes
  | .unreadable _ fault => [fault.message]
  | _ => []

end Failure

end VersionPick
