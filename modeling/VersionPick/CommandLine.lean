/-
The program behind the command line: it reads the settings, resolves the
inputs and reports. It ends with status 0 and the outputs, with status 1 and
one command that tells what failed, or with status 2 if its arguments are not
accepted.
-/
import VersionPick.CommandLine.Options
import VersionPick.Remote.Download
import VersionPick.Remote.Nightlies
import VersionPick.Project.Lookup
import VersionPick.Resolve.Inputs

namespace VersionPick.CommandLine

open Text

/-- What the program runs on. -/
structure Host (m : Type → Type) where
  files : Files m
  client : Client m
  append : (path : String) → (text : String) → m (Except FileFault Unit)
  print : String → m Unit

inductive SettingsFault
  | file (fault : FileFault)
  | malformed
  deriving DecidableEq, Repr

def SettingsFault.message : SettingsFault → String
  | .file fault => fault.message
  | .malformed => "malformed document"

/-- Why the program ends with status 1. -/
inductive Trouble
  | settings (path : String) (fault : SettingsFault)
  /-- The long-term support line in the settings is no range. -/
  | badLts (e : InvalidRange)
  | resolution (failure : Failure)
  | output (fault : FileFault)
  deriving DecidableEq, Repr

namespace Trouble

/-- What is said, from the outermost to the innermost reason. -/
def reasons : Trouble → List String
  | .settings path fault => ["Failed to load config " ++ path, fault.message]
  | .badLts e => ["Invalid LTS version in config", e.message]
  | .resolution failure => failure.message :: failure.causes
  | .output fault => ["Failed to write action outputs", fault.message]

def command (t : Trouble) : String :=
  Command.tell .error (String.ofList (List.intercalate [':', ' '] (t.reasons.map String.toList)))

end Trouble

variable {m : Type → Type} [Monad m] (host : Host m)

def loadSettings : (config : Option String) → ExceptT Trouble m Settings
  | none => return .default
  | some path => do
    match ← host.files.read path with
    | .error fault => throw (.settings path (.file fault))
    | .ok text =>
      match Settings.read? text.toList with
      | some settings => return settings
      | none => throw (.settings path .malformed)

/-- The outcome of a download, as one of a resolution. -/
def ofFetch (fetch : m (Except FetchError α)) : ExceptT Failure m α := do
  match ← (fetch : m _) with
  | .ok a => return a
  | .error e => throw (.fetch e)

/-- The sources for a project, over files and network. -/
def sources (settings : Settings) (project : String) : Sources m where
  compat := Project.loadCompat host.files project
  pin := Project.loadPin host.files project
  available := do return (← ofFetch (host.client.fetchCatalogue settings)).versions
  hasNightly branch := ofFetch (host.client.probe settings branch)

/-- Resolves what the options ask for. -/
def resolve (options : Options) (environment : String → Option String) :
    ExceptT Trouble m Report := do
  let settings ← loadSettings host options.config
  let project := Project.path options.project (environment "JULIA_PROJECT")
  match settings.lts with
  | .error e => throw (.badLts e)
  | .ok lts =>
    let inputs : Inputs := ⟨options.version, options.ifMissing⟩
    match ← (inputs.resolve (sources host settings project) lts).run with
    | .ok report => return report
    | .error failure => throw (.resolution failure)

def printLine (line : String) : m Unit :=
  host.print (line ++ "\n")

def printLines : List String → m Unit
  | [] => pure ()
  | line :: lines => do
    printLine host line
    printLines lines

/-- Prints the warnings, and writes the outputs at the end of a file or prints
them too. -/
def deliver (report : Report) (destination : Option String) : ExceptT Trouble m Unit := do
  (printLines host report.warnings : m Unit)
  match destination with
  | none => host.print report.lines
  | some path =>
    match ← host.append path report.lines with
    | .ok () => return ()
    | .error fault => throw (.output fault)

def run (environment : String → Option String) (arguments : List String) : m UInt32 := do
  match Options.ofArguments? arguments environment with
  | none => return 2
  | some options =>
    let outcome ← (do
      let report ← resolve host options environment
      deliver host report (environment "GITHUB_OUTPUT") : ExceptT Trouble m Unit)
    match outcome with
    | .ok () => return 0
    | .error trouble =>
      printLine host trouble.command
      return 1

end VersionPick.CommandLine
