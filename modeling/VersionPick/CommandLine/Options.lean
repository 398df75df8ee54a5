/-
The options of the command line. Each is given at most once, with its value
behind an equals sign or as the next argument; some have a variable of the
environment that stands in for them.
-/
import VersionPick.Text.Pieces

namespace VersionPick.CommandLine

open Text

/-- An option that takes a value. -/
inductive OptionName
  | version
  | project
  | ifMissing
  | config
  | logFormat
  deriving DecidableEq, Repr

namespace OptionName

/-- The option as it is written behind two hyphens. -/
def text : OptionName → String
  | .version => "version"
  | .project => "project"
  | .ifMissing => "if-missing"
  | .config => "config"
  | .logFormat => "log-format"

def all : List OptionName := [.version, .project, .ifMissing, .config, .logFormat]

def ofText? (cs : List Char) : Option OptionName :=
  all.find? (·.text.toList == cs)

def accepts (value : String) : OptionName → Bool
  | .config => value ≠ ""
  | .logFormat => value = "text" ∨ value = "json"
  | _ => true

/-- The variable that stands in for an option. -/
def standIn? : OptionName → Option String
  | .version => some "INPUT_VERSION"
  | .project => some "INPUT_PROJECT"
  | .ifMissing => some "INPUT_IF-MISSING"
  | _ => none

end OptionName

/-- An argument that can be the value of the option before it: one that looks
like no option itself. -/
def isValue (argument : String) : Bool :=
  argument = "-" || argument.toList.head? != some '-'

/-- The options among the arguments, in their order, with their values. Two
hyphens may end the list; `pending` is an option whose value comes next. -/
def pairs? (pending : Option OptionName) : List String → Option (List (OptionName × String))
  | [] => if pending.isNone then some [] else none
  | argument :: arguments =>
    match pending with
    | some name =>
      if isValue argument then (pairs? none arguments).map ((name, argument) :: ·) else none
    | none =>
      match List.isPrefixOf? ['-', '-'] argument.toList with
      | none => none
      | some [] => if arguments.isEmpty then some [] else none
      | some written =>
        match OptionName.ofText? (cutFirst '=' written).1, (cutFirst '=' written).2 with
        | none, _ => none
        | some name, some value =>
          (pairs? none arguments).map ((name, String.ofList value) :: ·)
        | some name, none => pairs? (some name) arguments

/-- What the command line asks for. -/
structure Options where
  version : String
  project : Option String
  ifMissing : String
  config : Option String
  deriving DecidableEq, Repr

namespace Options

/-- The value of an option: the one among the arguments, else that of its
variable. -/
def value? (pairs : List (OptionName × String)) (environment : String → Option String)
    (name : OptionName) : Option String :=
  (pairs.lookup name).or (name.standIn?.bind environment)

/-- The options that arguments and environment give, if the arguments are
accepted. -/
def ofArguments? (arguments : List String) (environment : String → Option String) :
    Option Options := do
  let pairs ← pairs? none arguments
  let value? := value? pairs environment
  let accepted := pairs.all (fun (name, value) => name.accepts value) &&
    OptionName.all.all fun name => (pairs.filter (·.1 == name)).length ≤ 1
  if accepted then
    let version ← value? .version
    some ⟨version, value? .project, (value? .ifMissing).getD "error", value? .config⟩
  else none

end Options

end VersionPick.CommandLine
