/-
What a resolution reports: the outputs, as lines with JSON values, and the
workflow commands that a message is told with. A command stands on one line,
so the line ends of its message are written as percent codes.
-/
import VersionPick.Text.Natural
import VersionPick.Json.Value
import VersionPick.Resolve.Failure

namespace VersionPick

open Text

/-- A workflow command that tells something. -/
inductive Severity
  | warning
  | error
  deriving DecidableEq, Repr

def Severity.name : Severity → List Char
  | .warning => "warning".toList
  | .error => "error".toList

namespace Command

/-- The written form of a character in a message. -/
def escapeChar (c : Char) : List Char :=
  if c == '%' then ['%', '2', '5']
  else if c == '\r' then ['%', '0', 'D']
  else if c == '\n' then ['%', '0', 'A']
  else [c]

def escape (message : List Char) : List Char :=
  message.flatMap escapeChar

/-- The command that tells a message. -/
def tell (severity : Severity) (message : String) : String :=
  String.ofList ([':', ':'] ++ severity.name ++ [':', ':'] ++ escape message.toList)

end Command

/-- The outputs of a resolution. -/
structure Report where
  /-- The version of each specifier, where there is one. -/
  version : List (Option String)
  /-- The different versions, sorted. -/
  uniqueVersion : List String
  /-- The specifiers without version. -/
  missing : List String
  deriving DecidableEq, Repr

namespace Report

/-- The report on resolved specifiers, in which none is called missing. -/
def ofResolved (resolved : List (Option String)) : Report where
  version := resolved
  uniqueVersion := naturalSort (resolved.filterMap id).eraseDups
  missing := []

/-- The warning about a specifier without version. -/
def warning (specifier : String) : String :=
  Command.tell .warning (Failure.noMatch specifier).message

def warnings (r : Report) : List String :=
  r.missing.map warning

/-- The JSON text of a list of versions. -/
def versionsText (versions : List (Option String)) : List Char :=
  (Json.Value.array (versions.map fun v => (v.map Json.Value.ofText).getD .null)).write

/-- The outputs as lines, each a name and a JSON text. -/
def lines (r : Report) : String :=
  String.ofList ("version=".toList ++ versionsText r.version ++ "\nunique-version=".toList ++
    versionsText (r.uniqueVersion.map some) ++ ['\n'])

end Report

end VersionPick
