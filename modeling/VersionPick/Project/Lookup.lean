/-
Finding the files of a project. A project is named by its folder or by its
project file; the manifest stands beside the project file. Of two names the
one with `Julia` in front goes first.
-/
import VersionPick.Project
import VersionPick.Files

namespace VersionPick.Project

def projectNames : List String := ["JuliaProject.toml", "Project.toml"]

def manifestNames : List String := ["JuliaManifest.toml", "Manifest.toml"]

variable {m : Type → Type} [Monad m] (files : Files m)

/-- The first of some paths that leads to a file. -/
def firstFile : List String → m (Option String)
  | [] => pure none
  | path :: paths => do
    if ← files.isFile path then pure (some path) else firstFile paths

/-- The file that a project path leads to, or else a file in the folder it
leads to. -/
def projectFile? (project : String) : m (Option String) := do
  if ← files.isFile project then return some project
  else if ← files.isFolder project then firstFile files (projectNames.map (Path.join project))
  else return none

/-- The manifest file in the folder of the project file, or in the folder that
a project path is meant to lead to. -/
def manifestFile? (project : String) : m (Option String) := do
  let folder := if ← files.isFile project then (Path.parent? project).getD "." else project
  firstFile files (manifestNames.map (Path.join folder))

def findProject (project : String) : ExceptT Failure m String := do
  match ← (projectFile? files project : m _) with
  | some path => return path
  | none => throw (.noProjectFile project)

def findManifest (project : String) : ExceptT Failure m String := do
  match ← (manifestFile? files project : m _) with
  | some path => return path
  | none => throw (.noManifestFile project)

def readMetadata (path : String) : ExceptT Failure m Metadata := do
  match ← files.read path with
  | .error fault => throw (.unreadable path fault)
  | .ok text =>
    match Metadata.ofText text with
    | .error defect => throw (.notToml defect.message)
    | .ok metadata => return metadata

def loadCompat (project : String) : ExceptT Failure m Range := do
  let metadata ← readMetadata files (← findProject files project)
  compatRange metadata.compat

/-- The version of Julia that the manifest of a project was resolved with. -/
def loadPin (project : String) : ExceptT Failure m (Option String) := do
  let metadata ← readMetadata files (← findManifest files project)
  return metadata.pin

end VersionPick.Project
