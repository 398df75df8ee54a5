/-
Finding and reading the files of a project in a tree that does not change:
each lookup comes to the same as a plain function of the tree, whatever monad
it is done in.
-/
import VersionPick.Project.Lookup

namespace VersionPick

namespace Tree

variable (t : Tree)

/-- The project file of a project. -/
def projectFile? (project : String) : Option String :=
  if t.isFile project then some project
  else if t.isFolder project then (Project.projectNames.map (Path.join project)).find? t.isFile
  else none

/-- The folder in which a manifest is looked for. -/
def manifestFolder (project : String) : String :=
  if t.isFile project then (Path.parent? project).getD "." else project

/-- The manifest file of a project. -/
def manifestFile? (project : String) : Option String :=
  (Project.manifestNames.map (Path.join (t.manifestFolder project))).find? t.isFile

/-- The metadata in a file. -/
def metadata (path : String) : Except Failure Metadata :=
  match t.read path with
  | .error fault => .error (.unreadable path fault)
  | .ok text =>
    match Metadata.ofText text with
    | .error defect => .error (.notToml defect.message)
    | .ok metadata => .ok metadata

/-- The compat range of a project. -/
def compat (project : String) : Except Failure Range :=
  match t.projectFile? project with
  | none => .error (.noProjectFile project)
  | some path => (t.metadata path).bind fun metadata => Project.compatRange metadata.compat

/-- The version of Julia in the manifest of a project. -/
def pin (project : String) : Except Failure (Option String) :=
  match t.manifestFile? project with
  | none => .error (.noManifestFile project)
  | some path => (t.metadata path).map (·.pin)

end Tree

/-- A failure that the files of a project give rise to. -/
def Failure.isOfProject : Failure → Bool
  | .notToml _ => true
  | .badCompat _ => true
  | .noProjectFile _ => true
  | .noManifestFile _ => true
  | .unreadable _ _ => true
  | _ => false

namespace Tree

variable {t : Tree} {failure : Failure}

theorem isOfProject_of_metadata {path : String} (h : t.metadata path = .error failure) :
    failure.isOfProject = true := by
  unfold metadata at h
  split at h
  · cases h
    rfl
  · split at h <;> cases h
    rfl

theorem isOfProject_of_compat {project : String} (h : t.compat project = .error failure) :
    failure.isOfProject = true := by
  unfold compat at h
  split at h
  · cases h
    rfl
  next path _ =>
    cases hm : t.metadata path with
    | error _ =>
      rw [hm] at h
      cases h
      exact isOfProject_of_metadata hm
    | ok metadata =>
      rw [hm] at h
      simp only [Except.bind, Project.compatRange] at h
      split at h
      · cases h
      · split at h <;> cases h
        rfl

theorem isOfProject_of_pin {project : String} (h : t.pin project = .error failure) :
    failure.isOfProject = true := by
  unfold pin at h
  split at h
  · cases h
    rfl
  next path _ =>
    cases hm : t.metadata path with
    | error _ =>
      rw [hm] at h
      cases h
      exact isOfProject_of_metadata hm
    | ok metadata =>
      rw [hm] at h
      cases h

end Tree

namespace Project

variable {m : Type → Type} [Monad m] [LawfulMonad m] (t : Tree)

theorem firstFile_files : ∀ paths : List String,
    firstFile (t.files : Files m) paths = pure (paths.find? t.isFile)
  | [] => rfl
  | path :: paths => by
    simp only [firstFile, Tree.files, pure_bind, List.find?_cons]
    cases h : t.isFile path with
    | true => rfl
    | false => exact firstFile_files paths

theorem projectFile?_files (project : String) :
    projectFile? (t.files : Files m) project = pure (t.projectFile? project) := by
  simp only [projectFile?, Tree.projectFile?, firstFile_files]
  simp only [Tree.files, pure_bind]
  split
  · rfl
  · split <;> rfl

theorem manifestFile?_files (project : String) :
    manifestFile? (t.files : Files m) project = pure (t.manifestFile? project) := by
  simp only [manifestFile?, Tree.manifestFile?, Tree.manifestFolder, firstFile_files]
  simp only [Tree.files, pure_bind]

theorem run_findProject (project : String) : (findProject (t.files : Files m) project).run =
    pure (match t.projectFile? project with
      | some path => .ok path
      | none => .error (.noProjectFile project)) := by
  simp only [findProject, projectFile?_files]
  cases t.projectFile? project <;> simp

theorem run_findManifest (project : String) : (findManifest (t.files : Files m) project).run =
    pure (match t.manifestFile? project with
      | some path => .ok path
      | none => .error (.noManifestFile project)) := by
  simp only [findManifest, manifestFile?_files]
  cases t.manifestFile? project <;> simp

theorem run_readMetadata (path : String) :
    (readMetadata (t.files : Files m) path).run = pure (t.metadata path) := by
  simp only [readMetadata, Tree.files, Tree.metadata]
  cases t.read path with
  | error fault => simp
  | ok text => cases hm : Metadata.ofText text <;> simp [hm]

theorem run_loadCompat (project : String) :
    (loadCompat (t.files : Files m) project).run = pure (t.compat project) := by
  unfold loadCompat Tree.compat
  rw [ExceptT.run_bind, run_findProject, pure_bind]
  cases t.projectFile? project with
  | none => rfl
  | some path =>
    simp only
    rw [ExceptT.run_bind, run_readMetadata, pure_bind]
    cases t.metadata path with
    | error failure => rfl
    | ok metadata => rfl

theorem run_loadPin (project : String) :
    (loadPin (t.files : Files m) project).run = pure (t.pin project) := by
  unfold loadPin Tree.pin
  rw [ExceptT.run_bind, run_findManifest, pure_bind]
  cases t.manifestFile? project with
  | none => rfl
  | some path =>
    simp only
    rw [ExceptT.run_bind, run_readMetadata, pure_bind]
    cases t.metadata path with
    | error failure => rfl
    | ok metadata => rfl

end Project

end VersionPick
