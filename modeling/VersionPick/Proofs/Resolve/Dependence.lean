/-
What a batch depends on. It looks at the metadata of a project only for the
aliases that name them: two environments that differ in nothing its specifiers
ask for give it the same versions or the same failure, and the same record
(`Environment.batch_congr`). A list without `min` and `manifest` does not
depend on files at all.
-/
import VersionPick.Proofs.Resolve.Course

namespace VersionPick

namespace Sources

variable {m : Type → Type} [Monad m] {sources sources' : Sources m} {lts : Range} {policy : Policy}
variable {specifiers : List Specifier}

/-- Two sources that say the same to all that specifiers ask for. -/
structure AgreeFor (specifiers : List Specifier) (sources sources' : Sources m) : Prop where
  compat : .alias .min ∈ specifiers → sources.compat = sources'.compat
  pin : .alias .manifest ∈ specifiers → sources.pin = sources'.pin
  available : sources.available = sources'.available
  hasNightly : ∀ branch, .nightly (some branch) ∈ specifiers → sources.hasNightly branch = sources'.hasNightly branch

theorem AgreeFor.learn_eq (h : AgreeFor specifiers sources sources') :
    sources.learn lts specifiers = sources'.learn lts specifiers := by
  have hcompat : (if specifiers.contains (.alias .min) then some <$> sources.compat else pure none) =
      if specifiers.contains (.alias .min) then some <$> sources'.compat else pure none := by
    split
    next hmin => rw [h.compat (List.contains_iff_mem.mp hmin)]
    next => rfl
  have hpin : (if specifiers.contains (.alias .manifest) then sources.pin else pure none) =
      if specifiers.contains (.alias .manifest) then sources'.pin else pure none := by
    split
    next hman => rw [h.pin (List.contains_iff_mem.mp hman)]
    next => rfl
  rw [Sources.learn_eq, Sources.learn_eq, hcompat, hpin, h.available]

theorem AgreeFor.pick_eq (h : AgreeFor specifiers sources sources') (known : Known) {s : Specifier}
    (hs : s ∈ specifiers) : sources.pick known s = sources'.pick known s := by
  cases s with
  | nightly branch =>
    cases branch with
    | none => rfl
    | some branch => simp only [pick, h.hasNightly branch hs]
  | _ => rfl

theorem AgreeFor.pickEach_eq (h : AgreeFor specifiers sources sources') (known : Known) :
    ∀ {part : List Specifier}, part ⊆ specifiers →
      sources.pickEach known policy part = sources'.pickEach known policy part
  | [], _ => rfl
  | s :: part, hpart => by
    obtain ⟨hs, hpart⟩ := List.cons_subset.mp hpart
    simp only [pickEach, h.pick_eq known hs, h.pickEach_eq known hpart]

theorem AgreeFor.resolve_eq (h : AgreeFor specifiers sources sources') :
    sources.resolve lts policy specifiers = sources'.resolve lts policy specifiers := by
  simp only [resolve, h.learn_eq, h.pickEach_eq _ (List.Subset.refl specifiers)]

end Sources

namespace Environment

variable {e e' : Environment} {script script' : Script} {lts : Range} {policy : Policy} {specifiers : List Specifier}

theorem compat_eq_of_load {t t' : Tree} {project project' : String}
    (h : (Project.loadCompat t.files project : ExceptT Failure Id Range) = Project.loadCompat t'.files project') :
    t.compat project = t'.compat project' := by
  have hrun := congrArg ExceptT.run h
  rwa [Project.run_loadCompat, Project.run_loadCompat] at hrun

theorem pin_eq_of_load {t t' : Tree} {project project' : String}
    (h : (Project.loadPin t.files project : ExceptT Failure Id (Option String)) =
      Project.loadPin t'.files project') : t.pin project = t'.pin project' := by
  have hrun := congrArg ExceptT.run h
  rwa [Project.run_loadPin, Project.run_loadPin] at hrun

theorem scripted_compat (e : Environment) (script : Script) : (e.scripted script).compat =
    record .readCompat >>= fun _ => ExceptT.mk (pure (e.tree.compat e.project)) := by
  rw [← Project.run_loadCompat]
  rfl

theorem scripted_pin (e : Environment) (script : Script) : (e.scripted script).pin =
    record .readPin >>= fun _ => ExceptT.mk (pure (e.tree.pin e.project)) := by
  rw [← Project.run_loadPin]
  rfl

/-- **A batch depends on metadata only through the aliases that name them.**
Where the catalogue and the probes of its branches end alike, two environments
give a list of specifiers the same answer, and are asked for the same, if the
compat range loads alike or is not named and the manifest loads alike or is
not named. A list that names neither gets the same answer whatever the files
are, and whatever the project. -/
theorem batch_congr (e e' : Environment) (script script' : Script) (lts : Range) (policy : Policy)
    (specifiers : List Specifier) (hcatalogue : e.catalogue = e'.catalogue)
    (hscript : ∀ branch, .nightly (some branch) ∈ specifiers → ∀ asked, script asked branch = script' asked branch) :
    ((.alias .min ∈ specifiers → (Project.loadCompat e.tree.files e.project : ExceptT Failure Id Range) =
        Project.loadCompat e'.tree.files e'.project) →
      (.alias .manifest ∈ specifiers → (Project.loadPin e.tree.files e.project : ExceptT Failure Id (Option String)) =
        Project.loadPin e'.tree.files e'.project) →
      e.batch script lts policy specifiers = e'.batch script' lts policy specifiers) ∧
    (.alias .min ∉ specifiers → .alias .manifest ∉ specifiers →
      e.batch script lts policy specifiers = e'.batch script' lts policy specifiers) := by
  have hbatch : ∀ hagree : Sources.AgreeFor specifiers (e.scripted script) (e'.scripted script'),
      e.batch script lts policy specifiers = e'.batch script' lts policy specifiers := fun hagree => by
    rw [batch, hagree.resolve_eq, batch]
  have havailable : (e.scripted script).available = (e'.scripted script').available := by
    simp only [scripted, sources, hcatalogue]
  have hnightly : ∀ branch, .nightly (some branch) ∈ specifiers →
      (e.scripted script).hasNightly branch = (e'.scripted script').hasNightly branch := fun branch hb => by
    simp only [scripted, hscript branch hb]
  constructor
  · intro hcompat hpin
    refine hbatch ⟨fun hmin => ?_, fun hman => ?_, havailable, hnightly⟩
    · rw [scripted_compat, scripted_compat, compat_eq_of_load (hcompat hmin)]
    · rw [scripted_pin, scripted_pin, pin_eq_of_load (hpin hman)]
  · intro hmin hman
    exact hbatch ⟨fun h => absurd h hmin, fun h => absurd h hman, havailable, hnightly⟩

/-- Two projects with one compat range, of which one has a manifest and the
other, in another folder, an unreadable one. -/
theorem batch_congr_same_compat : ∃ e e' : Environment, e.tree.pin e.project ≠ e'.tree.pin e'.project ∧
    e.project ≠ e'.project ∧ .alias .min ∈ [Specifier.alias .min, .nightly (some "1.12")] ∧
    e.batch (fun _ => e.nightly) .any .warn [.alias .min, .nightly (some "1.12")] =
      e'.batch (fun _ => e'.nightly) .any .warn [.alias .min, .nightly (some "1.12")] ∧
    e.batch (fun _ => e.nightly) .any .warn [.exact "1.10.5", .nightly (some "1.12")] =
      Environment.batch ⟨.empty, "", e.catalogue, e.nightly⟩ (fun _ => e.nightly) .any .warn
        [.exact "1.10.5", .nightly (some "1.12")] := by
  let text : ByteArray := "[compat]\njulia = \"1.10\"\n".toUTF8
  let e : Environment := {
    tree := (Tree.empty.set ("Project.toml" :: Place.working) (.file text)).set
      ("Manifest.toml" :: Place.working) (.file "julia_version = \"1.10.4\"".toUTF8)
    project := "."
    catalogue := .ok (.ofList [("1.10.5", ⟨[], true⟩)])
    nightly := fun branch => .ok (branch == "1.12") }
  let e' : Environment := {
    tree := ((Tree.empty.set ("sub" :: Place.working) .folder).set ("JuliaProject.toml" :: "sub" :: Place.working)
      (.file text)).set ("Manifest.toml" :: "sub" :: Place.working) (.file "julia_version = 1".toUTF8)
    project := "sub"
    catalogue := e.catalogue
    nightly := fun _ => .ok true }
  have hcompat : e.tree.compat e.project = e'.tree.compat e'.project := by decide +kernel
  have hload : (Project.loadCompat e.tree.files e.project : ExceptT Failure Id Range) =
      Project.loadCompat e'.tree.files e'.project :=
    ExceptT.ext (by rw [Project.run_loadCompat, Project.run_loadCompat, hcompat])
  have hpin : e.tree.pin e.project ≠ e'.tree.pin e'.project := by decide +kernel
  have hscript : ∀ branch, Specifier.nightly (some branch) ∈ [Specifier.alias .min, .nightly (some "1.12")] →
      ∀ asked : List Effect, e.nightly branch = e'.nightly branch := by simp [e, e']
  have hmin := (batch_congr e e' (fun _ => e.nightly) (fun _ => e'.nightly) .any .warn
    [.alias .min, .nightly (some "1.12")] rfl hscript).1 (fun _ => hload) fun h => absurd h (by decide)
  have hneither := (batch_congr e ⟨.empty, "", e.catalogue, e.nightly⟩ (fun _ => e.nightly) (fun _ => e.nightly)
    .any .warn [.exact "1.10.5", .nightly (some "1.12")] rfl fun _ _ _ => rfl).2 (by decide) (by decide)
  exact ⟨e, e', hpin, by decide, by decide, hmin, hneither⟩

end Environment

end VersionPick
