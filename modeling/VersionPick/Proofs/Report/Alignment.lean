/-
How a report lines up with its specifiers. Whatever it took to get there, each
specifier has one entry, and each entry is accounted for by its specifier
(`Environment.report_aligned`): a nightly build is its own text, `manifest` is
the version in the manifest, and all else is listed in the catalogue. What is
called missing is read off the gaps, so neither list can run ahead of the
other.

A run keeps the entries in line because each step adds the entry of its
specifier and no other (`Sources.fills_of_pick`, `Sources.forall₂_fills`), for
any sources; which entries those can be depends on what was learnt first.
-/
import VersionPick.Proofs.CommandLine.Resolution
import VersionPick.Proofs.Resolve.Course

namespace VersionPick

/-! ## Entries -/

/-- What can stand in the place of a specifier, by what is known. -/
inductive Known.Fills (known : Known) (policy : Policy) : Specifier → Option String → Prop
  | gap {s : Specifier} (hpolicy : policy = .warn) (hs : s ≠ .nightly none) : Fills known policy s none
  | nightly (branch : Option String) :
    Fills known policy (.nightly branch) (some (Specifier.nightly branch).text)
  | pinned {version : String} (h : known.pin = some version) (hne : version ≠ "") :
    Fills known policy (.alias .manifest) (some version)
  | listed {s : Specifier} {version : String} (hs : s ≠ .alias .manifest) (hnightly : ∀ branch, s ≠ .nightly branch)
    (h : version ∈ known.available) : Fills known policy s (some version)

theorem Policy.eq_warn_of_settle {policy : Policy} {s : Specifier} {entry : Option String}
    (h : policy.settle s none = .ok entry) : policy = .warn ∧ entry = none := by
  cases policy with
  | warn => exact ⟨rfl, (Except.ok.inj h).symm⟩
  | error => cases h

namespace Known

variable {known : Known} {policy : Policy} {s : Specifier} {entry : Option String}

/-- What settles a version is an entry for it, if the version is one. -/
theorem fills_of_settle {version : Option String} (hs : s ≠ .nightly none)
    (hversion : ∀ v, version = some v → known.Fills policy s (some v)) (h : policy.settle s version = .ok entry) :
    known.Fills policy s entry := by
  cases version with
  | none =>
    obtain ⟨hpolicy, rfl⟩ := Policy.eq_warn_of_settle h
    exact .gap hpolicy hs
  | some v =>
    cases h
    exact hversion v rfl

theorem fills_of_resolve {version : String} (hnightly : ∀ branch, s ≠ .nightly branch)
    (h : known.resolve s = .ok (some version)) : known.Fills policy s (some version) := by
  have hchooses := resolve_eq_some.mp h
  by_cases hs : s = .alias .manifest
  · subst hs
    exact .pinned hchooses.1 hchooses.2
  · exact .listed hs hnightly (hchooses.mem.resolve_left hs)

end Known

/-! ## Runs -/

section
variable {σ : Type} {t t' : σ} {sources : Sources (StateM σ)} {known : Known} {policy : Policy}

/-- One step: what is picked for a specifier and settled fills its place. -/
theorem Sources.fills_of_pick {s : Specifier} {version entry : Option String}
    (hpick : (sources.pick known s).run.run t = (.ok version, t')) (hsettle : policy.settle s version = .ok entry) :
    known.Fills policy s entry := by
  by_cases hnightly : ∀ branch, s ≠ .nightly branch
  · rw [Sources.pick_of_not_nightly _ _ hnightly] at hpick
    obtain ⟨hresolve, -⟩ := run_liftM_eq_ok.mp hpick
    refine Known.fills_of_settle (hnightly none) (fun v hv => ?_) hsettle
    exact Known.fills_of_resolve hnightly (hv ▸ hresolve)
  simp only [ne_eq, not_forall, not_not] at hnightly
  obtain ⟨branch, rfl⟩ := hnightly
  cases branch with
  | none =>
    obtain ⟨rfl, -⟩ := run_pure_eq_ok.mp hpick
    cases hsettle
    exact .nightly none
  | some branch =>
    obtain ⟨found, _, -, hfound⟩ := run_bind_eq_ok.mp hpick
    obtain ⟨rfl, -⟩ := run_pure_eq_ok.mp hfound
    refine Known.fills_of_settle (by simp) (fun v hv => ?_) hsettle
    split at hv
    · cases hv
      exact .nightly (some branch)
    · cases hv

/-- A run fills the places of all specifiers, in their order. -/
theorem Sources.forall₂_fills : ∀ {specifiers : List Specifier} {entries : List (Option String)} {t t' : σ},
    (sources.pickEach known policy specifiers).run.run t = (.ok entries, t') →
    List.Forall₂ (known.Fills policy) specifiers entries
  | [], entries, t, t', h => by
    obtain ⟨rfl, -⟩ := run_pure_eq_ok.mp h
    exact .nil
  | s :: specifiers, entries, t, t', h => by
    obtain ⟨version, _, hpick, h⟩ := run_bind_eq_ok.mp h
    obtain ⟨entry, _, hsettle, h⟩ := run_bind_eq_ok.mp h
    obtain ⟨rest, _, hrest, h⟩ := run_bind_eq_ok.mp h
    obtain ⟨rfl, -⟩ := run_pure_eq_ok.mp h
    exact .cons (fills_of_pick hpick (run_liftM_eq_ok.mp hsettle).1) (forall₂_fills hrest)

end

theorem Inputs.read_eq_ok {inputs : Inputs} {specifiers : List Specifier} {policy : Policy} :
    inputs.read = .ok (specifiers, policy) ↔
      Specifier.listOfInput inputs.version = .ok specifiers ∧ Policy.ofInput inputs.ifMissing = .ok policy := by
  unfold read
  cases Specifier.listOfInput inputs.version with
  | error fault => simp
  | ok specifiers' => cases Policy.ofInput inputs.ifMissing <;> simp

/-! ## Environments -/

namespace Environment

/-- What accounts for an entry in the place of a specifier: under `warn` it may
be a gap. The manifest is the one that is found for the project. -/
inductive Accounts (e : Environment) (policy : Policy) : Specifier → Option String → Prop
  | gap {s : Specifier} (hpolicy : policy = .warn) (hs : s ≠ .nightly none) : Accounts e policy s none
  | nightly (branch : Option String) : Accounts e policy (.nightly branch) (some (Specifier.nightly branch).text)
  | pinned {path version : String} {metadata : Metadata}
      (hfile : Ends (Project.findManifest e.tree.files e.project) path)
    (hread : Ends (Project.readMetadata e.tree.files path) metadata) (h : metadata.pin = some version)
    (hne : version ≠ "") : Accounts e policy (.alias .manifest) (some version)
  | listed {s : Specifier} {version : String} {catalogue : Catalogue} (hs : s ≠ .alias .manifest)
    (hnightly : ∀ branch, s ≠ .nightly branch) (hfetch : e.catalogue = .ok catalogue)
    (h : version ∈ catalogue.versions) : Accounts e policy s (some version)

variable {e : Environment} {lts : Range} {policy : Policy} {specifiers : List Specifier} {known : Known}

/-- The pin of a project is the one in the manifest that is found. -/
theorem exists_manifest_of_pin {t : Tree} {project : String} {pin : Option String} (h : t.pin project = .ok pin) :
    ∃ path metadata, Ends (Project.findManifest t.files project) path ∧
      Ends (Project.readMetadata t.files path) metadata ∧ metadata.pin = pin := by
  have hload : Ends (Project.loadPin t.files project) pin := by
    rw [Ends, Project.run_loadPin, h]
    rfl
  obtain ⟨path, hfile, hload⟩ := ends_bind.mp hload
  obtain ⟨metadata, hread, hpin⟩ := ends_bind.mp hload
  exact ⟨path, metadata, hfile, hread, ends_pure.mp hpin⟩

/-- What a batch has learnt comes from the manifest and the catalogue. -/
theorem accounts_of_fills (hlearn : Ends (e.answers.learn lts specifiers) known) {s : Specifier}
    (hs : s ∈ specifiers) {entry : Option String} (h : known.Fills policy s entry) : e.Accounts policy s entry := by
  obtain ⟨-, havailable, -, hpin⟩ := Sources.ends_learn.mp hlearn
  cases h with
  | gap hpolicy hs => exact .gap hpolicy hs
  | nightly branch => exact .nightly branch
  | pinned h hne =>
    rw [if_pos hs] at hpin
    obtain ⟨path, metadata, hfile, hread, hmetadata⟩ := exists_manifest_of_pin (ends_pin.mp hpin)
    exact .pinned hfile hread (hmetadata.trans h) hne
  | listed hs hnightly h =>
    obtain ⟨catalogue, hfetch, hversions⟩ := ends_map.mp havailable
    exact .listed hs hnightly (ends_fetched.mp hfetch) (hversions ▸ h)

/-- **A report lines up with its specifiers.** Each specifier has one entry,
and that is accounted for: a gap under the policy `warn`, or the text of a
nightly build, or the version in the manifest, or one in the catalogue. Those
with a gap are called missing, in their order and as often as they are asked
for, and there is a warning for each. -/
theorem report_aligned (e : Environment) (script : Script) (lts : Range) (inputs : Inputs) {report : Report}
    {record : List Effect} (h : e.report script lts inputs = (.ok report, record)) :
    ∃ specifiers policy, Specifier.listOfInput inputs.version = .ok specifiers ∧
      Policy.ofInput inputs.ifMissing = .ok policy ∧
      report.version.length = specifiers.length ∧
      List.Forall₂ (e.Accounts policy) specifiers report.version ∧
      report.missing = ((specifiers.zip report.version).filter (·.2.isNone)).map (·.1.text) ∧
      (policy ≠ .warn → report.missing = []) ∧
      report.warnings = report.missing.map (fun text => Command.tell .warning (Failure.noMatch text).message) ∧
      report.warnings.length = report.version.count none := by
  obtain ⟨⟨specifiers, policy⟩, _, hread, h⟩ := run_bind_eq_ok.mp h
  obtain ⟨resolved, _, hresolve, h⟩ := run_bind_eq_ok.mp h
  obtain ⟨rfl, -⟩ := run_pure_eq_ok.mp h
  obtain ⟨known, between, hlearn, hpick⟩ := run_bind_eq_ok.mp hresolve
  obtain ⟨hspecifiers, hpolicy⟩ := Inputs.read_eq_ok.mp (run_liftM_eq_ok.mp hread).1
  have hends : Ends (e.answers.learn lts specifiers) known := ends_learn_of_runFrom (congrArg Prod.fst hlearn)
  have hfills := (List.forall₂_and_left specifiers resolved).mpr ⟨fun _ hs => hs, Sources.forall₂_fills hpick⟩
  have haccounts := hfills.imp fun s entry ⟨hs, hfill⟩ => accounts_of_fills hends hs hfill
  have hlength : resolved.length = specifiers.length := haccounts.length_eq.symm
  have hmissing : (Report.ofSpecifiers specifiers resolved).missing =
      ((specifiers.zip resolved).filter (·.2.isNone)).map (·.1.text) := Report.missingOf_eq
  have hwarnings : (Report.ofSpecifiers specifiers resolved).warnings.length = resolved.count none := by
    rw [Report.warnings, List.length_map]
    exact (Report.answers_ofSpecifiers hlength).length_missing
  refine ⟨specifiers, policy, hspecifiers, hpolicy, hlength, haccounts, hmissing, fun hwarn => ?_, rfl, hwarnings⟩
  -- a gap is accounted for by the policy alone
  have hnone : none ∉ resolved := fun hgap => by
    obtain ⟨s, -, haccount⟩ := exists_of_mem_right haccounts hgap
    cases haccount with
    | gap hpolicy _ => exact hwarn hpolicy
  rw [← List.length_eq_zero_iff, ← List.length_map (f := Report.warning), ← Report.warnings, hwarnings]
  exact List.count_eq_zero.mpr hnone

/-- Three gaps, two of them for one specifier, between entries of each kind. -/
theorem report_aligned_three_gaps : ∃ (e : Environment) (script : Script) (report : Report) (record : List Effect),
    e.report script .any ⟨"[nightly, manifest, 1.9, lts, 1.12-nightly, 1.9]", "warn"⟩ = (.ok report, record) ∧
    report.version = [some "nightly", some "1.10.4", none, some "v1.10.5", none, none] ∧
    report.missing = ["1.9", "1.12-nightly", "1.9"] ∧ report.warnings.length = 3 ∧
    ∃ specifiers, List.Forall₂ (e.Accounts .warn) specifiers report.version := by
  let e : Environment := {
    tree := Tree.empty.set ("Manifest.toml" :: Place.working) (.file "julia_version = \"1.10.4\"".toUTF8)
    project := "."
    catalogue := .ok (.ofList [("1.6.7", ⟨[], true⟩), ("v1.10.5", ⟨[], true⟩)])
    nightly := fun _ => .ok false }
  let script : Script := fun _ branch => .ok (branch == "1.11")
  have hentries : ((e.report script .any ⟨"[nightly, manifest, 1.9, lts, 1.12-nightly, 1.9]", "warn"⟩).1.map
      fun report => (report.version, report.missing)) =
      .ok ([some "nightly", some "1.10.4", none, some "v1.10.5", none, none], ["1.9", "1.12-nightly", "1.9"]) := by
    decide +kernel
  rcases hrun : e.report script .any ⟨"[nightly, manifest, 1.9, lts, 1.12-nightly, 1.9]", "warn"⟩ with ⟨result, record⟩
  rw [hrun] at hentries
  cases result with
  | error failure => cases hentries
  | ok report =>
    obtain ⟨hversion, hmissing⟩ := Prod.mk.inj (Except.ok.inj hentries)
    obtain ⟨specifiers, policy, -, hpolicy, -, haccounts, -, -, -, hwarnings⟩ := report_aligned e script .any _ hrun
    have hwarn : Policy.ofInput "warn" = .ok .warn := by decide
    obtain rfl : .warn = policy := Except.ok.inj (hwarn.symm.trans hpolicy)
    refine ⟨e, script, report, record, hrun, hversion, hmissing, hwarnings.trans ?_, specifiers, haccounts⟩
    rw [hversion]
    rfl

end Environment

end VersionPick
