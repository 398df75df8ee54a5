/-
A resolution on a machine looks at files and asks the server; it neither
writes nor prints, however it ends (`observes_resolve`). Where it ends with a
report, this is one on the specifiers among the options, with a version or a
gap for each (`answers_of_resolve`).

Each part of the program is looked at once: a computation that is put together
from observing ones is observing (`Observes.bind`).
-/
import VersionPick.CommandLine.Machine
import VersionPick.Proofs.Resolve.Batch

namespace VersionPick

/-! ## What a report answers -/

/-- A report that answers specifiers: one version or gap for each, and those
of the specifiers named as missing that have a gap. -/
structure Report.Answers (r : Report) (specifiers : List Specifier) : Prop where
  length : r.version.length = specifiers.length
  missing : r.missing = ((specifiers.zip r.version).filter (·.2.isNone)).map (·.1.text)

namespace Report

/-- A report that answers the specifiers in an input. -/
def AnswersInput (r : Report) (input : String) : Prop :=
  ∃ specifiers, Specifier.listOfInput input = .ok specifiers ∧ r.Answers specifiers

theorem missingOf_eq : ∀ {specifiers : List Specifier} {resolved : List (Option String)},
    missingOf specifiers resolved = ((specifiers.zip resolved).filter (·.2.isNone)).map (·.1.text)
  | [], resolved => by cases resolved <;> rfl
  | _ :: _, [] => rfl
  | s :: specifiers, none :: resolved => congrArg (s.text :: ·) missingOf_eq
  | _ :: specifiers, some _ :: resolved => by
    rw [missingOf, missingOf_eq]
    rfl

/-- The places of the gaps are counted by the list of those who have one. -/
theorem length_gaps {specifiers : List Specifier} {entries : List (Option String)}
    (h : entries.length = specifiers.length) :
    ((specifiers.zip entries).filter (·.2.isNone)).length = entries.count none := by
  have hentries : (specifiers.zip entries).map Prod.snd = entries := List.map_snd_zip (Nat.le_of_eq h)
  conv_rhs => rw [← hentries, List.count, List.countP_map]
  rw [List.countP_eq_length_filter]
  congr 2
  funext ⟨s, entry⟩
  cases entry <;> rfl

theorem Answers.length_missing {r : Report} {specifiers : List Specifier} (h : r.Answers specifiers) :
    r.missing.length = r.version.count none := by
  rw [h.missing, List.length_map, length_gaps h.length]

theorem answers_ofSpecifiers {specifiers : List Specifier} {resolved : List (Option String)}
    (h : resolved.length = specifiers.length) : (ofSpecifiers specifiers resolved).Answers specifiers :=
  ⟨h, missingOf_eq⟩

end Report

section
variable {σ : Type} {s s' : σ}

theorem run_bind_eq_ok {x : ExceptT ε (StateM σ) α} {f : α → ExceptT ε (StateM σ) β} {b : β} :
    (x >>= f).run.run s = (.ok b, s') ↔
      ∃ a between, x.run.run s = (.ok a, between) ∧ (f a).run.run between = (.ok b, s') := by
  rw [ExceptT.run_bind, StateT.run_bind]
  rcases hx : x.run.run s with ⟨result, between⟩
  cases result with
  | error e =>
    constructor
    · intro h
      cases h
    · rintro ⟨a, between', hrun, -⟩
      cases hrun
  | ok a =>
    constructor
    · exact fun h => ⟨a, between, rfl, h⟩
    · rintro ⟨a', between', hrun, h⟩
      cases hrun
      exact h

theorem run_pure_eq_ok {a b : α} : (pure a : ExceptT ε (StateM σ) α).run.run s = (.ok b, s') ↔ a = b ∧ s = s' := by
  constructor
  · intro h
    cases h
    exact ⟨rfl, rfl⟩
  · rintro ⟨rfl, rfl⟩
    rfl

theorem run_liftM_eq_ok {x : Except ε α} {a : α} :
    (liftM x : ExceptT ε (StateM σ) α).run.run s = (.ok a, s') ↔ x = .ok a ∧ s = s' := by
  change (x, s) = (.ok a, s') ↔ _
  exact Prod.mk.injEq .. ▸ Iff.rfl

theorem run_lift_eq_ok {x : StateM σ α} {a : α} :
    (liftM x : ExceptT ε (StateM σ) α).run.run s = (.ok a, s') ↔ x.run s = (a, s') := by
  change (.ok (x.run s).1, (x.run s).2) = (Except.ok a, s') ↔ _
  rcases x.run s with ⟨result, between⟩
  change _ ↔ ((result, between) : α × σ) = (a, s')
  simp

theorem length_of_pickEach {sources : Sources (StateM σ)} {known : Known} {policy : Policy} :
    ∀ {specifiers : List Specifier} {versions : List (Option String)} {s s' : σ},
    (sources.pickEach known policy specifiers).run.run s = (.ok versions, s') → versions.length = specifiers.length
  | [], versions, s, s', h => by
    obtain ⟨rfl, -⟩ := run_pure_eq_ok.mp h
    rfl
  | _ :: specifiers, versions, s, s', h => by
    obtain ⟨_, _, -, h⟩ := run_bind_eq_ok.mp h
    obtain ⟨_, _, -, h⟩ := run_bind_eq_ok.mp h
    obtain ⟨rest, _, hrest, h⟩ := run_bind_eq_ok.mp h
    obtain ⟨rfl, -⟩ := run_pure_eq_ok.mp h
    rw [List.length_cons, List.length_cons, length_of_pickEach hrest]

theorem Inputs.listOfInput_of_read {inputs : Inputs} {specifiers : List Specifier} {policy : Policy}
    (h : inputs.read = .ok (specifiers, policy)) : Specifier.listOfInput inputs.version = .ok specifiers := by
  unfold read at h
  split at h
  · cases h
  next hlist =>
    split at h
    · cases h
    · cases h
      exact hlist

theorem Inputs.answers_of_resolve {inputs : Inputs} {sources : Sources (StateM σ)} {lts : Range} {report : Report}
    (h : (inputs.resolve sources lts).run.run s = (.ok report, s')) : report.AnswersInput inputs.version := by
  obtain ⟨⟨specifiers, policy⟩, _, hread, h⟩ := run_bind_eq_ok.mp h
  obtain ⟨resolved, _, hresolve, h⟩ := run_bind_eq_ok.mp h
  obtain ⟨rfl, -⟩ := run_pure_eq_ok.mp h
  obtain ⟨known, _, -, hpick⟩ := run_bind_eq_ok.mp hresolve
  exact ⟨specifiers, listOfInput_of_read (run_liftM_eq_ok.mp hread).1,
    Report.answers_ofSpecifiers (length_of_pickEach hpick)⟩

end

/-! ## Observing computations -/

namespace CommandLine

/-- A machine with the files and the output that another one has. -/
structure Machine.Keeps (machine machine' : Machine) : Prop where
  tree : machine'.tree = machine.tree
  output : machine'.output = machine.output

/-- A computation that neither writes nor prints. -/
def Observes (x : StateM Machine α) : Prop :=
  ∀ machine : Machine, machine.Keeps (x.run machine).2

namespace Observes

theorem pure (a : α) : Observes (Pure.pure a : StateM Machine α) := fun _ => ⟨rfl, rfl⟩

theorem bind {x : StateM Machine α} {f : α → StateM Machine β} (hx : Observes x) (hf : ∀ a, Observes (f a)) :
    Observes (x >>= f) := by
  intro machine
  rw [StateT.run_bind]
  rcases hrun : x.run machine with ⟨a, between⟩
  have hx := hx machine
  have hf := hf a between
  rw [hrun] at hx
  exact ⟨hf.tree.trans hx.tree, hf.output.trans hx.output⟩

/-- Behind a failure nothing is done. -/
theorem bind_run {x : ExceptT ε (StateM Machine) α} {f : α → ExceptT ε (StateM Machine) β} (hx : Observes x.run)
    (hf : ∀ a, Observes (f a).run) : Observes (x >>= f).run := by
  rw [ExceptT.run_bind]
  refine hx.bind fun result => ?_
  cases result with
  | error e => exact pure _
  | ok a => exact hf a

theorem map_run {x : ExceptT ε (StateM Machine) α} (hx : Observes x.run) (f : α → β) : Observes (f <$> x).run := by
  rw [← bind_pure_comp]
  exact hx.bind_run fun _ => pure _

theorem ite {c : Prop} [Decidable c] {x y : StateM Machine α} (hx : Observes x) (hy : Observes y) :
    Observes (if c then x else y) := by
  split
  · exact hx
  · exact hy

theorem liftM {x : StateM Machine α} (hx : Observes x) : Observes (liftM x : ExceptT ε (StateM Machine) α).run :=
  hx.bind fun _ => pure _

end Observes

open Machine

/-! ## Files -/

theorem observes_isFile (path : String) : Observes (host.files.isFile path) := fun _ => ⟨rfl, rfl⟩

theorem observes_isFolder (path : String) : Observes (host.files.isFolder path) := fun _ => ⟨rfl, rfl⟩

theorem observes_read (path : String) : Observes (host.files.read path) := fun _ => ⟨rfl, rfl⟩

section
open Project

theorem observes_firstFile : ∀ paths : List String, Observes (firstFile host.files paths)
  | [] => .pure none
  | path :: paths => (observes_isFile path).bind fun _ => .ite (.pure _) (observes_firstFile paths)

theorem observes_findProject (project : String) : Observes (findProject host.files project).run := by
  have hfile : Observes (projectFile? host.files project) :=
    (observes_isFile project).bind fun _ => .ite (.pure _) <|
      (observes_isFolder project).bind fun _ => .ite (observes_firstFile _) (.pure _)
  refine .bind_run hfile.liftM fun found => ?_
  cases found <;> exact .pure _

theorem observes_findManifest (project : String) : Observes (findManifest host.files project).run := by
  have hfile : Observes (manifestFile? host.files project) :=
    (observes_isFile project).bind fun _ => observes_firstFile _
  refine .bind_run hfile.liftM fun found => ?_
  cases found <;> exact .pure _

theorem observes_readMetadata (path : String) : Observes (readMetadata host.files path).run := by
  refine .bind_run (observes_read path).liftM fun content => ?_
  cases content with
  | error fault => exact .pure _
  | ok text =>
    dsimp only
    split <;> exact .pure _

theorem observes_loadCompat (project : String) : Observes (loadCompat host.files project).run :=
  (observes_findProject project).bind_run fun _ => (observes_readMetadata _).bind_run fun _ => .pure _

theorem observes_loadPin (project : String) : Observes (loadPin host.files project).run :=
  (observes_findManifest project).bind_run fun _ => (observes_readMetadata _).bind_run fun _ => .pure _

end

/-! ## The server -/

theorem observes_request (method : Method) (url : String) : Observes (host.client.request method url) :=
  fun _ => ⟨rfl, rfl⟩

theorem observes_wait (delay : Nat) : Observes (host.client.wait delay) := fun _ => ⟨rfl, rfl⟩

theorem observes_download (url : String) : Observes (host.client.download url) := by
  refine (observes_request .get url).bind fun answer => ?_
  cases answer with
  | error fault => exact .pure _
  | ok response => exact .ite (.pure _) (.pure _)

theorem observes_attempt {once : StateM Machine (Except FetchError α)} (h : Observes once) (delay : UInt64) :
    ∀ (left : Nat) (retries : UInt32), Observes (host.client.attempt delay once left retries)
  | 0, retries => by
    rw [Client.attempt]
    refine h.bind fun result => ?_
    cases result with
    | ok a => exact .pure _
    | error e => exact .ite (.pure _) (.pure _)
  | left + 1, retries => by
    rw [Client.attempt]
    refine h.bind fun result => ?_
    cases result with
    | ok a => exact .pure _
    | error e => exact .ite ((observes_wait _).bind fun _ => observes_attempt h delay left _) (.pure _)

theorem observes_fetchCatalogue (settings : Settings) : Observes (host.client.fetchCatalogue settings) :=
  (observes_attempt (observes_download _) _ _ _).bind fun _ => .pure _

theorem observes_probe (settings : Settings) (branch : String) : Observes (host.client.probe settings branch) := by
  refine .bind (.bind (observes_request .head _) fun answer => ?_) fun _ => .pure _
  cases answer <;> exact .pure _

/-! ## The resolution -/

theorem observes_ofFetch {fetch : StateM Machine (Except FetchError α)} (h : Observes fetch) :
    Observes (ofFetch fetch).run := by
  refine h.liftM.bind_run fun result => ?_
  cases result <;> exact .pure _

/-- Sources that neither write nor print. -/
structure ObservingSources (sources : Sources (StateM Machine)) : Prop where
  compat : Observes sources.compat.run
  pin : Observes sources.pin.run
  available : Observes sources.available.run
  hasNightly : ∀ branch, Observes (sources.hasNightly branch).run

theorem observingSources (settings : Settings) (project : String) :
    ObservingSources (sources host settings project) where
  compat := observes_loadCompat project
  pin := observes_loadPin project
  available := (observes_ofFetch (observes_fetchCatalogue settings)).bind_run fun _ => .pure _
  hasNightly branch := observes_ofFetch (observes_probe settings branch)

namespace ObservingSources

variable {sources : Sources (StateM Machine)} (h : ObservingSources sources)
include h

theorem pick (known : Known) (s : Specifier) : Observes (sources.pick known s).run := by
  cases s with
  | nightly branch =>
    cases branch with
    | none => exact .pure _
    | some branch => exact (h.hasNightly branch).bind_run fun _ => .pure _
  | _ => exact .pure _

theorem pickEach (known : Known) (policy : Policy) : ∀ specifiers : List Specifier,
    Observes (sources.pickEach known policy specifiers).run
  | [] => .pure _
  | s :: specifiers =>
    (h.pick known s).bind_run fun _ => .bind_run (.pure _) fun _ =>
      (pickEach known policy specifiers).bind_run fun _ => .pure _

theorem resolve (lts : Range) (policy : Policy) (specifiers : List Specifier) :
    Observes (sources.resolve lts policy specifiers).run := by
  refine .bind_run ?_ fun known => h.pickEach known policy specifiers
  rw [Sources.learn_eq]
  have hcompat : Observes
      (if specifiers.contains (.alias .min) then some <$> sources.compat else Pure.pure none).run := by
    split
    · exact h.compat.map_run some
    · exact .pure _
  have hpin : Observes (if specifiers.contains (.alias .manifest) then sources.pin else Pure.pure none).run := by
    split
    · exact h.pin
    · exact .pure _
  exact hcompat.bind_run fun _ => hpin.bind_run fun _ => h.available.bind_run fun _ => .pure _

end ObservingSources

theorem observes_loadSettings : ∀ config : Option String, Observes (loadSettings host config).run
  | none => .pure _
  | some path => by
    refine (observes_read path).liftM.bind_run fun content => ?_
    cases content with
    | error fault => exact .pure _
    | ok text =>
      dsimp only
      split <;> exact .pure _

/-- A resolution leaves the files and the output as they are. -/
theorem observes_resolve (options : Options) (environment : String → Option String) :
    Observes (resolve host options environment).run := by
  refine (observes_loadSettings options.config).bind_run fun settings => ?_
  dsimp only
  split
  · exact .pure _
  next lts hlts =>
    refine .bind_run (.liftM ?_) fun outcome => ?_
    · exact .bind_run (.pure _) fun (specifiers, policy) =>
        ((observingSources settings _).resolve lts policy specifiers).bind_run fun _ => .pure _
    · cases outcome <;> exact .pure _

theorem answers_of_resolve {options : Options} {environment : String → Option String}
    {machine machine' : Machine} {report : Report}
    (h : (resolve host options environment).run.run machine = (.ok report, machine')) :
    report.AnswersInput options.version := by
  obtain ⟨settings, between, -, h⟩ := run_bind_eq_ok.mp h
  dsimp only at h
  split at h
  · cases h
  · obtain ⟨outcome, between, hresolve, h⟩ := run_bind_eq_ok.mp h
    cases outcome with
    | error failure => cases h
    | ok report' =>
      obtain ⟨rfl, -⟩ := run_pure_eq_ok.mp h
      have hanswers := Inputs.answers_of_resolve (run_lift_eq_ok.mp hresolve)
      exact hanswers

end CommandLine

end VersionPick
