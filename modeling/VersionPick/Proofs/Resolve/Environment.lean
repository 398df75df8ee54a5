/-
What a batch comes to in an environment, apart from the record of what was
asked for. The record is only ever written: a computation in an environment
ends like the same computation without effects (`Simulates`), so what is known
of the latter holds of the former.
-/
import VersionPick.Resolve.Environment
import VersionPick.Proofs.Project.Lookup
import VersionPick.Proofs.Resolve.Batch

namespace VersionPick

/-! ## Computations that keep a record -/

/-- Whatever is on record, the computation ends as the one without effects. -/
def Simulates (x : ExceptT Failure Recorded α) (y : ExceptT Failure Id α) : Prop :=
  ∀ trace, (Id.run (x.run.run trace)).1 = y.run

namespace Simulates

theorem pure (a : α) : Simulates (pure a) (pure a) := fun _ => rfl

theorem liftM (x : Except Failure α) : Simulates (liftM x) (liftM x) := fun _ => rfl

/-- A record of the question does not change the answer. -/
theorem recorded {x : ExceptT Failure Recorded α} {y : ExceptT Failure Id α} (e : Effect) (h : Simulates x y) :
    Simulates (do Environment.record e; x) y :=
  fun trace => h (trace ++ [e])

theorem bind {x : ExceptT Failure Recorded α} {y : ExceptT Failure Id α} (h : Simulates x y)
    {f : α → ExceptT Failure Recorded β} {g : α → ExceptT Failure Id β} (hf : ∀ a, Simulates (f a) (g a)) :
    Simulates (x >>= f) (y >>= g) := by
  intro trace
  have hx := h trace
  rw [ExceptT.run_bind, ExceptT.run_bind, StateT.run_bind, ← hx]
  rcases hrun : x.run.run trace with ⟨result, trace'⟩
  cases result with
  | error e => rfl
  | ok a => exact hf a trace'

theorem map {x : ExceptT Failure Recorded α} {y : ExceptT Failure Id α} (h : Simulates x y) (f : α → β) :
    Simulates (f <$> x) (f <$> y) := by
  rw [← bind_pure_comp, ← bind_pure_comp]
  exact h.bind fun a => pure (f a)

theorem ite {c : Prop} [Decidable c] {x x' : ExceptT Failure Recorded α} {y y' : ExceptT Failure Id α}
    (h : Simulates x y) (h' : Simulates x' y') : Simulates (if c then x else x') (if c then y else y') := by
  split
  · exact h
  · exact h'

/-- A computation that does nothing to the record. -/
theorem of_run_eq {x : ExceptT Failure Recorded α} {result : Except Failure α}
    (h : x.run = Pure.pure result) : Simulates x (ExceptT.mk result) := by
  intro trace
  rw [h]
  rfl

end Simulates

/-! ## Sources -/

/-- Sources that answer as others do, but keep a record. -/
structure Sources.Simulates (sources : Sources Recorded) (answers : Sources Id) : Prop where
  compat : VersionPick.Simulates sources.compat answers.compat
  pin : VersionPick.Simulates sources.pin answers.pin
  available : VersionPick.Simulates sources.available answers.available
  hasNightly : ∀ branch, VersionPick.Simulates (sources.hasNightly branch) (answers.hasNightly branch)

namespace Sources.Simulates

variable {sources : Sources Recorded} {answers : Sources Id} (h : sources.Simulates answers)
include h

theorem pick (known : Known) (s : Specifier) :
    VersionPick.Simulates (sources.pick known s) (answers.pick known s) := by
  cases s with
  | exact text => exact .liftM _
  | range text => exact .liftM _
  | «alias» a => exact .liftM _
  | nightly branch =>
    cases branch with
    | none => exact .pure _
    | some branch => exact (h.hasNightly branch).bind fun found => .pure _

theorem pickEach (known : Known) (policy : Policy) : ∀ specifiers : List Specifier,
    VersionPick.Simulates (sources.pickEach known policy specifiers) (answers.pickEach known policy specifiers)
  | [] => .pure _
  | s :: specifiers =>
    (h.pick known s).bind fun version => (VersionPick.Simulates.liftM (policy.settle s version)).bind fun _ =>
      (pickEach known policy specifiers).bind fun _ => .pure _

theorem learn (lts : Range) (specifiers : List Specifier) :
    VersionPick.Simulates (sources.learn lts specifiers) (answers.learn lts specifiers) := by
  rw [learn_eq, learn_eq]
  refine .bind (.ite (h.compat.map some) (.pure none)) fun compat => ?_
  refine .bind (.ite h.pin (.pure none)) fun pin => ?_
  exact h.available.bind fun available => .pure _

theorem resolve (lts : Range) (policy : Policy) (specifiers : List Specifier) :
    VersionPick.Simulates (sources.resolve lts policy specifiers) (answers.resolve lts policy specifiers) :=
  (h.learn lts specifiers).bind fun known => h.pickEach known policy specifiers

end Sources.Simulates

/-! ## Environments -/

namespace Environment

/-- The outcome of a download, as one of a resolution. -/
def fetched (outcome : Except FetchError α) : ExceptT Failure Id α :=
  ExceptT.mk (outcome.mapError .fetch)

/-- The answers of an environment, without a record of the questions. -/
def answers (e : Environment) : Sources Id where
  compat := ExceptT.mk (e.tree.compat e.project)
  pin := ExceptT.mk (e.tree.pin e.project)
  available := (·.versions) <$> fetched e.catalogue
  hasNightly branch := fetched (e.nightly branch)

theorem simulates_ofFetch (outcome : Except FetchError α) : Simulates (ofFetch outcome) (fetched outcome) := by
  cases outcome <;> exact fun _ => rfl

/-- An environment answers whatever is on record. -/
theorem sources_simulates (e : Environment) : e.sources.Simulates e.answers := by
  unfold sources answers
  constructor
  case compat => exact .recorded .readCompat (.of_run_eq (Project.run_loadCompat e.tree e.project))
  case pin =>
    dsimp only
    exact .recorded .readPin (.of_run_eq (Project.run_loadPin e.tree e.project))
  case available => exact .recorded .fetchCatalogue ((simulates_ofFetch e.catalogue).map _)
  case hasNightly => exact fun branch => .recorded (.probe branch) (simulates_ofFetch (e.nightly branch))

/-- How a list of specifiers is resolved in an environment. -/
def outcome (e : Environment) (lts : Range) (policy : Policy) (specifiers : List Specifier) :
    Except Failure (List (Option String)) :=
  (Id.run ((e.sources.resolve lts policy specifiers).run.run [])).1

variable {e : Environment} {lts : Range} {policy : Policy}

theorem outcome_eq_ok {specifiers : List Specifier} {resolved : List (Option String)} :
    e.outcome lts policy specifiers = .ok resolved ↔ Ends (e.answers.resolve lts policy specifiers) resolved := by
  rw [outcome, e.sources_simulates.resolve lts policy specifiers []]
  rfl

theorem outcome_eq_ok_iff {specifiers : List Specifier} (hne : specifiers ≠ []) {resolved : List (Option String)} :
    e.outcome lts policy specifiers = .ok resolved ↔
      List.Forall₂ (e.answers.Answers lts policy) specifiers resolved := by
  rw [outcome_eq_ok, Sources.ends_resolve hne]

theorem outcome_single {s : Specifier} {resolved : List (Option String)} :
    e.outcome lts policy [s] = .ok resolved ↔ ∃ r, e.answers.Answers lts policy s r ∧ resolved = [r] := by
  rw [outcome_eq_ok, Sources.ends_resolve_single]

/-- Places of two lists that hold the same specifier hold the same version. -/
theorem getElem?_eq_of_outcome {specifiers specifiers' : List Specifier} {resolved resolved' : List (Option String)}
    (h : List.Forall₂ (e.answers.Answers lts policy) specifiers resolved)
    (h' : List.Forall₂ (e.answers.Answers lts policy) specifiers' resolved') {i j : Nat}
    (hij : specifiers[i]? = specifiers'[j]?) : resolved[i]? = resolved'[j]? := by
  cases hs : specifiers[i]? with
  | none =>
    have hi := List.getElem?_eq_none_iff.mp hs
    have hj := List.getElem?_eq_none_iff.mp (hij ▸ hs)
    rw [List.getElem?_eq_none (h.length_eq ▸ hi), List.getElem?_eq_none (h'.length_eq ▸ hj)]
  | some s =>
    obtain ⟨r, hr, ha⟩ := exists_getElem?_of_forall₂ h hs
    obtain ⟨r', hr', ha'⟩ := exists_getElem?_of_forall₂ h' (hij ▸ hs)
    rw [hr, hr', ha.unique ha']

/-- **Specifiers are resolved together as they are one by one.** A list is
resolved when each of its specifiers is, alone; the versions are those of the
specifiers alone, in their order, and do not depend on the rest of the list. -/
theorem outcome_pointwise (e : Environment) (lts : Range) (policy : Policy) {specifiers : List Specifier}
    (hne : specifiers ≠ []) :
    ((∃ resolved, e.outcome lts policy specifiers = .ok resolved) ↔
      ∀ s ∈ specifiers, ∃ alone, e.outcome lts policy [s] = .ok alone) ∧
    ∀ resolved, e.outcome lts policy specifiers = .ok resolved →
      (∃ alones, List.Forall₂ (fun s alone => e.outcome lts policy [s] = .ok alone) specifiers alones ∧
        resolved = alones.flatten) ∧
      resolved.length = specifiers.length ∧
      ∀ (specifiers' : List Specifier) (resolved' : List (Option String)), specifiers' ≠ [] →
        e.outcome lts policy specifiers' = .ok resolved' →
        ∀ i j : Nat, specifiers[i]? = specifiers'[j]? → resolved[i]? = resolved'[j]? := by
  refine ⟨?_, fun resolved hr => ?_⟩
  · simp only [outcome_eq_ok_iff hne, exists_forall₂, outcome_single]
    refine forall₂_congr fun s _ => ⟨fun ⟨r, hr⟩ => ⟨[r], r, hr, rfl⟩, fun ⟨_, r, hr, _⟩ => ⟨r, hr⟩⟩
  · rw [outcome_eq_ok_iff hne] at hr
    have hflat : resolved = (resolved.map fun r => [r]).flatten := by
      rw [← List.flatMap_def, List.flatMap_singleton']
    refine ⟨⟨_, ?_, hflat⟩, hr.length_eq.symm, ?_⟩
    · rw [List.forall₂_map_right_iff]
      exact hr.imp fun s r ha => outcome_single.mpr ⟨r, ha, rfl⟩
    · intro specifiers' resolved' hne' hr' i j hij
      exact getElem?_eq_of_outcome hr ((outcome_eq_ok_iff hne').mp hr') hij

/-- A listed release and a nightly build, asked for together. -/
theorem outcome_release_and_nightly :
    ∃ (e : Environment) (specifiers : List Specifier), specifiers ≠ [] ∧ specifiers.length = 2 ∧
      ∃ resolved, e.outcome .any .error specifiers = .ok resolved ∧ resolved.length = 2 := by
  let e : Environment := {
    tree := .empty
    project := "."
    catalogue := .ok (.ofList [("v1.10.5", ⟨[], true⟩), ("1.11.0-rc1", ⟨[], false⟩)])
    nightly := fun branch => .ok (branch == "1.12") }
  let specifiers : List Specifier := [.exact "1.10.5", .nightly (some "1.12")]
  have hne : specifiers ≠ [] := by simp [specifiers]
  have hspec := outcome_pointwise e .any .error hne
  have hexact : e.outcome .any .error [.exact "1.10.5"] = .ok [some "v1.10.5"] := by decide +kernel
  have hnightly : e.outcome .any .error [.nightly (some "1.12")] = .ok [some "1.12-nightly"] := by
    decide +kernel
  obtain ⟨resolved, hr⟩ := hspec.1.mpr (by
    simp only [specifiers, List.forall_mem_cons]
    exact ⟨⟨_, hexact⟩, ⟨_, hnightly⟩, by simp⟩)
  exact ⟨e, specifiers, hne, rfl, resolved, hr, (hspec.2 resolved hr).2.1⟩

end Environment

end VersionPick
