/-
The course of a resolution: what it asks for, in which order, and where it
ends. The specifiers of a batch fix its stages (`Stage.of`). The stages are
gone through one by one; the first that fails ends the batch with its failure,
and nothing is asked for behind it (`Course`). `Stage.Fails` says when a stage
fails without following the computation.

The nightly builds are probed by a script here, whose answer to a probe may
depend on everything that was asked for before. What a computation asks for
is put together from what its parts ask for (`GoesThrough.bind`), so each
source is looked at once.
-/
import VersionPick.Resolve.Inputs
import VersionPick.Proofs.Resolve.Choice
import VersionPick.Proofs.Resolve.Environment

namespace VersionPick

/-- The answers to probes, by what was asked for before and the branch. -/
abbrev Script := List Effect → String → Except FetchError Bool

namespace Environment

/-- The sources of an environment in which a script answers the probes. -/
def scripted (e : Environment) (script : Script) : Sources Recorded :=
  { e.sources with
    hasNightly := fun branch => do
      let asked ← (get : Recorded (List Effect))
      record (.probe branch)
      ofFetch (script asked branch) }

/-- All that specifiers can be resolved against in an environment. What cannot
be had is left out. -/
def known (e : Environment) (lts : Range) : Known where
  lts
  available :=
    match e.catalogue with
    | .ok catalogue => catalogue.versions
    | .error _ => []
  compat := (e.tree.compat e.project).toOption
  pin := (e.tree.pin e.project).toOption.join

end Environment

/-- How a computation ends, and what is on record then. -/
def runFrom (asked : List Effect) (x : ExceptT Failure Recorded α) : Except Failure α × List Effect :=
  Id.run (x.run.run asked)

namespace Environment

/-- A batch in an environment: its versions or its failure, and its record. -/
def batch (e : Environment) (script : Script) (lts : Range) (policy : Policy) (specifiers : List Specifier) :
    Except Failure (List (Option String)) × List Effect :=
  runFrom [] ((e.scripted script).resolve lts policy specifiers)

/-- What the inputs of a user come to in an environment. -/
def report (e : Environment) (script : Script) (lts : Range) (inputs : Inputs) :
    Except Failure Report × List Effect :=
  runFrom [] (inputs.resolve (e.scripted script) lts)

end Environment

/-! ## Stages -/

/-- A part of a batch that can fail. -/
inductive Stage
  | compat
  | pin
  | catalogue
  | specifier (s : Specifier)
  deriving DecidableEq, Repr

namespace Stage

/-- The metadata that specifiers ask for. -/
def loads (specifiers : List Specifier) : List Stage :=
  (if .alias .min ∈ specifiers then [compat] else []) ++ (if .alias .manifest ∈ specifiers then [pin] else [])

/-- What comes before the first specifier. -/
def preparation (specifiers : List Specifier) : List Stage :=
  loads specifiers ++ [catalogue]

/-- The stages of a batch. -/
def of (specifiers : List Specifier) : List Stage :=
  preparation specifiers ++ specifiers.map specifier

/-- What a stage asks for. -/
def effects : Stage → List Effect
  | compat => [.readCompat]
  | pin => [.readPin]
  | catalogue => [.fetchCatalogue]
  | specifier (.nightly (some branch)) => [.probe branch]
  | specifier _ => []

/-- A stage fails, when `asked` is what was asked for before it. A specifier
fails for want of a version under the policy `error` only. -/
inductive Fails (e : Environment) (script : Script) (lts : Range) (policy : Policy) (asked : List Effect) :
    Stage → Failure → Prop
  | compat {failure : Failure} (h : e.tree.compat e.project = .error failure) :
    Fails e script lts policy asked compat failure
  | pin {failure : Failure} (h : e.tree.pin e.project = .error failure) :
    Fails e script lts policy asked pin failure
  | catalogue {fault : FetchError} (h : e.catalogue = .error fault) :
    Fails e script lts policy asked catalogue (.fetch fault)
  | probe {branch : String} {fault : FetchError} (h : script asked branch = .error fault) :
    Fails e script lts policy asked (specifier (.nightly (some branch))) (.fetch fault)
  | unpublished {branch : String} (hpolicy : policy = .error) (h : script asked branch = .ok false) :
    Fails e script lts policy asked (specifier (.nightly (some branch))) (.noMatch (branch ++ "-nightly"))
  | noMatch {s : Specifier} (hpolicy : policy = .error) (hs : ∀ branch, s ≠ .nightly branch)
      (h : ∀ entry, ¬ (e.known lts).Qualifies s entry) :
    Fails e script lts policy asked (specifier s) (.noMatch s.text)

end Stage

/-- From a record on, stages are gone through up to the first that fails. -/
inductive Course (fails : List Effect → Stage → Failure → Prop) :
    List Effect → List Stage → Option Failure → List Effect → Prop
  | done {asked : List Effect} : Course fails asked [] none asked
  | stop {asked : List Effect} {stage : Stage} {stages : List Stage} {failure : Failure}
      (h : fails asked stage failure) :
    Course fails asked (stage :: stages) (some failure) (asked ++ stage.effects)
  | step {asked record : List Effect} {stage : Stage} {stages : List Stage} {ending : Option Failure}
      (h : ∀ failure, ¬ fails asked stage failure)
      (rest : Course fails (asked ++ stage.effects) stages ending record) :
    Course fails asked (stage :: stages) ending record

namespace Course

variable {fails : List Effect → Stage → Failure → Prop} {asked record : List Effect}
variable {stages stages' : List Stage} {ending : Option Failure} {failure : Failure}

/-- A course over two parts ends in the first, or goes through it and on. -/
theorem append_iff : Course fails asked (stages ++ stages') ending record ↔
    (∃ failure, ending = some failure ∧ Course fails asked stages (some failure) record) ∨
    ∃ between, Course fails asked stages none between ∧ Course fails between stages' ending record := by
  induction stages generalizing asked with
  | nil =>
    constructor
    · intro h
      exact .inr ⟨asked, .done, h⟩
    · rintro (⟨_, _, h⟩ | ⟨_, h, h'⟩)
      · cases h
      · cases h
        exact h'
  | cons stage stages ih =>
    constructor
    · intro h
      cases h with
      | stop h => exact .inl ⟨_, rfl, .stop h⟩
      | step h rest =>
        rcases ih.mp rest with ⟨failure, rfl, h'⟩ | ⟨between, h', rest'⟩
        · exact .inl ⟨failure, rfl, .step h h'⟩
        · exact .inr ⟨between, .step h h', rest'⟩
    · rintro (⟨_, rfl, h⟩ | ⟨between, h, rest'⟩)
      · cases h with
        | stop h => exact .stop h
        | step h rest => exact .step h (ih.mpr (.inl ⟨_, rfl, rest⟩))
      · cases h with
        | step h rest => exact .step h (ih.mpr (.inr ⟨between, rest, rest'⟩))

/-- What was asked for is what the stages asked for that were gone through. -/
theorem exists_performed (h : Course fails asked stages ending record) :
    ∃ performed rest, stages = performed ++ rest ∧ record = asked ++ performed.flatMap Stage.effects ∧
      (ending = none → rest = []) ∧
      ∀ failure, ending = some failure → ∃ before stage, performed = before ++ [stage] ∧
        fails (asked ++ before.flatMap Stage.effects) stage failure := by
  induction h with
  | done => exact ⟨[], [], rfl, by simp, fun _ => rfl, nofun⟩
  | @stop _ stage stages failure h =>
    refine ⟨[stage], stages, rfl, by simp, nofun, fun _ he => ?_⟩
    cases he
    exact ⟨[], stage, rfl, by simpa using h⟩
  | @step _ _ stage stages ending h _ ih =>
    obtain ⟨performed, rest, rfl, rfl, hnone, hsome⟩ := ih
    refine ⟨stage :: performed, rest, rfl, by simp, hnone, fun failure he => ?_⟩
    obtain ⟨before, last, rfl, hf⟩ := hsome failure he
    exact ⟨stage :: before, last, rfl, by simpa using hf⟩

theorem exists_fails (h : Course fails asked stages (some failure) record) :
    ∃ stage ∈ stages, ∃ asked, fails asked stage failure := by
  obtain ⟨performed, rest, rfl, -, -, hsome⟩ := h.exists_performed
  obtain ⟨before, stage, rfl, hf⟩ := hsome failure rfl
  exact ⟨stage, by simp, _, hf⟩

theorem not_fails_of_mem (h : Course fails asked stages none record) {stage : Stage} (hs : stage ∈ stages) :
    ∃ asked, ∀ failure, ¬ fails asked stage failure := by
  generalize he : (none : Option Failure) = ending at h
  induction h with
  | done => cases hs
  | stop _ => cases he
  | @step asked _ _ _ _ hfirst _ ih =>
    rcases List.mem_cons.mp hs with rfl | hs
    · exact ⟨asked, hfirst⟩
    · exact ih hs he

end Course

/-! ## Computations along stages -/

/-- The failure that a computation ends with, if it does. -/
def failure? : Except Failure α → Option Failure
  | .ok _ => none
  | .error failure => some failure

/-- From whatever record, a computation takes its course over stages. -/
def GoesThrough (fails : List Effect → Stage → Failure → Prop) (stages : List Stage)
    (x : ExceptT Failure Recorded α) : Prop :=
  ∀ asked, Course fails asked stages (failure? (runFrom asked x).1) (runFrom asked x).2

theorem runFrom_bind {x : ExceptT Failure Recorded α} {f : α → ExceptT Failure Recorded β} (asked : List Effect) :
    runFrom asked (x >>= f) =
      match runFrom asked x with
      | (.ok a, between) => runFrom between (f a)
      | (.error failure, record) => (.error failure, record) := by
  simp only [runFrom]
  rw [ExceptT.run_bind, StateT.run_bind]
  rcases hx : x.run.run asked with ⟨result, between⟩
  cases result <;> rfl

theorem runFrom_pure (a : α) (asked : List Effect) :
    runFrom asked (pure a : ExceptT Failure Recorded α) = (.ok a, asked) := rfl

theorem runFrom_liftM (x : Except Failure α) (asked : List Effect) :
    runFrom asked (liftM x : ExceptT Failure Recorded α) = (x, asked) := rfl

namespace GoesThrough

variable {fails : List Effect → Stage → Failure → Prop} {stages stages' : List Stage}

theorem pure (a : α) : GoesThrough fails [] (Pure.pure a : ExceptT Failure Recorded α) := fun _ => .done

/-- What follows a computation may rest on what that computation can give. -/
theorem bind {x : ExceptT Failure Recorded α} {f : α → ExceptT Failure Recorded β} (hx : GoesThrough fails stages x)
    (hf : ∀ asked a, (runFrom asked x).1 = .ok a → GoesThrough fails stages' (f a)) :
    GoesThrough fails (stages ++ stages') (x >>= f) := by
  intro asked
  have hcourse := hx asked
  have hrest := hf asked
  rw [runFrom_bind]
  rcases hrun : runFrom asked x with ⟨result, between⟩
  rw [hrun] at hcourse hrest
  cases result with
  | error failure => exact Course.append_iff.mpr (.inl ⟨failure, rfl, hcourse⟩)
  | ok a => exact Course.append_iff.mpr (.inr ⟨between, hcourse, hrest a rfl between⟩)

theorem map {x : ExceptT Failure Recorded α} (hx : GoesThrough fails stages x) (f : α → β) :
    GoesThrough fails stages (f <$> x) := by
  rw [← bind_pure_comp, ← List.append_nil stages]
  exact hx.bind fun _ a _ => pure (f a)

theorem ite {c : Prop} [Decidable c] {x x' : ExceptT Failure Recorded α} (h : GoesThrough fails stages x)
    (h' : GoesThrough fails stages' x') :
    GoesThrough fails (if c then stages else stages') (if c then x else x') := by
  split
  · exact h
  · exact h'

/-- One stage: it is put on record, and fails as the computation does. -/
theorem single {x : ExceptT Failure Recorded α} {stage : Stage}
    (h : ∀ asked, (runFrom asked x).2 = asked ++ stage.effects ∧
      ∀ failure, (runFrom asked x).1 = .error failure ↔ fails asked stage failure) :
    GoesThrough fails [stage] x := by
  intro asked
  obtain ⟨hrecord, hfails⟩ := h asked
  rw [hrecord]
  cases hresult : (runFrom asked x).1 with
  | error failure => exact .stop ((hfails failure).mp hresult)
  | ok a =>
    refine .step (fun failure hf => ?_) .done
    rw [← hfails, hresult] at hf
    cases hf

end GoesThrough

/-! ## The sources of an environment -/

theorem runFrom_recorded (x : ExceptT Failure Recorded α) (effect : Effect) (asked : List Effect) :
    runFrom asked (do Environment.record effect; x) = runFrom (asked ++ [effect]) x := rfl

theorem runFrom_of_run_eq {x : ExceptT Failure Recorded α} {result : Except Failure α} (h : x.run = pure result)
    (asked : List Effect) : runFrom asked x = (result, asked) := by
  rw [runFrom, h]
  rfl

namespace Environment

variable (e : Environment) (script : Script) (lts : Range) (policy : Policy)

theorem runFrom_compat (asked : List Effect) :
    runFrom asked (e.scripted script).compat = (e.tree.compat e.project, asked ++ [.readCompat]) :=
  (runFrom_recorded _ _ asked).trans (runFrom_of_run_eq (Project.run_loadCompat e.tree e.project) _)

theorem runFrom_pin (asked : List Effect) :
    runFrom asked (e.scripted script).pin = (e.tree.pin e.project, asked ++ [.readPin]) :=
  (runFrom_recorded _ _ asked).trans (runFrom_of_run_eq (Project.run_loadPin e.tree e.project) _)

theorem runFrom_available (asked : List Effect) : runFrom asked (e.scripted script).available =
    ((e.catalogue.mapError .fetch).map (·.versions), asked ++ [.fetchCatalogue]) := by
  refine (runFrom_recorded _ _ asked).trans ?_
  cases e.catalogue <;> rfl

theorem runFrom_hasNightly (branch : String) (asked : List Effect) :
    runFrom asked ((e.scripted script).hasNightly branch) =
      ((script asked branch).mapError .fetch, asked ++ [.probe branch]) := by
  change runFrom (asked ++ [.probe branch]) (ofFetch (script asked branch)) = _
  cases script asked branch <;> rfl

theorem fails_compat_iff {asked : List Effect} {failure : Failure} :
    Stage.Fails e script lts policy asked .compat failure ↔ e.tree.compat e.project = .error failure :=
  ⟨fun | .compat h => h, .compat⟩

theorem fails_pin_iff {asked : List Effect} {failure : Failure} :
    Stage.Fails e script lts policy asked .pin failure ↔ e.tree.pin e.project = .error failure :=
  ⟨fun | .pin h => h, .pin⟩

theorem fails_catalogue_iff {asked : List Effect} {failure : Failure} :
    Stage.Fails e script lts policy asked .catalogue failure ↔
      ∃ fault, e.catalogue = .error fault ∧ failure = .fetch fault :=
  ⟨fun | .catalogue h => ⟨_, h, rfl⟩, fun ⟨_, h, he⟩ => he ▸ .catalogue h⟩

/-- Learning takes its course over the preparation of a batch. -/
theorem learn_goesThrough (specifiers : List Specifier) :
    GoesThrough (Stage.Fails e script lts policy) (Stage.preparation specifiers)
      ((e.scripted script).learn lts specifiers) := by
  have hcompat : GoesThrough (Stage.Fails e script lts policy) [.compat] (e.scripted script).compat := by
    refine .single fun asked => ?_
    simp only [runFrom_compat, fails_compat_iff, Stage.effects, implies_true, and_self]
  have hpin : GoesThrough (Stage.Fails e script lts policy) [.pin] (e.scripted script).pin := by
    refine .single fun asked => ?_
    simp only [runFrom_pin, fails_pin_iff, Stage.effects, implies_true, and_self]
  have havailable : GoesThrough (Stage.Fails e script lts policy) [.catalogue] (e.scripted script).available := by
    refine .single fun asked => ?_
    rw [runFrom_available]
    refine ⟨rfl, fun failure => ?_⟩
    rw [fails_catalogue_iff]
    cases e.catalogue <;> simp [Except.mapError, Except.map, eq_comm]
  have hlearn := (GoesThrough.ite (c := .alias .min ∈ specifiers) (hcompat.map some) (.pure none)).bind
    fun _ compat _ =>
    (GoesThrough.ite (c := .alias .manifest ∈ specifiers) hpin (.pure none)).bind fun _ pin _ =>
    havailable.bind fun _ available _ => .pure (⟨lts, available, compat, pin⟩ : Known)
  simpa only [Sources.learn_eq, Stage.preparation, Stage.loads, List.contains_eq_mem, decide_eq_true_eq,
    List.append_nil, List.append_assoc] using hlearn

variable {e script lts policy}

theorem ends_learn_of_runFrom {specifiers : List Specifier} {asked : List Effect} {known : Known}
    (h : (runFrom asked ((e.scripted script).learn lts specifiers)).1 = .ok known) :
    Ends (e.answers.learn lts specifiers) known :=
  (e.sources_simulates.learn lts specifiers asked).symm.trans h

theorem ends_fetched {outcome : Except FetchError α} {a : α} : Ends (fetched outcome) a ↔ outcome = .ok a := by
  cases outcome with
  | error fault => exact iff_of_false nofun nofun
  | ok b => exact ⟨fun h => by cases h; rfl, fun h => by cases h; rfl⟩

theorem ends_compat {compat : Range} : Ends e.answers.compat compat ↔ e.tree.compat e.project = .ok compat := by
  simp only [Ends, answers, ExceptT.run_mk]

theorem ends_pin {pin : Option String} : Ends e.answers.pin pin ↔ e.tree.pin e.project = .ok pin := by
  simp only [Ends, answers, ExceptT.run_mk]

/-- What a batch learns is, for its specifiers, all that can be known. -/
theorem agreeFor_known {specifiers : List Specifier} {known : Known} (h : Ends (e.answers.learn lts specifiers) known)
    {s : Specifier} (hs : s ∈ specifiers) :
    Known.AgreeFor s known (e.known lts) ∧ (s = .alias .min → (e.known lts).compat ≠ none) := by
  obtain ⟨hlts, ha, hc, hp⟩ := Sources.ends_learn.mp h
  have hmin : s = .alias .min → ∃ compat, known.compat = some compat ∧ (e.known lts).compat = some compat := by
    rintro rfl
    rw [if_pos hs] at hc
    obtain ⟨compat, hcompat, he⟩ := hc
    have hload := ends_compat.mp hcompat
    exact ⟨compat, he.symm, by simp [Environment.known, hload, Except.toOption]⟩
  refine ⟨⟨hlts, ?_, fun he => ?_, ?_⟩, fun he => ?_⟩
  · obtain ⟨catalogue, hf, he⟩ := ends_map.mp ha
    simp only [Environment.known, ends_fetched.mp hf]
    exact he.symm
  · obtain ⟨compat, hk, hk'⟩ := hmin he
    rw [hk, hk']
  · rintro rfl
    rw [if_pos hs] at hp
    have hload := ends_pin.mp hp
    simp [Environment.known, hload, Except.toOption]
  · obtain ⟨compat, -, hk'⟩ := hmin he
    simp [hk']

end Environment

/-! ## Specifiers -/

namespace Sources

/-- What a batch does about one specifier. -/
def answer {m : Type → Type} [Monad m] (sources : Sources m) (known : Known) (policy : Policy) (s : Specifier) :
    ExceptT Failure m (Option String) :=
  sources.pick known s >>= fun version => liftM (policy.settle s version)

theorem pickEach_cons {m : Type → Type} [Monad m] [LawfulMonad m] (sources : Sources m) (known : Known)
    (policy : Policy) (s : Specifier) (specifiers : List Specifier) :
    sources.pickEach known policy (s :: specifiers) =
      sources.answer known policy s >>= fun version => (version :: ·) <$> sources.pickEach known policy specifiers := by
  simp only [pickEach, answer, bind_assoc, map_eq_pure_bind]

theorem pick_of_not_nightly {m : Type → Type} [Monad m] (sources : Sources m) (known : Known) {s : Specifier}
    (hs : ∀ branch, s ≠ .nightly branch) : sources.pick known s = liftM (known.resolve s) := by
  cases s with
  | exact text => rfl
  | range text => rfl
  | «alias» a => rfl
  | nightly branch => exact absurd rfl (hs branch)

end Sources

namespace Environment

variable {e : Environment} {script : Script} {lts : Range} {policy : Policy} {known : Known}

theorem fails_nightly_iff {asked : List Effect} {branch : String} {failure : Failure} :
    Stage.Fails e script lts policy asked (.specifier (.nightly (some branch))) failure ↔
      (∃ fault, script asked branch = .error fault ∧ failure = .fetch fault) ∨
      (policy = .error ∧ script asked branch = .ok false ∧ failure = .noMatch (branch ++ "-nightly")) := by
  constructor
  · intro h
    cases h with
    | probe h => exact .inl ⟨_, h, rfl⟩
    | unpublished hpolicy h => exact .inr ⟨hpolicy, h, rfl⟩
    | noMatch _ hs _ => exact absurd rfl (hs _)
  · rintro (⟨fault, h, rfl⟩ | ⟨hpolicy, h, rfl⟩)
    · exact .probe h
    · exact .unpublished hpolicy h

theorem fails_specifier_iff {s : Specifier} (hs : ∀ branch, s ≠ .nightly branch) {asked : List Effect}
    {failure : Failure} : Stage.Fails e script lts policy asked (.specifier s) failure ↔
      policy = .error ∧ (∀ entry, ¬ (e.known lts).Qualifies s entry) ∧ failure = .noMatch s.text := by
  constructor
  · intro h
    cases h with
    | probe _ => exact absurd rfl (hs _)
    | unpublished _ _ => exact absurd rfl (hs _)
    | noMatch hpolicy _ h => exact ⟨hpolicy, h, rfl⟩
  · rintro ⟨hpolicy, h, rfl⟩
    exact .noMatch hpolicy hs h

theorem answer_nightly (branch : String) : GoesThrough (Stage.Fails e script lts policy)
    [.specifier (.nightly (some branch))] ((e.scripted script).answer known policy (.nightly (some branch))) := by
  refine .single fun asked => ?_
  simp only [Sources.answer, Sources.pick, bind_assoc, runFrom_bind, runFrom_hasNightly, fails_nightly_iff]
  cases script asked branch with
  | error fault => simp [Except.mapError, Stage.effects, eq_comm]
  | ok found =>
    cases found <;> cases policy <;>
      simp [Except.mapError, Policy.settle, runFrom_pure, runFrom_liftM, Stage.effects, Specifier.text, eq_comm]

/-- The nightly build without a branch is always there. -/
theorem answer_latest_nightly : GoesThrough (Stage.Fails e script lts policy) [.specifier (.nightly none)]
    ((e.scripted script).answer known policy (.nightly none)) := by
  have hnever : ∀ asked failure, ¬ Stage.Fails e script lts policy asked (.specifier (.nightly none)) failure := by
    intro asked failure h
    cases h with
    | noMatch _ hs _ => exact hs none rfl
  refine .single fun asked => ⟨(List.append_nil asked).symm, fun failure => ?_⟩
  exact iff_of_false nofun (hnever asked failure)

theorem answer_specifier {s : Specifier} (hs : ∀ branch, s ≠ .nightly branch)
    (ha : Known.AgreeFor s known (e.known lts)) (hmin : s = .alias .min → (e.known lts).compat ≠ none) :
    GoesThrough (Stage.Fails e script lts policy) [.specifier s] ((e.scripted script).answer known policy s) := by
  have heffects : (Stage.specifier s).effects = [] := by
    cases s with
    | nightly branch => exact absurd rfl (hs branch)
    | _ => rfl
  refine .single fun asked => ?_
  simp only [Sources.answer, Sources.pick_of_not_nightly _ _ hs, Known.resolve_congr ha, runFrom_bind, runFrom_liftM,
    heffects, List.append_nil, fails_specifier_iff hs]
  cases hr : (e.known lts).resolve s with
  | error failure =>
    obtain ⟨he, hnone, -⟩ := Known.resolve_eq_error.mp hr
    exact absurd hnone (hmin he)
  | ok version =>
    cases version with
    | some entry =>
      have hsome : ¬ ∀ entry, ¬ (e.known lts).Qualifies s entry := fun h => by
        simp [Known.resolve_eq_none.mpr ⟨h, fun hn => hmin hn.1 hn.2⟩] at hr
      simp [Policy.settle, hsome]
    | none =>
      have hnone := (Known.resolve_eq_none.mp hr).1
      cases policy <;> simp [Policy.settle, hnone, eq_comm]

theorem answer_goesThrough {s : Specifier} (ha : Known.AgreeFor s known (e.known lts))
    (hmin : s = .alias .min → (e.known lts).compat ≠ none) :
    GoesThrough (Stage.Fails e script lts policy) [.specifier s] ((e.scripted script).answer known policy s) := by
  cases s with
  | nightly branch =>
    cases branch with
    | none => exact answer_latest_nightly
    | some branch => exact answer_nightly branch
  | _ => exact answer_specifier nofun ha hmin

theorem pickEach_goesThrough : ∀ {specifiers : List Specifier},
    (∀ s ∈ specifiers, Known.AgreeFor s known (e.known lts) ∧ (s = .alias .min → (e.known lts).compat ≠ none)) →
    GoesThrough (Stage.Fails e script lts policy) (specifiers.map .specifier)
      ((e.scripted script).pickEach known policy specifiers)
  | [], _ => .pure _
  | s :: specifiers, h => by
    obtain ⟨⟨ha, hmin⟩, hrest⟩ := List.forall_mem_cons.mp h
    rw [Sources.pickEach_cons]
    exact (answer_goesThrough ha hmin).bind fun _ _ _ => (pickEach_goesThrough hrest).map _

/-- A batch takes its course over its stages. -/
theorem resolve_goesThrough (specifiers : List Specifier) : GoesThrough (Stage.Fails e script lts policy)
    (Stage.of specifiers) ((e.scripted script).resolve lts policy specifiers) :=
  (learn_goesThrough e script lts policy specifiers).bind fun _ _ hknown =>
    pickEach_goesThrough fun _ hs => agreeFor_known (ends_learn_of_runFrom hknown) hs

end Environment

/-! ## What is on record -/

/-- The branch that is probed. -/
def Effect.branch? : Effect → Option String
  | .probe branch => some branch
  | _ => none

/-- The branch that a specifier asks for. -/
def Specifier.branch : Specifier → Option String
  | .nightly branch => branch
  | _ => none

namespace Stage

theorem probes_specifier (s : Specifier) : (specifier s).effects.filterMap Effect.branch? = s.branch.toList := by
  cases s with
  | nightly branch => cases branch <;> rfl
  | _ => rfl

theorem probes_specifiers : ∀ specifiers : List Specifier,
    ((specifiers.map specifier).flatMap effects).filterMap Effect.branch? = specifiers.filterMap Specifier.branch
  | [] => rfl
  | s :: specifiers => by
    rw [List.map_cons, List.flatMap_cons, List.filterMap_append, probes_specifier, probes_specifiers specifiers]
    cases hs : s.branch <;> simp [hs]

end Stage

namespace Course

variable {fails : List Effect → Stage → Failure → Prop} {asked record : List Effect}
variable {stages : List Stage} {ending : Option Failure}

/-- Whatever is on record afterwards was there, or is asked for by a stage. -/
theorem exists_appended (h : Course fails asked stages ending record) :
    ∃ more, record = asked ++ more ∧ ∀ effect ∈ more, ∃ stage ∈ stages, effect ∈ stage.effects := by
  obtain ⟨performed, rest, rfl, hrecord, -⟩ := h.exists_performed
  refine ⟨_, hrecord, fun effect he => ?_⟩
  obtain ⟨stage, hs, he⟩ := List.mem_flatMap.mp he
  exact ⟨stage, List.mem_append_left rest hs, he⟩

theorem count_eq (h : Course fails asked stages ending record) {effect : Effect}
    (hnone : ∀ stage ∈ stages, effect ∉ stage.effects) : record.count effect = asked.count effect := by
  obtain ⟨more, rfl, hmore⟩ := h.exists_appended
  have hzero : more.count effect = 0 := List.count_eq_zero.mpr fun he => by
    obtain ⟨stage, hs, he⟩ := hmore effect he
    exact hnone stage hs he
  rw [List.count_append, hzero, Nat.add_zero]

theorem probes_eq (h : Course fails asked stages ending record)
    (hnone : ∀ stage ∈ stages, stage.effects.filterMap Effect.branch? = []) :
    record.filterMap Effect.branch? = asked.filterMap Effect.branch? := by
  obtain ⟨more, rfl, hmore⟩ := h.exists_appended
  have hnil : more.filterMap Effect.branch? = [] := List.filterMap_eq_nil_iff.mpr fun effect he => by
    obtain ⟨stage, hs, he⟩ := hmore effect he
    exact List.filterMap_eq_nil_iff.mp (hnone stage hs) effect he
  rw [List.filterMap_append, hnil, List.append_nil]

end Course

namespace Stage

theorem mem_loads {specifiers : List Specifier} {stage : Stage} : stage ∈ loads specifiers ↔
    (stage = compat ∧ .alias .min ∈ specifiers) ∨ (stage = pin ∧ .alias .manifest ∈ specifiers) := by
  unfold loads
  split <;> split <;> simp [*]

theorem fetch_not_mem_loads {specifiers : List Specifier} {stage : Stage} (h : stage ∈ loads specifiers) :
    Effect.fetchCatalogue ∉ stage.effects := by
  rcases mem_loads.mp h with ⟨rfl, -⟩ | ⟨rfl, -⟩ <;> simp [effects]

theorem fetch_not_mem_specifier (s : Specifier) : Effect.fetchCatalogue ∉ (specifier s).effects := by
  cases s with
  | nightly branch => cases branch <;> simp [effects]
  | _ => simp [effects]

theorem probes_preparation {specifiers : List Specifier} {stage : Stage} (h : stage ∈ preparation specifiers) :
    stage.effects.filterMap Effect.branch? = [] := by
  rcases List.mem_append.mp h with h | h
  · rcases mem_loads.mp h with ⟨rfl, -⟩ | ⟨rfl, -⟩ <;> rfl
  · rw [List.mem_singleton.mp h]
    rfl

theorem fails_ne_noCompatRange {e : Environment} {script : Script} {lts : Range} {policy : Policy}
    {asked : List Effect} {stage : Stage} : ¬ Fails e script lts policy asked stage .noCompatRange := by
  intro h
  cases h with
  | compat h => exact absurd (Tree.isOfProject_of_compat h) nofun
  | pin h => exact absurd (Tree.isOfProject_of_pin h) nofun

end Stage

namespace Environment

variable {e : Environment} {script : Script} {lts : Range} {policy : Policy} {specifiers : List Specifier}

/-- The metadata that specifiers ask for can be had. -/
def Loads (e : Environment) (specifiers : List Specifier) : Prop :=
  (.alias .min ∈ specifiers → ∃ compat, e.tree.compat e.project = .ok compat) ∧
  (.alias .manifest ∈ specifiers → ∃ pin, e.tree.pin e.project = .ok pin)

theorem loads_of_course {asked record : List Effect}
    (h : Course (Stage.Fails e script lts policy) asked (Stage.loads specifiers) none record) : e.Loads specifiers := by
  constructor
  · intro hmin
    obtain ⟨asked, hf⟩ := h.not_fails_of_mem (Stage.mem_loads.mpr (.inl ⟨rfl, hmin⟩))
    cases hc : e.tree.compat e.project with
    | ok compat => exact ⟨compat, rfl⟩
    | error failure => exact absurd (.compat hc) (hf failure)
  · intro hman
    obtain ⟨asked, hf⟩ := h.not_fails_of_mem (Stage.mem_loads.mpr (.inr ⟨rfl, hman⟩))
    cases hp : e.tree.pin e.project with
    | ok pin => exact ⟨pin, rfl⟩
    | error failure => exact absurd (.pin hp) (hf failure)

theorem not_loads_of_course {asked record : List Effect} {failure : Failure}
    (h : Course (Stage.Fails e script lts policy) asked (Stage.loads specifiers) (some failure) record) :
    ¬ e.Loads specifiers := by
  intro hloads
  obtain ⟨stage, hs, asked, hf⟩ := h.exists_fails
  rcases Stage.mem_loads.mp hs with ⟨rfl, hmin⟩ | ⟨rfl, hman⟩
  · obtain ⟨compat, hc⟩ := hloads.1 hmin
    rw [fails_compat_iff, hc] at hf
    cases hf
  · obtain ⟨pin, hp⟩ := hloads.2 hman
    rw [fails_pin_iff, hp] at hf
    cases hf

/-- The catalogue is fetched once, if what goes before it can be had. -/
theorem count_fetchCatalogue {ending : Option Failure} {record : List Effect}
    (h : Course (Stage.Fails e script lts policy) [] (Stage.of specifiers) ending record) :
    (e.Loads specifiers ∧ record.count .fetchCatalogue = 1) ∨
    (¬ e.Loads specifiers ∧ record.count .fetchCatalogue = 0) := by
  have hloads : ∀ {ending record}, Course (Stage.Fails e script lts policy) [] (Stage.loads specifiers) ending record →
      record.count .fetchCatalogue = 0 := fun h => by
    simpa using h.count_eq fun stage hs => Stage.fetch_not_mem_loads hs
  rw [Stage.of, Stage.preparation, List.append_assoc] at h
  rcases Course.append_iff.mp h with ⟨failure, -, h⟩ | ⟨between, hpre, h⟩
  · exact .inr ⟨not_loads_of_course h, hloads h⟩
  refine .inl ⟨loads_of_course hpre, ?_⟩
  have hfetch : (between ++ Stage.catalogue.effects).count .fetchCatalogue = 1 := by
    rw [List.count_append, hloads hpre]
    rfl
  cases h with
  | stop _ => exact hfetch
  | step _ rest =>
    rw [← hfetch]
    refine rest.count_eq fun stage hs => ?_
    obtain ⟨s, -, rfl⟩ := List.mem_map.mp hs
    exact Stage.fetch_not_mem_specifier s

/-- The branches that are probed are those of the specifiers up to the one that
a batch ends with. -/
theorem exists_served {ending : Option Failure} {record : List Effect}
    (h : Course (Stage.Fails e script lts policy) [] (Stage.of specifiers) ending record) :
    ∃ served rest, specifiers = served ++ rest ∧
      record.filterMap Effect.branch? = served.filterMap Specifier.branch ∧ (ending = none → rest = []) ∧
      ∀ failure, ending = some failure →
        (served = [] ∧ ∃ stage ∈ Stage.preparation specifiers, ∃ asked,
          Stage.Fails e script lts policy asked stage failure) ∨
        ∃ before s asked, served = before ++ [s] ∧ record = asked ++ (Stage.specifier s).effects ∧
          Stage.Fails e script lts policy asked (.specifier s) failure := by
  have hpreparation : ∀ {ending record},
      Course (Stage.Fails e script lts policy) [] (Stage.preparation specifiers) ending record →
      record.filterMap Effect.branch? = [] := fun h => h.probes_eq fun _ hs => Stage.probes_preparation hs
  rcases Course.append_iff.mp h with ⟨failure, rfl, hpre⟩ | ⟨between, hpre, hrest⟩
  · refine ⟨[], specifiers, rfl, hpreparation hpre, nofun, fun _ he => ?_⟩
    cases he
    exact .inl ⟨rfl, hpre.exists_fails⟩
  · obtain ⟨performed, rest, hstages, hrecord, hnone, hsome⟩ := hrest.exists_performed
    obtain ⟨served, unserved, rfl, rfl, rfl⟩ := List.map_eq_append_iff.mp hstages
    refine ⟨served, unserved, rfl, ?_, fun he => List.map_eq_nil_iff.mp (hnone he), fun failure he => .inr ?_⟩
    · rw [hrecord, List.filterMap_append, hpreparation hpre, List.nil_append, Stage.probes_specifiers]
    · obtain ⟨before, stage, hserved, hf⟩ := hsome failure he
      obtain ⟨first, last, rfl, rfl, hlast⟩ := List.map_eq_append_iff.mp hserved
      obtain ⟨s, rfl, rfl⟩ := List.map_eq_singleton_iff.mp hlast
      exact ⟨first, s, _, rfl, by simpa using hrecord, hf⟩

theorem report_of_read {inputs : Inputs} (hread : inputs.read = .ok (specifiers, policy)) :
    e.report script lts inputs = ((e.batch script lts policy specifiers).1.map (.ofSpecifiers specifiers),
      (e.batch script lts policy specifiers).2) := by
  rw [report, Inputs.resolve, hread, runFrom_bind, runFrom_liftM]
  simp only [runFrom_bind, batch]
  rcases runFrom [] ((e.scripted script).resolve lts policy specifiers) with ⟨result, record⟩
  cases result <;> rfl

theorem report_of_not_read {inputs : Inputs} {failure : Failure} (hread : inputs.read = .error failure) :
    e.report script lts inputs = (.error failure, []) := by
  rw [report, Inputs.resolve, hread, runFrom_bind, runFrom_liftM]

/-- **The course of a resolution.** An input that cannot be used ends it before
anything is asked for, and of two the version input is told. Otherwise the
batch takes its course over its stages, up to the first that fails. So the
catalogue is fetched once, and only when the metadata that are asked for could
be had; the branches of the specifiers are probed in their order, up to the
specifier that fails; and no batch fails for want of a compat range. -/
theorem report_course (e : Environment) (script : Script) (lts : Range) :
    (∀ inputs fault, Specifier.listOfInput inputs.version = .error fault →
      e.report script lts inputs = (.error (.input fault), [])) ∧
    (∀ inputs specifiers fault, Specifier.listOfInput inputs.version = .ok specifiers →
      Policy.ofInput inputs.ifMissing = .error fault → e.report script lts inputs = (.error (.input fault), [])) ∧
    (∀ inputs specifiers policy, Specifier.listOfInput inputs.version = .ok specifiers →
      Policy.ofInput inputs.ifMissing = .ok policy →
      e.report script lts inputs = ((e.batch script lts policy specifiers).1.map (.ofSpecifiers specifiers),
        (e.batch script lts policy specifiers).2)) ∧
    ∀ policy specifiers result record, e.batch script lts policy specifiers = (result, record) →
      Course (Stage.Fails e script lts policy) [] (Stage.of specifiers) (failure? result) record ∧
      (e.Loads specifiers → record.count .fetchCatalogue = 1) ∧
      (¬ e.Loads specifiers → .fetchCatalogue ∉ record) ∧
      (∃ served rest, specifiers = served ++ rest ∧
        record.filterMap Effect.branch? = served.filterMap Specifier.branch ∧
        (∀ resolved, result = .ok resolved → rest = []) ∧
        ∀ failure, result = .error failure →
          (served = [] ∧ ∃ stage ∈ Stage.preparation specifiers, ∃ asked,
            Stage.Fails e script lts policy asked stage failure) ∨
          ∃ before s asked, served = before ++ [s] ∧ record = asked ++ (Stage.specifier s).effects ∧
            Stage.Fails e script lts policy asked (.specifier s) failure) ∧
      result ≠ .error .noCompatRange := by
  refine ⟨fun inputs fault hversion => ?_, fun inputs specifiers fault hversion hpolicy => ?_,
    fun inputs specifiers policy hversion hpolicy => ?_, fun policy specifiers result record hbatch => ?_⟩
  · exact report_of_not_read (by rw [Inputs.read, hversion])
  · exact report_of_not_read (by simp only [Inputs.read, hversion, hpolicy])
  · exact report_of_read (by simp only [Inputs.read, hversion, hpolicy])
  · have hcourse : Course (Stage.Fails e script lts policy) [] (Stage.of specifiers) (failure? result) record := by
      have h := (resolve_goesThrough specifiers : GoesThrough (Stage.Fails e script lts policy) _ _) []
      unfold batch at hbatch
      rwa [hbatch] at h
    obtain ⟨served, rest, hserved, hprobes, hnone, hsome⟩ := exists_served hcourse
    have hcount := count_fetchCatalogue hcourse
    refine ⟨hcourse, fun hloads => ?_, fun hloads => ?_, ⟨served, rest, hserved, hprobes, fun resolved hr => ?_,
      fun failure hr => ?_⟩, ?_⟩
    · exact (hcount.resolve_right fun h => h.1 hloads).2
    · exact List.count_eq_zero.mp (hcount.resolve_left fun h => hloads h.1).2
    · exact hnone (by rw [hr, failure?])
    · exact hsome failure (by rw [hr, failure?])
    · rintro rfl
      obtain ⟨stage, -, asked, hf⟩ := hcourse.exists_fails
      exact Stage.fails_ne_noCompatRange hf

/-- The third probe of a batch fails, and nothing is asked for behind it. -/
theorem report_course_third_probe : ∃ (e : Environment) (script : Script) (specifiers : List Specifier)
    (failure : Failure) (record : List Effect),
    e.report script .any ⟨"pre", "never"⟩ = (.error (.input (.notSpecifier "pre")), []) ∧
    e.report script .any ⟨"1", "never"⟩ = (.error (.input (.notPolicy "never")), []) ∧
    e.report script .any ⟨"[1.11-nightly, min, 1.12-nightly, 1.11-nightly, lts, 1.13-nightly]", ""⟩ =
      (.error failure, record) ∧
    record = [.readCompat, .fetchCatalogue, .probe "1.11", .probe "1.12", .probe "1.11"] ∧
    Course (Stage.Fails e script .any .error) [] (Stage.of specifiers) (some failure) record ∧
    record.count .fetchCatalogue = 1 := by
  let e : Environment := {
    tree := Tree.empty.set ("Project.toml" :: Place.working) (.file "[compat]\njulia = \"1.10\"\n".toUTF8)
    project := "."
    catalogue := .ok (.ofList [("1.10.5", ⟨[], true⟩)])
    nightly := fun _ => .ok true }
  let script : Script := fun asked branch => if asked.length < 4 then .ok true else .error (.status 503 branch)
  let specifiers : List Specifier := [.nightly (some "1.11"), .alias .min, .nightly (some "1.12"),
    .nightly (some "1.11"), .alias .lts, .nightly (some "1.13")]
  let failure : Failure := .fetch (.status 503 "1.11")
  let record : List Effect := [.readCompat, .fetchCatalogue, .probe "1.11", .probe "1.12", .probe "1.11"]
  have hversion : Specifier.listOfInput "pre" = .error (.notSpecifier "pre") := by decide +kernel
  have hone : Specifier.listOfInput "1" = .ok [.range "1"] := by decide +kernel
  have hnever : Policy.ofInput "never" = .error (.notPolicy "never") := by decide
  have hlist : Specifier.listOfInput "[1.11-nightly, min, 1.12-nightly, 1.11-nightly, lts, 1.13-nightly]" =
      .ok specifiers := by decide +kernel
  have hbatch : e.batch script .any .error specifiers = (.error failure, record) := by decide +kernel
  have hcompat : e.tree.compat e.project = .ok ((CompatEntry.range? "1.10").getD .any) := by decide +kernel
  have hloads : e.Loads specifiers := ⟨fun _ => ⟨_, hcompat⟩, fun h => absurd h (by decide)⟩
  obtain ⟨hbad, hpolicy, hreport, hall⟩ := report_course e script .any
  obtain ⟨hcourse, hcount, -⟩ := hall .error specifiers _ _ hbatch
  have hpre := hbad ⟨"pre", "never"⟩ _ hversion
  have hfirst := hpolicy ⟨"1", "never"⟩ _ _ hone hnever
  have hrun := hreport ⟨_, ""⟩ specifiers .error hlist (by decide)
  rw [hbatch] at hrun
  exact ⟨e, script, specifiers, failure, record, hpre, hfirst, hrun, rfl, hcourse, hcount hloads⟩

end Environment

end VersionPick
