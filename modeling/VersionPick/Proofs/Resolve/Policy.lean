/-
The two policies for specifiers without a match. They come apart at the first
such specifier only: `warn` leaves its place empty and goes on, `error` stops
there and names it. So one run tells the other (`Environment.outcome_policies`):
`error` succeeds where `warn` does and has no empty place, and a failure that
`warn` meets can be hidden from `error` only by a specifier in front of it.

`Sources.fails_pickEach` says where a batch stops, for either policy: at the
first specifier whose pick fails or is not settled.
-/
import VersionPick.Proofs.Resolve.Choice
import VersionPick.Proofs.Resolve.Environment

namespace VersionPick

/-! ## Computations that fail -/

/-- A computation without effects fails. -/
def Fails (x : ExceptT Failure Id α) (failure : Failure) : Prop := x.run = Except.error failure

theorem not_fails_pure {a : α} {failure : Failure} : ¬ Fails (pure a) failure := nofun

theorem fails_bind {x : ExceptT Failure Id α} {f : α → ExceptT Failure Id β} {failure : Failure} :
    Fails (x >>= f) failure ↔ Fails x failure ∨ ∃ a, Ends x a ∧ Fails (f a) failure := by
  unfold Fails Ends
  cases hx : x.run with
  | error e =>
    have hbind : (x >>= f).run = Except.error e := by rw [ExceptT.run_bind, hx]; rfl
    rw [hbind]
    constructor
    · intro h
      cases h
      exact .inl rfl
    · intro h
      rcases h with h | ⟨_, h, _⟩
      · cases h
        rfl
      · cases h
  | ok a =>
    have hbind : (x >>= f).run = (f a).run := by rw [ExceptT.run_bind, hx]; rfl
    rw [hbind]
    exact ⟨fun h => .inr ⟨a, rfl, h⟩, fun h => h.elim nofun fun ⟨_, he, h⟩ => by cases he; exact h⟩

theorem fails_map {x : ExceptT Failure Id α} {f : α → β} {failure : Failure} :
    Fails (f <$> x) failure ↔ Fails x failure := by
  simp only [← bind_pure_comp, fails_bind, not_fails_pure, and_false, exists_false, or_false]

theorem fails_liftM {x : Except Failure α} {failure : Failure} : Fails (liftM x) failure ↔ x = .error failure :=
  Iff.rfl

theorem fails_ite {c : Prop} [Decidable c] {x y : ExceptT Failure Id α} {failure : Failure} :
    Fails (if c then x else y) failure ↔ if c then Fails x failure else Fails y failure := by
  split <;> rfl

/-! ## Policies -/

namespace Policy

theorem settle_warn (s : Specifier) (version : Option String) : warn.settle s version = .ok version := by
  cases version <;> rfl

theorem settle_error_eq_ok {s : Specifier} {version r : Option String} :
    error.settle s version = .ok r ↔ version = r ∧ r ≠ none := by
  cases version with
  | none => simp +contextual [settle, eq_comm]
  | some v =>
    simp only [settle, Except.ok.injEq]
    exact ⟨fun h => ⟨h, by simp [← h]⟩, And.left⟩

theorem settle_error_eq_error {s : Specifier} {version : Option String} {failure : Failure} :
    error.settle s version = .error failure ↔ version = none ∧ failure = .noMatch s.text := by
  cases version <;> simp [settle, eq_comm]

end Policy

namespace Sources

variable {sources : Sources Id} {lts : Range} {policy : Policy} {known : Known} {s : Specifier}
variable {specifiers : List Specifier} {failure : Failure}

/-! ## Where a batch stops -/

/-- A batch does not get past a specifier. -/
def Stops (sources : Sources Id) (policy : Policy) (known : Known) (s : Specifier) (failure : Failure) : Prop :=
  Fails (sources.pick known s) failure ∨
  ∃ version, Ends (sources.pick known s) version ∧ policy.settle s version = .error failure

theorem settles_error {r : Option String} :
    sources.Settles .error known s r ↔ sources.Settles .warn known s r ∧ r ≠ none := by
  simp [Settles, Policy.settle_warn, Policy.settle_error_eq_ok]

theorem stops_warn : sources.Stops .warn known s failure ↔ Fails (sources.pick known s) failure := by
  simp [Stops, Policy.settle_warn]

theorem stops_error : sources.Stops .error known s failure ↔
    sources.Stops .warn known s failure ∨ sources.Settles .warn known s none ∧ failure = .noMatch s.text := by
  simp [Stops, Settles, Policy.settle_warn, Policy.settle_error_eq_error]

/-- A batch stops at the first specifier that it does not get past. -/
theorem fails_pickEach : ∀ {specifiers : List Specifier},
    Fails (sources.pickEach known policy specifiers) failure ↔ ∃ before s after resolved,
      specifiers = before ++ s :: after ∧ List.Forall₂ (sources.Settles policy known) before resolved ∧
      sources.Stops policy known s failure
  | [] => by simp [pickEach, not_fails_pure]
  | s :: specifiers => by
    have ih : Fails (sources.pickEach known policy specifiers) failure ↔ _ := fails_pickEach
    simp only [pickEach, fails_bind, fails_liftM, ends_liftM, not_fails_pure, and_false, exists_false, or_false, ih]
    constructor
    · intro h
      rcases h with h | ⟨version, hv, h | ⟨r, hr, before, t, after, resolved, rfl, hb, ht⟩⟩
      · exact ⟨[], s, specifiers, [], rfl, .nil, .inl h⟩
      · exact ⟨[], s, specifiers, [], rfl, .nil, .inr ⟨version, hv, h⟩⟩
      · exact ⟨s :: before, t, after, r :: resolved, rfl, .cons ⟨version, hv, hr⟩ hb, ht⟩
    · intro h
      obtain ⟨before, t, after, resolved, he, hb, ht⟩ := h
      cases hb with
      | nil =>
        obtain ⟨rfl, rfl⟩ := List.cons.inj he
        rcases ht with h | ⟨version, hv, h⟩
        · exact .inl h
        · exact .inr ⟨version, hv, .inl h⟩
      | cons hs hb =>
        obtain ⟨rfl, rfl⟩ := List.cons.inj he
        obtain ⟨version, hv, hr⟩ := hs
        exact .inr ⟨version, hv, .inr ⟨_, hr, _, t, after, _, rfl, hb, ht⟩⟩

theorem fails_resolve : Fails (sources.resolve lts policy specifiers) failure ↔
    Fails (sources.learn lts specifiers) failure ∨
    ∃ known, Ends (sources.learn lts specifiers) known ∧
      Fails (sources.pickEach known policy specifiers) failure :=
  fails_bind

/-! ## From one policy to the other -/

/-- Under `error` there is an answer for every place. -/
theorem forall₂_settles_error : ∀ {specifiers : List Specifier} {resolved : List (Option String)},
    List.Forall₂ (sources.Settles .error known) specifiers resolved ↔
      List.Forall₂ (sources.Settles .warn known) specifiers resolved ∧ none ∉ resolved
  | [], resolved => by simp +contextual
  | s :: specifiers, resolved => by
    have ih : ∀ {resolved}, List.Forall₂ (sources.Settles .error known) specifiers resolved ↔ _ :=
      forall₂_settles_error
    simp only [List.forall₂_cons_left_iff, ih, settles_error]
    constructor
    · intro h
      obtain ⟨r, rs, ⟨hr, hne⟩, ⟨hrs, hrsne⟩, rfl⟩ := h
      exact ⟨⟨r, rs, hr, hrs, rfl⟩, by simp [hrsne, Ne.symm hne]⟩
    · intro h
      obtain ⟨⟨r, rs, hr, hrs, rfl⟩, hne⟩ := h
      simp only [List.mem_cons, not_or] at hne
      exact ⟨r, rs, ⟨hr, Ne.symm hne.1⟩, ⟨hrs, hne.2⟩, rfl⟩

theorem ends_resolve_error {resolved : List (Option String)} :
    Ends (sources.resolve lts .error specifiers) resolved ↔
      Ends (sources.resolve lts .warn specifiers) resolved ∧ none ∉ resolved := by
  simp only [resolve, ends_bind, ends_pickEach, forall₂_settles_error, ← and_assoc, exists_and_right]

/-- Under `error` a batch stops at the first place that `warn` leaves empty. -/
theorem fails_pickEach_error {before : List Specifier} (after : List Specifier) {resolved : List (Option String)}
    {i : Nat} (h : List.Forall₂ (sources.Settles .warn known) before resolved) (hi : resolved[i]? = some none)
    (hfirst : ∀ k < i, resolved[k]? ≠ some none) :
    ∃ s, before[i]? = some s ∧
      Fails (sources.pickEach known .error (before ++ after)) (.noMatch s.text) := by
  induction h generalizing i with
  | nil => simp at hi
  | @cons t r before resolved ht h ih =>
    cases i with
    | zero =>
      obtain rfl : r = none := by simpa using hi
      refine ⟨t, rfl, fails_pickEach.mpr ⟨[], t, before ++ after, [], rfl, .nil, ?_⟩⟩
      exact stops_error.mpr (.inr ⟨ht, rfl⟩)
    | succ i =>
      obtain ⟨s, hs, hf⟩ := ih (by simpa using hi) fun k hk => by
        simpa using hfirst (k + 1) (by omega)
      obtain ⟨front, u, rest, versions, he, hfront, hu⟩ := fails_pickEach.mp hf
      have hr : r ≠ none := by simpa using hfirst 0 (by omega)
      refine ⟨s, by simpa using hs, fails_pickEach.mpr ⟨t :: front, u, rest, r :: versions, ?_, ?_, hu⟩⟩
      · simp [he]
      · exact .cons (settles_error.mpr ⟨ht, hr⟩) hfront

/-! ## Parts of a batch -/

theorem Stops.congr {known' : Known} (h : sources.Stops policy known s failure) (ha : Known.AgreeFor s known known') :
    sources.Stops policy known' s failure := by
  unfold Stops at h ⊢
  rwa [pick_congr sources ha] at h

theorem forall₂_settles_congr {known' : Known} {resolved : List (Option String)}
    (h : List.Forall₂ (sources.Settles policy known) specifiers resolved)
    (ha : ∀ s ∈ specifiers, Known.AgreeFor s known known') :
    List.Forall₂ (sources.Settles policy known') specifiers resolved :=
  ((List.forall₂_and_left specifiers resolved).mpr ⟨ha, h⟩).imp fun _ _ ⟨ha, hr⟩ => hr.congr ha

/-- The specifiers in front of the one where a batch stops are resolved, and
with that one the batch fails as the whole does. -/
theorem resolve_part {before after : List Specifier} {resolved : List (Option String)}
    (hk : Ends (sources.learn lts (before ++ s :: after)) known)
    (hb : List.Forall₂ (sources.Settles policy known) before resolved)
    (hs : sources.Stops policy known s failure) :
    Ends (sources.resolve lts policy before) resolved ∧
    Fails (sources.resolve lts policy (before ++ [s])) failure := by
  constructor
  · obtain ⟨known', hk', ha⟩ := exists_learn_of_subset hk (List.subset_append_left before _)
    exact ends_bind.mpr ⟨known', hk', ends_pickEach.mpr (forall₂_settles_congr hb ha)⟩
  · obtain ⟨known', hk', ha⟩ := exists_learn_of_subset hk (show before ++ [s] ⊆ before ++ s :: after by simp)
    refine fails_resolve.mpr (.inr ⟨known', hk', fails_pickEach.mpr ⟨before, s, [], resolved, rfl, ?_, ?_⟩⟩)
    · exact forall₂_settles_congr hb fun t ht => ha t (by simp [ht])
    · exact hs.congr (ha s (by simp))

theorem exists_first_getElem? [DecidableEq α] {a : α} : ∀ {as : List α}, a ∈ as →
    ∃ i : Nat, as[i]? = some a ∧ ∀ k < i, as[k]? ≠ some a
  | b :: as, h => by
    by_cases hb : b = a
    · exact ⟨0, by simp [hb], by simp⟩
    · obtain ⟨i, hi, hfirst⟩ := exists_first_getElem? (List.mem_of_ne_of_mem (Ne.symm hb) h)
      refine ⟨i + 1, by simpa using hi, fun k hk => ?_⟩
      cases k with
      | zero => simpa using hb
      | succ k => simpa using hfirst k (by omega)

/-- A failure under `warn` is one under `error`, unless a specifier in front of
it has no match. -/
theorem fails_resolve_error (h : Fails (sources.resolve lts .warn specifiers) failure) :
    Fails (sources.resolve lts .error specifiers) failure ∨
    ∃ (before : List Specifier) (t : Specifier) (after : List Specifier) (resolved : List (Option String))
      (i : Nat) (s : Specifier), specifiers = before ++ t :: after ∧
      Ends (sources.resolve lts .warn before) resolved ∧
      Fails (sources.resolve lts .warn (before ++ [t])) failure ∧
      before[i]? = some s ∧ resolved[i]? = some none ∧
      Fails (sources.resolve lts .error specifiers) (.noMatch s.text) := by
  rcases fails_resolve.mp h with h | ⟨known, hk, h⟩
  · exact .inl (fails_resolve.mpr (.inl h))
  obtain ⟨before, t, after, resolved, rfl, hb, ht⟩ := fails_pickEach.mp h
  by_cases hnone : none ∈ resolved
  · obtain ⟨i, hi, hfirst⟩ := exists_first_getElem? hnone
    obtain ⟨s, hs, hf⟩ := fails_pickEach_error (t :: after) hb hi hfirst
    obtain ⟨hends, hfails⟩ := resolve_part hk hb ht
    exact .inr ⟨before, t, after, resolved, i, s, rfl, hends, hfails, hs, hi, fails_resolve.mpr (.inr ⟨known, hk, hf⟩)⟩
  · refine .inl (fails_resolve.mpr (.inr ⟨known, hk, fails_pickEach.mpr ⟨before, t, after, resolved, rfl, ?_, ?_⟩⟩))
    · exact forall₂_settles_error.mpr ⟨hb, hnone⟩
    · exact stops_error.mpr (.inl ht)

/-! ## Who says that there is no match -/

/-- No failure of the sources is that a specifier has no match. -/
structure LeavesNoMatch (sources : Sources Id) : Prop where
  compat : ∀ text, ¬ Fails sources.compat (.noMatch text)
  pin : ∀ text, ¬ Fails sources.pin (.noMatch text)
  available : ∀ text, ¬ Fails sources.available (.noMatch text)
  hasNightly : ∀ branch text, ¬ Fails (sources.hasNightly branch) (.noMatch text)

theorem not_fails_pick_noMatch (hq : sources.LeavesNoMatch) (text : String) :
    ¬ Fails (sources.pick known s) (.noMatch text) := by
  have hresolve : known.resolve s ≠ .error (.noMatch text) := by simp [Known.resolve_eq_error]
  cases s with
  | exact text => exact hresolve
  | range text => exact hresolve
  | «alias» a => exact hresolve
  | nightly branch =>
    cases branch with
    | none => exact not_fails_pure
    | some branch =>
      simp only [pick, fails_bind, not_fails_pure, and_false, exists_false, or_false]
      exact hq.hasNightly branch text

theorem not_fails_learn_noMatch (hq : sources.LeavesNoMatch) (text : String) :
    ¬ Fails (sources.learn lts specifiers) (.noMatch text) := by
  simp only [learn_eq, fails_bind, fails_ite, fails_map, not_fails_pure, hq.compat, hq.pin, hq.available,
    ite_self, and_false, exists_false, or_self, not_false_iff]

/-- That a specifier has no match is the policy's word alone. -/
theorem not_fails_warn_noMatch (hq : sources.LeavesNoMatch) (text : String) :
    ¬ Fails (sources.resolve lts .warn specifiers) (.noMatch text) := by
  intro h
  rcases fails_resolve.mp h with h | ⟨known, -, h⟩
  · exact not_fails_learn_noMatch hq text h
  · obtain ⟨_, s, _, _, -, -, hs⟩ := fails_pickEach.mp h
    exact not_fails_pick_noMatch hq text (stops_warn.mp hs)

end Sources

/-! ## Environments -/

namespace Environment

variable {e : Environment} {lts : Range} {policy : Policy} {specifiers : List Specifier}

theorem outcome_eq_error {failure : Failure} : e.outcome lts policy specifiers = .error failure ↔
    Fails (e.answers.resolve lts policy specifiers) failure := by
  rw [outcome, e.sources_simulates.resolve lts policy specifiers []]
  rfl

theorem not_fails_fetched_noMatch {outcome : Except FetchError α} {text : String} :
    ¬ Fails (fetched outcome) (.noMatch text) := by
  cases outcome <;> nofun

theorem answers_leavesNoMatch (e : Environment) : e.answers.LeavesNoMatch where
  compat _ := fun h => absurd (Tree.isOfProject_of_compat h) nofun
  pin _ := fun h => absurd (Tree.isOfProject_of_pin h) nofun
  available _ := fun h => not_fails_fetched_noMatch (fails_map.mp h)
  hasNightly _ _ := not_fails_fetched_noMatch

/-- **The policies differ where they must.** Under `error` a batch succeeds
where it does under `warn` with a version for every specifier. Otherwise it
names the first specifier without one, or fails as under `warn`; a failure
under `warn` is passed over only for a specifier without a version that stands
in front of the one that fails. Under `warn` no batch fails for want of a
match. -/
theorem outcome_policies (e : Environment) (lts : Range) (specifiers : List Specifier) :
    (∀ resolved, e.outcome lts .error specifiers = .ok resolved ↔
      e.outcome lts .warn specifiers = .ok resolved ∧ none ∉ resolved) ∧
    (∀ resolved (i : Nat), e.outcome lts .warn specifiers = .ok resolved → resolved[i]? = some none →
      (∀ k < i, resolved[k]? ≠ some none) →
      ∃ s : Specifier, specifiers[i]? = some s ∧ e.outcome lts .error specifiers = .error (.noMatch s.text)) ∧
    (∀ failure, e.outcome lts .warn specifiers = .error failure →
      e.outcome lts .error specifiers = .error failure ∨
      ∃ (before : List Specifier) (t : Specifier) (after : List Specifier) (resolved : List (Option String))
        (i : Nat) (s : Specifier), specifiers = before ++ t :: after ∧
        e.outcome lts .warn before = .ok resolved ∧
        e.outcome lts .warn (before ++ [t]) = .error failure ∧
        before[i]? = some s ∧ resolved[i]? = some none ∧
        e.outcome lts .error specifiers = .error (.noMatch s.text)) ∧
    ∀ text, e.outcome lts .warn specifiers ≠ .error (.noMatch text) := by
  simp only [ne_eq, outcome_eq_ok, outcome_eq_error]
  refine ⟨fun _ => Sources.ends_resolve_error, fun resolved i hr hi hfirst => ?_,
    fun _ => Sources.fails_resolve_error, Sources.not_fails_warn_noMatch e.answers_leavesNoMatch⟩
  obtain ⟨known, hk, hp⟩ := ends_bind.mp hr
  obtain ⟨s, hs, hf⟩ := Sources.fails_pickEach_error [] (Sources.ends_pickEach.mp hp) hi hfirst
  rw [List.append_nil] at hf
  exact ⟨s, hs, Sources.fails_resolve.mpr (.inr ⟨known, hk, hf⟩)⟩

/-- A probe that fails is passed over for a version that is missing. -/
theorem outcome_missing_then_failing :
    ∃ (e : Environment) (failure : Failure),
      e.outcome .any .warn [.exact "1.10.5", .exact "2.0.0"] = .ok [some "1.10.5", none] ∧
      e.outcome .any .error [.exact "1.10.5", .exact "2.0.0"] = .error (.noMatch "2.0.0") ∧
      e.outcome .any .warn [.exact "1.10.5", .exact "2.0.0", .nightly (some "1.12")] = .error failure ∧
      ∃ s : Specifier, e.outcome .any .error [.exact "1.10.5", .exact "2.0.0", .nightly (some "1.12")] =
        .error (.noMatch s.text) := by
  let e : Environment := {
    tree := .empty
    project := "."
    catalogue := .ok (.ofList [("1.10.5", ⟨[], true⟩)])
    nightly := fun branch => .error (.status 503 branch) }
  let failure : Failure := .fetch (.status 503 "1.12")
  have hmissing : e.outcome .any .warn [.exact "1.10.5", .exact "2.0.0"] = .ok [some "1.10.5", none] := by
    decide +kernel
  have hfailing : e.outcome .any .warn [.exact "1.10.5", .exact "2.0.0", .nightly (some "1.12")] =
      .error failure := by decide +kernel
  have hother : e.outcome .any .error [.exact "1.10.5", .exact "2.0.0", .nightly (some "1.12")] ≠
      .error failure := by decide +kernel
  obtain ⟨s, hs, hfirst⟩ := (outcome_policies e .any _).2.1 _ 1 hmissing rfl (by decide)
  obtain rfl : .exact "2.0.0" = s := by simpa using hs
  rcases (outcome_policies e .any _).2.2.1 _ hfailing with h | ⟨_, _, _, _, _, s, -, -, -, -, -, h⟩
  · exact absurd h hother
  · exact ⟨e, failure, hmissing, hfirst, hfailing, s, h⟩

end Environment

end VersionPick
