/-
Resolving specifiers together and one by one, against sources that always
give the same answers. What a list has in common is learnt once, and what is
learnt depends on the list; but a specifier looks only at what it would have
asked for alone (`Known.AgreeFor`), so each of the versions of a list is the
version of a list of that specifier only (`Sources.ends_resolve`).
-/
import VersionPick.Resolve.Batch
import VersionPick.Proofs.Traverse

namespace VersionPick

/-! ## Computations without effects -/

/-- A computation without effects ends with a value. -/
def Ends (x : ExceptT Failure Id α) (a : α) : Prop := x.run = Except.ok a

theorem Ends.unique {x : ExceptT Failure Id α} {a b : α} (ha : Ends x a) (hb : Ends x b) : a = b :=
  Except.ok.inj (ha.symm.trans hb)

theorem ends_pure {a b : α} : Ends (pure a) b ↔ a = b := by
  change Except.ok a = Except.ok b ↔ _
  rw [Except.ok.injEq]

theorem ends_bind {x : ExceptT Failure Id α} {f : α → ExceptT Failure Id β} {b : β} :
    Ends (x >>= f) b ↔ ∃ a, Ends x a ∧ Ends (f a) b := by
  unfold Ends
  cases hx : x.run with
  | error e =>
    have hbind : (x >>= f).run = Except.error e := by rw [ExceptT.run_bind, hx]; rfl
    simp [hbind]
  | ok a =>
    have hbind : (x >>= f).run = (f a).run := by rw [ExceptT.run_bind, hx]; rfl
    rw [hbind]
    exact ⟨fun h => ⟨a, rfl, h⟩, fun ⟨_, he, h⟩ => by cases he; exact h⟩

theorem ends_map {x : ExceptT Failure Id α} {f : α → β} {b : β} :
    Ends (f <$> x) b ↔ ∃ a, Ends x a ∧ f a = b := by
  simp only [← bind_pure_comp, ends_bind, ends_pure]

theorem ends_liftM {x : Except Failure α} {a : α} : Ends (liftM x) a ↔ x = .ok a :=
  Iff.rfl

theorem ends_ite {c : Prop} [Decidable c] {x y : ExceptT Failure Id α} {a : α} :
    Ends (if c then x else y) a ↔ if c then Ends x a else Ends y a := by
  split <;> rfl

/-! ## What is learnt -/

namespace Sources

/-- What is asked for, in its order. -/
theorem learn_eq {m : Type → Type} [Monad m] (sources : Sources m) (lts : Range) (specifiers : List Specifier) :
    sources.learn lts specifiers =
      (if specifiers.contains (.alias .min) then some <$> sources.compat else pure none) >>= fun compat =>
      (if specifiers.contains (.alias .manifest) then sources.pin else pure none) >>= fun pin =>
      sources.available >>= fun available => pure ⟨lts, available, compat, pin⟩ := by
  unfold learn
  split <;> split <;> rfl

variable {sources : Sources Id} {lts : Range} {policy : Policy}

/-- What a list of specifiers is resolved against. -/
theorem ends_learn {specifiers : List Specifier} {known : Known} :
    Ends (sources.learn lts specifiers) known ↔ known.lts = lts ∧ Ends sources.available known.available ∧
      (if .alias .min ∈ specifiers then ∃ compat, Ends sources.compat compat ∧ some compat = known.compat
        else none = known.compat) ∧
      (if .alias .manifest ∈ specifiers then Ends sources.pin known.pin else none = known.pin) := by
  obtain ⟨lts', available', compat', pin'⟩ := known
  simp only [learn_eq, ends_bind, ends_ite, ends_map, ends_pure, List.contains_eq_mem, decide_eq_true_eq,
    Known.mk.injEq]
  constructor
  · intro h
    obtain ⟨_, hc, _, hp, _, ha, rfl, rfl, rfl, rfl⟩ := h
    exact ⟨rfl, ha, hc, hp⟩
  · intro h
    obtain ⟨rfl, ha, hc, hp⟩ := h
    exact ⟨_, hc, _, hp, _, ha, rfl, rfl, rfl, rfl⟩

end Sources

/-- Two states of knowledge that differ in nothing a specifier looks at. -/
structure Known.AgreeFor (s : Specifier) (known known' : Known) : Prop where
  lts : known.lts = known'.lts
  available : known.available = known'.available
  compat : s = .alias .min → known.compat = known'.compat
  pin : s = .alias .manifest → known.pin = known'.pin

theorem Known.AgreeFor.symm {s : Specifier} {known known' : Known} (h : Known.AgreeFor s known known') :
    Known.AgreeFor s known' known :=
  ⟨h.lts.symm, h.available.symm, fun hs => (h.compat hs).symm, fun hs => (h.pin hs).symm⟩

/-- A specifier picks a version by what it looks at. -/
theorem Known.resolve_congr {s : Specifier} {known known' : Known} (h : Known.AgreeFor s known known') :
    known.resolve s = known'.resolve s := by
  cases s with
  | exact text => simp [resolve, h.available]
  | range text => simp [resolve, h.available]
  | «alias» a =>
    cases a with
    | lts => simp [resolve, h.lts, h.available]
    | min => simp [resolve, h.compat rfl, h.available]
    | manifest => simp [resolve, h.pin rfl]
    | pre => simp [resolve, h.available]
  | nightly branch => rfl

namespace Sources

variable {sources : Sources Id} {lts : Range} {policy : Policy}

theorem pick_congr {m : Type → Type} [Monad m] (sources : Sources m) {s : Specifier} {known known' : Known}
    (h : Known.AgreeFor s known known') : sources.pick known s = sources.pick known' s := by
  have hr := Known.resolve_congr h
  cases s with
  | exact text => simp only [pick, hr]
  | range text => simp only [pick, hr]
  | «alias» a => simp only [pick, hr]
  | nightly branch => cases branch <;> rfl

/-- What is learnt for a list is enough for a part of it, and is what would be
learnt for that part alone. -/
theorem exists_learn_of_subset {specifiers part : List Specifier} {known : Known}
    (h : Ends (sources.learn lts specifiers) known) (hpart : part ⊆ specifiers) :
    ∃ known', Ends (sources.learn lts part) known' ∧ ∀ s ∈ part, Known.AgreeFor s known known' := by
  obtain ⟨hlts, ha, hc, hp⟩ := ends_learn.mp h
  refine ⟨⟨lts, known.available, if .alias .min ∈ part then known.compat else none,
    if .alias .manifest ∈ part then known.pin else none⟩, ends_learn.mpr ⟨rfl, ha, ?_, ?_⟩,
    fun s hs => ⟨hlts, rfl, ?_, ?_⟩⟩
  · by_cases hmin : .alias .min ∈ part
    · simpa [hmin, hpart hmin] using hc
    · simp [hmin]
  · by_cases hman : .alias .manifest ∈ part
    · simpa [hman, hpart hman] using hp
    · simp [hman]
  · rintro rfl
    simp [hs]
  · rintro rfl
    simp [hs]

/-- What is learnt for a list is enough for each of its specifiers, and is
what would be learnt for that specifier alone. -/
theorem exists_learn_of_mem {specifiers : List Specifier} {known : Known}
    (h : Ends (sources.learn lts specifiers) known) {s : Specifier} (hs : s ∈ specifiers) :
    ∃ known', Ends (sources.learn lts [s]) known' ∧ Known.AgreeFor s known known' := by
  obtain ⟨known', hk, ha⟩ := exists_learn_of_subset h (show [s] ⊆ specifiers by simpa using hs)
  exact ⟨known', hk, ha s (by simp)⟩

/-- A list asks for nothing that none of its specifiers asks for. -/
theorem exists_learn {specifiers : List Specifier} (hne : specifiers ≠ [])
    (h : ∀ s ∈ specifiers, ∃ known, Ends (sources.learn lts [s]) known) :
    ∃ known, Ends (sources.learn lts specifiers) known := by
  obtain ⟨s, rest, rfl⟩ := List.exists_cons_of_ne_nil hne
  obtain ⟨first, hfirst⟩ := h s (by simp)
  have hcompat : ∃ compat, if .alias .min ∈ s :: rest then
      ∃ c, Ends sources.compat c ∧ some c = compat else none = compat := by
    by_cases hmin : .alias .min ∈ s :: rest
    · obtain ⟨known, hk⟩ := h _ hmin
      have := (ends_learn.mp hk).2.2.1
      simp only [hmin, List.mem_singleton, if_true] at this ⊢
      exact ⟨_, this⟩
    · exact ⟨none, by simp only [hmin, if_false]⟩
  have hpin : ∃ pin, if .alias .manifest ∈ s :: rest then Ends sources.pin pin else none = pin := by
    by_cases hman : .alias .manifest ∈ s :: rest
    · obtain ⟨known, hk⟩ := h _ hman
      have := (ends_learn.mp hk).2.2.2
      simp only [hman, List.mem_singleton, if_true] at this ⊢
      exact ⟨_, this⟩
    · exact ⟨none, by simp only [hman, if_false]⟩
  obtain ⟨compat, hcompat⟩ := hcompat
  obtain ⟨pin, hpin⟩ := hpin
  exact ⟨⟨lts, first.available, compat, pin⟩, ends_learn.mpr ⟨rfl, (ends_learn.mp hfirst).2.1, hcompat, hpin⟩⟩

/-! ## What is answered -/

/-- What becomes of a specifier is `r`. -/
def Settles (sources : Sources Id) (policy : Policy) (known : Known) (s : Specifier) (r : Option String) : Prop :=
  ∃ version, Ends (sources.pick known s) version ∧ policy.settle s version = .ok r

/-- A specifier alone is answered with `r`. -/
def Answers (sources : Sources Id) (lts : Range) (policy : Policy) (s : Specifier) (r : Option String) : Prop :=
  ∃ known, Ends (sources.learn lts [s]) known ∧ sources.Settles policy known s r

theorem ends_pickEach {known : Known} : ∀ {specifiers : List Specifier} {resolved : List (Option String)},
    Ends (sources.pickEach known policy specifiers) resolved ↔
      List.Forall₂ (sources.Settles policy known) specifiers resolved
  | [], resolved => by simp [pickEach, ends_pure, eq_comm]
  | s :: specifiers, resolved => by
    simp only [pickEach, ends_bind, ends_liftM, ends_pure, ends_pickEach, List.forall₂_cons_left_iff, Settles]
    constructor
    · intro h
      obtain ⟨version, hv, r, hr, rs, hrs, rfl⟩ := h
      exact ⟨r, rs, ⟨version, hv, hr⟩, hrs, rfl⟩
    · intro h
      obtain ⟨r, rs, ⟨version, hv, hr⟩, hrs, rfl⟩ := h
      exact ⟨version, hv, r, hr, rs, hrs, rfl⟩

theorem Settles.congr {known known' : Known} {s : Specifier} {r : Option String}
    (h : sources.Settles policy known s r) (ha : Known.AgreeFor s known known') :
    sources.Settles policy known' s r := by
  obtain ⟨version, hv, hr⟩ := h
  exact ⟨version, pick_congr sources ha ▸ hv, hr⟩

/-- There is one answer at most. -/
theorem Answers.unique {s : Specifier} {r r' : Option String} (h : sources.Answers lts policy s r)
    (h' : sources.Answers lts policy s r') : r = r' := by
  obtain ⟨known, hk, version, hv, hr⟩ := h
  obtain ⟨known', hk', version', hv', hr'⟩ := h'
  obtain rfl := hk.unique hk'
  obtain rfl := hv.unique hv'
  exact Except.ok.inj (hr.symm.trans hr')

/-- Specifiers are resolved together as each is answered alone. -/
theorem ends_resolve {specifiers : List Specifier} (hne : specifiers ≠ []) {resolved : List (Option String)} :
    Ends (sources.resolve lts policy specifiers) resolved ↔
      List.Forall₂ (sources.Answers lts policy) specifiers resolved := by
  simp only [resolve, ends_bind, ends_pickEach]
  constructor
  · intro h
    obtain ⟨known, hk, hsettle⟩ := h
    have hmem := (List.forall₂_and_left specifiers resolved).mpr ⟨fun s hs => hs, hsettle⟩
    refine hmem.imp fun s r ⟨hs, hr⟩ => ?_
    obtain ⟨known', hk', ha⟩ := exists_learn_of_mem hk hs
    exact ⟨known', hk', hr.congr ha⟩
  · intro h
    have heach : ∀ s ∈ specifiers, ∃ known, Ends (sources.learn lts [s]) known := by
      intro s hs
      obtain ⟨r, -, known, hk, -⟩ := exists_of_mem_left h hs
      exact ⟨known, hk⟩
    obtain ⟨known, hk⟩ := exists_learn hne heach
    have hmem := (List.forall₂_and_left specifiers resolved).mpr ⟨fun s hs => hs, h⟩
    refine ⟨known, hk, hmem.imp fun s r ⟨hs, known₁, hk₁, hr⟩ => ?_⟩
    obtain ⟨known₂, hk₂, ha⟩ := exists_learn_of_mem hk hs
    obtain rfl := hk₁.unique hk₂
    exact hr.congr ha.symm

theorem ends_resolve_single {s : Specifier} {resolved : List (Option String)} :
    Ends (sources.resolve lts policy [s]) resolved ↔ ∃ r, sources.Answers lts policy s r ∧ resolved = [r] := by
  rw [ends_resolve (by simp), List.forall₂_cons_left_iff]
  constructor
  · intro h
    obtain ⟨r, _, hr, hnil, rfl⟩ := h
    exact ⟨r, hr, by rw [List.forall₂_nil_left_iff.mp hnil]⟩
  · intro h
    obtain ⟨r, hr, rfl⟩ := h
    exact ⟨r, [], hr, .nil, rfl⟩

end Sources

end VersionPick
