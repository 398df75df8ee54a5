/-
What one specifier is resolved to. `Known.Chooses` says for each class of
specifiers which entry it is that is chosen, `Known.Qualifies` which entries
could be; neither follows how the entry is looked for. `Known.resolve_spec`
shows that the answer is the chosen entry, that there is none exactly when no
entry qualifies, and that the one failure is the alias `min` without a compat
range.
-/
import VersionPick.Resolve
import VersionPick.Proofs.Range.Pick
import VersionPick.Proofs.Range.Reading

namespace VersionPick

open Text

/-- Two texts denote releases of equal precedence and the same build metadata. -/
def SameRelease (text entry : String) : Prop :=
  ∃ wanted release, Release.read? text = some wanted ∧ Release.read? entry = some release ∧
    compare release.version wanted.version = .eq ∧ release.build = wanted.build

/-- An entry of the list that denotes a version in question. -/
def IsIn (asked : Version → Bool) (available : List String) (entry : String) : Prop :=
  entry ∈ available ∧ ∃ v, Denotes entry v ∧ asked v = true

namespace Known

/-- The entry is the one that a specifier stands for. -/
def Chooses (known : Known) : Specifier → String → Prop
  | .exact text, entry =>
    (text ∈ known.available ∧ entry = text) ∨
    (text ∉ known.available ∧ ∃ before behind, known.available = before ++ entry :: behind ∧
      SameRelease text entry ∧ ∀ other ∈ before, ¬ SameRelease text other)
  | .range text, entry => ∃ r, Range.parse text = .ok r ∧ Picks .gt r.admits known.available entry
  | .alias .lts, entry => Picks .gt known.lts.admits known.available entry
  | .alias .min, entry => ∃ compat, known.compat = some compat ∧ Picks .lt compat.admits known.available entry
  | .alias .manifest, entry => known.pin = some entry ∧ entry ≠ ""
  | .alias .pre, entry => Picks .gt (fun _ => true) known.available entry
  | .nightly _, _ => False

/-- The entry could be chosen, were there no other. -/
def Qualifies (known : Known) : Specifier → String → Prop
  | .exact text, entry => entry ∈ known.available ∧ (entry = text ∨ SameRelease text entry)
  | .range text, entry => ∃ r, Range.parse text = .ok r ∧ IsIn r.admits known.available entry
  | .alias .lts, entry => IsIn known.lts.admits known.available entry
  | .alias .min, entry => ∃ compat, known.compat = some compat ∧ IsIn compat.admits known.available entry
  | .alias .manifest, entry => known.pin = some entry ∧ entry ≠ ""
  | .alias .pre, entry => IsIn (fun _ => true) known.available entry
  | .nightly _, _ => False

end Known

/-! ## Exact versions -/

/-- A `v` in front of a text makes no difference to the release it denotes. -/
theorem read?_prefixed {c : Char} (hblank : isBlank c = false) (hv : c ≠ 'v') (cs : List Char) :
    Release.read? (String.ofList ('v' :: c :: cs)) = Release.read? (String.ofList (c :: cs)) := by
  have hne : ('v' == c) = false := by simpa using hv.symm
  simp only [Release.read?, String.toList_ofList, trim_cons hblank]
  rw [trim_cons (by decide), trimEnd_cons hblank]
  simp [Release.unprefixed, List.isPrefixOf?, hne]

theorem sameRelease_prefixed {c : Char} (hblank : isBlank c = false) (hv : c ≠ 'v') (cs : List Char)
    (entry : String) :
    (SameRelease (String.ofList ('v' :: c :: cs)) entry ↔ SameRelease (String.ofList (c :: cs)) entry) ∧
    (SameRelease entry (String.ofList ('v' :: c :: cs)) ↔ SameRelease entry (String.ofList (c :: cs))) := by
  simp only [SameRelease, read?_prefixed hblank hv, and_self]

theorem sameRelease_iff {text entry : String} {wanted : Release} (h : Release.read? text = some wanted) :
    SameRelease text entry ↔ Release.read? entry = some wanted := by
  constructor
  · intro h'
    obtain ⟨wanted', release, hw, hr, hv, hb⟩ := h'
    obtain rfl : wanted = wanted' := Option.some.inj (h.symm.trans hw)
    obtain rfl : release = wanted := by
      cases release; cases wanted
      simp only [Version.compare_eq_eq] at hv hb
      simp [hv, hb]
    exact hr
  · exact fun he => ⟨wanted, wanted, h, he, Version.compare_eq_eq.mpr rfl, rfl⟩

theorem find?_text {text : String} {available : List String} :
    available.find? (· == text) = if text ∈ available then some text else none := by
  split
  next h =>
    cases hf : available.find? (· == text) with
    | none => exact absurd (beq_self_eq_true text) (List.find?_eq_none.mp hf text h)
    | some entry =>
      have := List.find?_some hf
      simpa using this
  next h =>
    refine List.find?_eq_none.mpr fun entry he => ?_
    simp only [beq_iff_eq]
    rintro rfl
    exact h he

theorem findExact_of_mem {text : String} {available : List String} (h : text ∈ available) :
    findExact text available = some text := by
  simp [findExact, find?_text, h]

theorem findExact_of_not_mem {text entry : String} {available : List String} (h : text ∉ available) :
    findExact text available = some entry ↔ ∃ before behind, available = before ++ entry :: behind ∧
      SameRelease text entry ∧ ∀ other ∈ before, ¬ SameRelease text other := by
  simp only [findExact, find?_text, h, if_false]
  cases hr : Release.read? text with
  | none => simp [SameRelease, hr]
  | some wanted =>
    simp only [Option.bind_eq_bind, Option.bind_some, List.find?_eq_some_iff_append, sameRelease_iff hr,
      beq_iff_eq, Bool.not_eq_true', beq_eq_false_iff_ne]
    constructor
    · intro h
      obtain ⟨he, before, behind, rfl, hbefore⟩ := h
      exact ⟨before, behind, rfl, he, hbefore⟩
    · intro h
      obtain ⟨before, behind, rfl, he, hbefore⟩ := h
      exact ⟨he, before, behind, rfl, hbefore⟩

theorem findExact_eq_none {text : String} {available : List String} : findExact text available = none ↔
    ∀ entry, ¬ (entry ∈ available ∧ (entry = text ∨ SameRelease text entry)) := by
  by_cases h : text ∈ available
  · rw [findExact_of_mem h]
    simp only [reduceCtorEq, false_iff]
    exact fun hn => hn text ⟨h, .inl rfl⟩
  · simp only [findExact, find?_text, h, if_false]
    have hne : ∀ entry ∈ available, entry ≠ text := fun entry he => by rintro rfl; exact h he
    cases hr : Release.read? text with
    | none => simpa [SameRelease, hr] using hne
    | some wanted =>
      simp only [Option.bind_eq_bind, Option.bind_some, List.find?_eq_none, sameRelease_iff hr, beq_iff_eq]
      refine forall_congr' fun entry => ⟨fun hn ⟨hm, he⟩ => ?_, fun hn hm he => hn ⟨hm, .inr he⟩⟩
      rcases he with he | he
      · exact hne entry hm he
      · exact hn hm he

/-! ## Picks from the catalogue -/

theorem not_isIn_iff {asked : Version → Bool} {available : List String} :
    (∀ entry, ¬ IsIn asked available entry) ↔
      ∀ entry ∈ available, ∀ v, Denotes entry v → asked v = false := by
  simp only [IsIn, not_and, not_exists, Bool.not_eq_true]

theorem Picks.isIn {o : Ordering} {asked : Version → Bool} {available : List String} {entry : String}
    (h : Picks o asked available entry) : IsIn asked available entry := by
  have hm := h.mem
  obtain ⟨-, -, v, -, hd, ha, -⟩ := h
  exact ⟨hm, v, hd, ha⟩

namespace Range

variable {r : Range} {available : List String} {entry : String}

theorem greatest_eq_some : r.greatest available = some entry ↔ Picks .gt r.admits available entry :=
  Entry.greatest_eq_some

theorem greatest_eq_none : r.greatest available = none ↔ ∀ entry, ¬ IsIn r.admits available entry := by
  rw [not_isIn_iff]
  exact Entry.greatest_eq_none

theorem least_eq_some : r.least available = some entry ↔ Picks .lt r.admits available entry :=
  Entry.least_eq_some

theorem least_eq_none : r.least available = none ↔ ∀ entry, ¬ IsIn r.admits available entry := by
  rw [not_isIn_iff]
  exact Entry.least_eq_none

end Range

theorem greatest_list_eq_some {available : List String} {entry : String} :
    Entry.greatest (Entry.list available) = some entry ↔ Picks .gt (fun _ => true) available entry := by
  rw [← Entry.greatest_eq_some, List.filter_eq_self.mpr fun _ _ => rfl]

theorem greatest_list_eq_none {available : List String} :
    Entry.greatest (Entry.list available) = none ↔ ∀ entry, ¬ IsIn (fun _ => true) available entry := by
  rw [not_isIn_iff, ← Entry.greatest_eq_none, List.filter_eq_self.mpr fun _ _ => rfl]

/-! ## Specifiers -/

namespace Known

variable {known : Known}

theorem resolve_eq_some {entry : String} :
    ∀ {s : Specifier}, known.resolve s = .ok (some entry) ↔ known.Chooses s entry
  | .exact text => by
    simp only [resolve, Chooses, Except.ok.injEq]
    by_cases h : text ∈ known.available
    · simp [findExact_of_mem h, h, eq_comm]
    · simp [findExact_of_not_mem h, h]
  | .range text => by
    simp only [resolve, Chooses, Except.ok.injEq, Option.bind_eq_some_iff, Range.parse_eq_ok,
      Range.greatest_eq_some]
  | .alias .lts => by simp only [resolve, Chooses, Except.ok.injEq, Range.greatest_eq_some]
  | .alias .min => by
    cases hc : known.compat with
    | none => simp [resolve, Chooses, hc]
    | some compat => simp [resolve, Chooses, hc, Range.least_eq_some]
  | .alias .manifest => by
    simp only [resolve, Chooses, Except.ok.injEq, Option.filter_eq_some_iff, decide_eq_true_eq]
  | .alias .pre => by simp only [resolve, Chooses, Except.ok.injEq, greatest_list_eq_some]
  | .nightly _ => by simp [resolve, Chooses]

theorem resolve_eq_none : ∀ {s : Specifier}, known.resolve s = .ok none ↔
    (∀ entry, ¬ known.Qualifies s entry) ∧ ¬ (s = .alias .min ∧ known.compat = none)
  | .exact text => by simp only [resolve, Qualifies, Except.ok.injEq, findExact_eq_none]; simp
  | .range text => by
    cases hr : Range.read? text.toList with
    | none => simp [resolve, Qualifies, Range.parse_eq_ok, hr]
    | some r => simp [resolve, Qualifies, Range.parse_eq_ok, hr, Range.greatest_eq_none]
  | .alias .lts => by simp [resolve, Qualifies, Range.greatest_eq_none]
  | .alias .min => by
    cases hc : known.compat with
    | none => simp [resolve, hc]
    | some compat => simp [resolve, Qualifies, hc, Range.least_eq_none]
  | .alias .manifest => by
    simp only [resolve, Qualifies, Except.ok.injEq, Option.filter_eq_none_iff]
    simp
  | .alias .pre => by simp [resolve, Qualifies, greatest_list_eq_none]
  | .nightly _ => by simp [resolve, Qualifies]

theorem resolve_eq_error {failure : Failure} : ∀ {s : Specifier}, known.resolve s = .error failure ↔
    s = .alias .min ∧ known.compat = none ∧ failure = .noCompatRange
  | .exact _ => by simp [resolve]
  | .range _ => by simp [resolve]
  | .alias .lts => by simp [resolve]
  | .alias .min => by cases hc : known.compat <;> simp [resolve, hc, eq_comm]
  | .alias .manifest => by simp [resolve]
  | .alias .pre => by simp [resolve]
  | .nightly _ => by simp [resolve]

theorem Chooses.qualifies {entry : String} : ∀ {s : Specifier}, known.Chooses s entry → known.Qualifies s entry
  | .exact _, .inl ⟨hm, he⟩ => ⟨he ▸ hm, .inl he⟩
  | .exact _, .inr ⟨_, before, behind, he, hsame, _⟩ => ⟨by simp [he], .inr hsame⟩
  | .range _, ⟨r, hr, h⟩ => ⟨r, hr, h.isIn⟩
  | .alias .lts, h => Picks.isIn h
  | .alias .min, ⟨compat, hc, h⟩ => ⟨compat, hc, h.isIn⟩
  | .alias .manifest, h => h
  | .alias .pre, h => Picks.isIn h

/-- Where some entry qualifies there is an answer, and it qualifies too. -/
theorem Qualifies.exists_resolve {s : Specifier} {entry : String} (h : known.Qualifies s entry) :
    ∃ picked, known.resolve s = .ok (some picked) ∧ known.Qualifies s picked := by
  cases hr : known.resolve s with
  | error failure =>
    obtain ⟨rfl, hcompat, -⟩ := resolve_eq_error.mp hr
    obtain ⟨compat, hc, -⟩ := h
    simp [hcompat] at hc
  | ok answer =>
    cases answer with
    | none => exact absurd h ((resolve_eq_none.mp hr).1 entry)
    | some picked => exact ⟨picked, rfl, (resolve_eq_some.mp hr).qualifies⟩

theorem Chooses.mem {entry : String} : ∀ {s : Specifier}, known.Chooses s entry →
    s = .alias .manifest ∨ entry ∈ known.available
  | .exact _, .inl ⟨hm, he⟩ => .inr (he ▸ hm)
  | .exact _, .inr ⟨_, before, behind, he, _⟩ => .inr (by simp [he])
  | .range _, ⟨_, _, h⟩ => .inr h.mem
  | .alias .lts, h => .inr (Picks.mem h)
  | .alias .min, ⟨_, _, h⟩ => .inr h.mem
  | .alias .manifest, _ => .inl rfl
  | .alias .pre, h => .inr (Picks.mem h)

/-- **What a specifier picks.** The answer is the entry that the specifier
stands for, an element of the list unless it is the pin of the manifest. There
is none exactly when no entry qualifies, and a failure exactly for the alias
`min` without a compat range. A `v` in front of an exact version or of an
entry makes no difference. -/
theorem resolve_spec (known : Known) (s : Specifier) :
    (∀ entry, known.resolve s = .ok (some entry) ↔ known.Chooses s entry) ∧
    (∀ entry, known.resolve s = .ok (some entry) → s = .alias .manifest ∨ entry ∈ known.available) ∧
    (known.resolve s = .ok none ↔
      (∀ entry, ¬ known.Qualifies s entry) ∧ ¬ (s = .alias .min ∧ known.compat = none)) ∧
    (∀ failure, known.resolve s = .error failure ↔
      s = .alias .min ∧ known.compat = none ∧ failure = .noCompatRange) ∧
    ∀ c cs entry, isBlank c = false → c ≠ 'v' →
      (SameRelease (String.ofList ('v' :: c :: cs)) entry ↔ SameRelease (String.ofList (c :: cs)) entry) ∧
      (SameRelease entry (String.ofList ('v' :: c :: cs)) ↔ SameRelease entry (String.ofList (c :: cs))) :=
  ⟨fun _ => resolve_eq_some, fun _ h => (resolve_eq_some.mp h).mem, resolve_eq_none,
    fun _ => resolve_eq_error, fun _ cs entry hblank hv => sameRelease_prefixed hblank hv cs entry⟩

/-- Of two entries of one release the first is picked, as it is written. -/
theorem tilde_picks_first :
    ∃ known : Known, known.available = ["junk", "1.10.4", "v1.10.5", "1.10.5", "1.11.0-rc1"] ∧
      known.resolve (.range "~1.10") = .ok (some "v1.10.5") ∧ known.Chooses (.range "~1.10") "v1.10.5" := by
  let known : Known := ⟨.any, ["junk", "1.10.4", "v1.10.5", "1.10.5", "1.11.0-rc1"], none, none⟩
  have h : known.resolve (.range "~1.10") = .ok (some "v1.10.5") := by decide +kernel
  exact ⟨known, rfl, h, ((resolve_spec known _).1 _).mp h⟩

end Known

end VersionPick
