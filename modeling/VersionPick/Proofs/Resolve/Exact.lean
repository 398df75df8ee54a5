/-
Exact versions as ranges. A text that is classified as an exact version is a
range with an equals sign in front, the range of the version it denotes
(`parse_equals`). An exact version is looked for by its text, then by its
release, and the range by precedence. Where no build metadata is listed they
find entries of the same release (`resolve_exact_as_range`).
-/
import VersionPick.Proofs.Range.Complete
import VersionPick.Proofs.Range.Desugaring
import VersionPick.Proofs.Resolve.Choice
import VersionPick.Proofs.Specifier.Numerals

namespace VersionPick

open Text

/-! ## Texts of exact versions -/

theorem Release.bare_text (r : Release) : Partial.bare r.text = r.text := by
  let core := r.version.core
  have hne : [Partial.Component.number core.major, .number core.minor, .number core.patch] ≠ [] := by simp
  rw [Release.text, Version.text_eq, List.append_assoc]
  exact Partial.Component.bare_joined hne _

theorem Partial.bare_unprefixed (cs : List Char) : bare (Release.unprefixed cs) = bare cs := by
  unfold Release.unprefixed
  cases h : List.isPrefixOf? ['v'] cs with
  | none => rfl
  | some rest =>
    obtain rfl := List.append_eq_of_isPrefixOf?_eq_some h
    simp [bare]

/-- What is a release but for a `v` in front is read as its version by ranges. -/
theorem Partial.read?_of_ofText? {cs : List Char} {r : Release}
    (h : Release.ofText? (Release.unprefixed cs) = some r) : read? cs = some (.full r.version) := by
  have hbare : bare cs = Release.unprefixed cs := by
    rw [← bare_unprefixed, (Release.ofText?_eq_some.mp h).2, Release.bare_text]
  rw [read?_full_iff, hbare, closed_of_ofText? h]
  exact ⟨r.build, h⟩

/-- An exact version denotes a release, and ranges read it as the version of
that release. -/
theorem Specifier.exists_release_of_exact {raw text : String} (h : classify raw = .exact text) :
    ∃ wanted, Release.read? text = some wanted ∧ Partial.read? text.toList = some (.full wanted.version) := by
  obtain ⟨rfl, wanted, hw⟩ := classify_eq_exact h
  have hfull := Partial.read?_of_ofText? hw
  have htrim : trim text.toList = text.toList := trim_of_no_blank fun _ hc => Range.not_isBlank_of_read? hfull hc
  exact ⟨wanted, by rw [Release.read?, htrim, hw], hfull⟩

/-! ## The range of one version -/

namespace Range

theorem parse_equals {text : String} {v : Version} (h : Partial.read? text.toList = some (.full v)) :
    parse ("=" ++ text) = .ok (exactly v) :=
  parse_operator_append (show (['='], .compare .eq) ∈ written by decide) h (by simp)

/-- A pre-release is no exception: the version itself asks for it. -/
theorem exactly_admits {v w : Version} : (exactly v).admits w = true ↔ w = v := by
  rw [exactly, admits_single]
  simp only [Alternative.admits, List.all_cons, List.all_nil, Bool.and_true, List.any_cons, List.any_nil,
    Bool.or_false, Comparator.admits, Relation.holds, Comparator.opensTo, Bool.and_eq_true,
    Ordering.isEq_iff_eq_eq, Version.compare_eq_eq]
  constructor
  · exact fun h => h.1
  · rintro rfl
    cases hr : w.isRelease <;> simp

end Range

namespace Known

variable {known : Known} {text : String} {wanted : Release}

theorem qualifies_exact_iff (h : Release.read? text = some wanted) {entry : String} :
    known.Qualifies (.exact text) entry ↔ entry ∈ known.available ∧ Release.read? entry = some wanted := by
  simp only [Qualifies, sameRelease_iff h]
  refine and_congr_right fun _ => ⟨fun he => ?_, .inr⟩
  rcases he with rfl | he
  · exact h
  · exact he

theorem qualifies_equals_iff {v : Version} (h : Partial.read? text.toList = some (.full v)) {entry : String} :
    known.Qualifies (.range ("=" ++ text)) entry ↔ entry ∈ known.available ∧ Denotes entry v := by
  simp only [Qualifies, Range.parse_equals h, Except.ok.injEq, exists_eq_left', IsIn, Range.exactly_admits,
    exists_eq_right]

/-- **An exact version and its range.** An exact version denotes a release. If
there is no build metadata in it or among the entries, then the range with an
equals sign in front of its text has an answer whenever the exact version has
one, and both answers denote that release. -/
theorem resolve_exact_as_range (h : Specifier.classify text = .exact text) :
    ∃ wanted, Release.read? text = some wanted ∧ (wanted.build = [] → ∀ known : Known,
      (∀ entry ∈ known.available, ∀ release, Release.read? entry = some release → release.build = []) →
        known.resolve (.exact text) = .ok none ∧ known.resolve (.range ("=" ++ text)) = .ok none ∨
        ∃ entry entry', known.resolve (.exact text) = .ok (some entry) ∧
          known.resolve (.range ("=" ++ text)) = .ok (some entry') ∧
          Release.read? entry = some wanted ∧ Release.read? entry' = some wanted) := by
  obtain ⟨wanted, hw, hfull⟩ := Specifier.exists_release_of_exact h
  refine ⟨wanted, hw, fun hbuild known hlisted => ?_⟩
  have hdenotes : ∀ entry ∈ known.available, Denotes entry wanted.version ↔ Release.read? entry = some wanted := by
    intro entry hm
    refine ⟨fun ⟨release, hr, hv⟩ => ?_, fun hr => ⟨wanted, hr, rfl⟩⟩
    -- Neither has build metadata, so the version is all there is to them.
    have hb : release.build = wanted.build := by rw [hlisted entry hm release hr, hbuild]
    have hsame : SameRelease text entry := ⟨wanted, release, hw, hr, Version.compare_eq_eq.mpr hv, hb⟩
    exact (sameRelease_iff hw).mp hsame
  have hqualifies : ∀ entry,
      known.Qualifies (.range ("=" ++ text)) entry ↔ known.Qualifies (.exact text) entry := by
    intro entry
    rw [qualifies_equals_iff hfull, qualifies_exact_iff hw]
    exact and_congr_right (hdenotes entry)
  by_cases hsome : ∃ entry, known.Qualifies (.exact text) entry
  · obtain ⟨entry, he⟩ := hsome
    obtain ⟨picked, hpicked, hq⟩ := he.exists_resolve
    obtain ⟨picked', hpicked', hq'⟩ := ((hqualifies entry).mpr he).exists_resolve
    exact .inr ⟨picked, picked', hpicked, hpicked', ((qualifies_exact_iff hw).mp hq).2,
      ((qualifies_exact_iff hw).mp ((hqualifies picked').mp hq')).2⟩
  · have hnone : ∀ entry, ¬ known.Qualifies (.exact text) entry := not_exists.mp hsome
    refine .inl ⟨resolve_eq_none.mpr ⟨hnone, by simp⟩, resolve_eq_none.mpr ⟨fun entry he => ?_, by simp⟩⟩
    exact hnone entry ((hqualifies entry).mp he)

/-- A release candidate that is listed twice: the exact version is found as it
is written, its range finds the first of the two. -/
theorem resolve_exact_as_range_candidate : Specifier.classify "v1.3.0-rc1" = .exact "v1.3.0-rc1" ∧
    ∃ (known : Known) (wanted : Release), known.available = ["1.3", "1.3.0-rc1", "v1.3.0-rc1", "1.3.0"] ∧
      (∀ entry ∈ known.available, ∀ release, Release.read? entry = some release → release.build = []) ∧
      Release.read? "v1.3.0-rc1" = some wanted ∧ wanted.build = [] ∧
      known.resolve (.exact "v1.3.0-rc1") = .ok (some "v1.3.0-rc1") ∧
      known.resolve (.range "=v1.3.0-rc1") = .ok (some "1.3.0-rc1") ∧ Release.read? "1.3.0-rc1" = some wanted := by
  let known : Known := ⟨.any, ["1.3", "1.3.0-rc1", "v1.3.0-rc1", "1.3.0"], none, none⟩
  have hclassify : Specifier.classify "v1.3.0-rc1" = .exact "v1.3.0-rc1" := by decide
  have hlisted : ∀ entry ∈ known.available, ∀ release, Release.read? entry = some release → release.build = [] := by
    have hall : ∀ entry ∈ known.available, ((Release.read? entry).all fun r => r.build.isEmpty) = true := by
      decide +kernel
    intro entry hm release hr
    simpa [hr] using hall entry hm
  have hexact : known.resolve (.exact "v1.3.0-rc1") = .ok (some "v1.3.0-rc1") := by decide +kernel
  have hrange : known.resolve (.range "=v1.3.0-rc1") = .ok (some "1.3.0-rc1") := by decide +kernel
  obtain ⟨wanted, hw, hfound⟩ := resolve_exact_as_range hclassify
  have hbuild : wanted.build = [] := hlisted "v1.3.0-rc1" (by simp [known]) wanted hw
  refine ⟨hclassify, known, wanted, rfl, hlisted, hw, hbuild, hexact, hrange, ?_⟩
  rcases hfound hbuild known hlisted with ⟨hnone, -⟩ | ⟨entry, entry', -, hrange', -, hread⟩
  · rw [hexact] at hnone
    cases hnone
  · have he : known.resolve (.range "=v1.3.0-rc1") = .ok (some entry') := hrange'
    rw [hrange] at he
    cases he
    exact hread

end Known

end VersionPick
