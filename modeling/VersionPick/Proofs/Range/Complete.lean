/-
Complete versions, as ranges read them and as a catalogue lists them. A range
also takes a version with a hyphen or a plus sign that nothing follows, and
reads it as if the sign were not there (`read?_full_iff`). So the two readings
agree on every text but those that only such a sign keeps from being a release
(`exact_iff_release`).
-/
import VersionPick.Proofs.Range.Reading
import VersionPick.Proofs.Release

namespace VersionPick

open Text Version

namespace Partial

/-- The text without the signs that nothing follows, that of an empty
pre-release and that of empty build metadata. -/
def closed (cs : List Char) : List Char :=
  let (front, build) := cut '+' cs
  let (core, pre) := cut '-' front
  core ++ signed '-' (pre.getD []) ++ signed '+' (build.getD [])

theorem closed_eq {core : List Char} {pre build : Option (List Char)} (hhyphen : '-' ∉ core)
    (hplus : '+' ∉ core ++ optional '-' pre) :
    closed (core ++ optional '-' pre ++ optional '+' build) =
      core ++ signed '-' (pre.getD []) ++ signed '+' (build.getD []) := by
  have hfront : cut '+' (core ++ optional '-' pre ++ optional '+' build) = (core ++ optional '-' pre, build) :=
    cut_eq.mpr ⟨rfl, hplus⟩
  have hcore : cut '-' (core ++ optional '-' pre) = (core, pre) := cut_eq.mpr ⟨rfl, hhyphen⟩
  simp only [closed, hfront, hcore]

theorem mem_optional {sign c : Char} {part : Option (List Char)} (h : c ∈ signed sign (part.getD [])) :
    c ∈ optional sign part := by
  cases part with
  | none => simp at h
  | some cs =>
    rcases mem_signed h with rfl | h
    · simp [optional]
    · exact List.mem_cons_of_mem sign h

theorem exists_optional (sign : Char) (part : List Char) :
    ∃ behind, signed sign part = optional sign behind ∧ behind.getD [] = part := by
  cases part with
  | nil => exact ⟨none, rfl, rfl⟩
  | cons c cs => exact ⟨some (c :: cs), rfl, rfl⟩

/-- The text of a release has no sign that nothing follows. -/
theorem closed_of_ofText? {cs : List Char} {r : Release} (h : Release.ofText? cs = some r) : closed cs = cs := by
  obtain ⟨-, rfl⟩ := Release.ofText?_eq_some.mp h
  obtain ⟨pre, hpre, hpre'⟩ := exists_optional '-' (Identifier.listText r.version.pre)
  obtain ⟨build, hbuild, hbuild'⟩ := exists_optional '+' r.build
  have htext : r.version.text = r.version.core.text ++ optional '-' pre := by rw [Version.text_eq, hpre]
  have hhyphen : '-' ∉ r.version.core.text := Core.not_mem_text (by decide) (by decide)
  have hplus : '+' ∉ r.version.core.text ++ optional '-' pre := htext ▸ r.version.plus_not_mem_text
  rw [Release.text, htext, hbuild, closed_eq hhyphen hplus, hpre', hbuild', hpre, hbuild]

/-- **A text is read as a full version** if, but for signs that nothing
follows, it is the text of a release, with characters in front that do not
count. The build metadata is dropped. -/
theorem read?_full_iff {cs : List Char} {v : Version} :
    read? cs = some (.full v) ↔ ∃ build, Release.ofText? (closed (bare cs)) = some ⟨v, build⟩ := by
  have hne : [v.core.major, v.core.minor, v.core.patch] ≠ [] := by simp
  constructor
  · intro h
    obtain ⟨core, pre, build, numbers, ids, hb, hhyphen, hplus, hn, hi, ht, hl, -, hp⟩ := read?_eq_some.mp h
    obtain ⟨rfl, rfl⟩ := ofNumbers_eq_full hl hp
    have hcore : core = v.core.text := (forall₂_number? hne).mp hn
    have hpre : pre.getD [] = Identifier.listText v.pre := Identifier.eq_listText_of_list? hi
    refine ⟨build.getD [], Release.ofText?_eq_some.mpr ⟨ht, ?_⟩⟩
    rw [hb, closed_eq hhyphen hplus, hcore, hpre, Release.text, Version.text_eq]
  · rintro ⟨metadata, h⟩
    obtain ⟨hmetadata, he⟩ := Release.ofText?_eq_some.mp h
    obtain ⟨front, build, h₁⟩ : ∃ front build, cut '+' (bare cs) = (front, build) := ⟨_, _, rfl⟩
    obtain ⟨core, pre, h₂⟩ : ∃ core pre, cut '-' front = (core, pre) := ⟨_, _, rfl⟩
    obtain ⟨hb, hplus⟩ := cut_eq.mp h₁
    obtain ⟨rfl, hhyphen⟩ := cut_eq.mp h₂
    rw [hb, closed_eq hhyphen hplus, Release.text] at he
    -- Both sides are put together from the same three parts.
    have hplus' : '+' ∉ core ++ signed '-' (pre.getD []) := by
      intro hc
      rcases List.mem_append.mp hc with hc | hc
      · exact hplus (List.mem_append_left _ hc)
      · exact hplus (List.mem_append_right _ (mem_optional hc))
    obtain ⟨hfront, hbuild⟩ := signed_inj hplus' v.plus_not_mem_text he
    rw [Version.text_eq] at hfront
    obtain ⟨hcore, hpre⟩ := signed_inj hhyphen (Core.not_mem_text (by decide) (by decide)) hfront
    refine (read?_of_cut h₁ h₂).mpr ⟨_, v.pre, (forall₂_number? hne).mpr hcore, ?_, ?_, by simp, .inl rfl, rfl⟩
    · rw [hpre, Identifier.list?_listText]
    · rw [hbuild]
      exact hmetadata

end Partial

/-! ## Exact comparators -/

/-- Only a full version without operator is compared for equality. -/
theorem Operator.apply_eq_exact {op : Operator} {p : Partial} {v : Version} :
    op.apply p = [⟨.eq, v⟩] ↔ op = .compare .eq ∧ p = .full v := by
  constructor
  · intro h
    have hop : op = .compare .eq := by
      rcases op with r | _ | _
      · cases r
        case eq => rfl
        all_goals cases p <;> simp [apply, Partial.above, Partial.atLeast, Partial.below, Partial.atMost] at h
      · cases p <;> simp [apply, Partial.tilde, Partial.within, Partial.between] at h
      · cases p <;> simp only [apply, Partial.caret, Partial.between] at h <;> grind
    subst hop
    cases p <;> simp [apply, Partial.within, Partial.between] at h
    exact ⟨rfl, by rw [h]⟩
  · rintro ⟨rfl, rfl⟩
    rfl

namespace Range

/-- The range that only a version and its builds are in. -/
def exactly (v : Version) : Range := ⟨[[⟨.eq, v⟩]]⟩

theorem bare_of_compare_eq {word : List Char} (h : (splitSign word).1 = .compare .eq) :
    Partial.bare (splitSign word).2 = Partial.bare word := by
  rcases splitSign_cases word with ⟨w, hw, he, hop⟩ | ⟨-, he⟩
  · rw [h] at hop
    have hsign : w.1 = ['='] := by
      revert hop
      exact (by decide : ∀ w ∈ Operator.signs, .compare .eq = w.2 → w.1 = ['=']) w hw
    rw [hsign] at he
    conv_rhs => rw [he]
    simp [Partial.bare]
  · rw [he]

theorem readComparator?_eq_exact {word : List Char} {v : Version} :
    readComparator? word = some [⟨.eq, v⟩] ↔ Partial.read? word = some (.full v) := by
  constructor
  · intro h
    obtain ⟨p, hp, he⟩ := readComparator?_eq_some h
    obtain ⟨hop, rfl⟩ := Operator.apply_eq_exact.mp he.symm
    rw [← hp]
    exact (Partial.read?_congr (bare_of_compare_eq hop)).symm
  · intro h
    exact readComparator?_append (show ([], .compare .eq) ∈ written by decide) h (by simp)

/-- A text in one piece is an exact version if that is what it is read as
without the range around it. -/
theorem read?_eq_exactly {cs : List Char} (hblank : ∀ c ∈ cs, isBlank c = false) (hbar : ¬ ['|', '|'] <:+: cs)
    {v : Version} : read? cs = some (exactly v) ↔ Partial.read? cs = some (.full v) := by
  have hpieces : read? cs = some (exactly v) ↔ readWords? (words cs) = some [⟨.eq, v⟩] := by
    rw [read?_eq_some, splitOnPair_of_not_infix hbar, exactly]
    simp
  rw [hpieces]
  rcases words_eq_of_no_blank hblank with hwords | ⟨hword, hwords⟩
  · have hnil : cs = [] := by
      by_contra hne
      rw [words_of_no_blank hne hblank] at hwords
      cases hwords
    subst hnil
    rw [Partial.read?_nil, hwords]
    simp [readWords?, attachSigns]
  · rw [hwords, readWords?_single hword.1, readComparator?_eq_exact]

/-- **Exact versions and releases.** A text in one piece is an exact version if
it is, but for characters in front and signs that nothing follows, the text of
a release; then the version is that of the release. With such a sign it is an
exact version that is no release, and that is the one case where the two
readings differ. -/
theorem exact_iff_release {text : String} (hblank : ∀ c ∈ text.toList, isBlank c = false)
    (hbar : ¬ ['|', '|'] <:+: text.toList) :
    (∀ v, parse text = .ok (exactly v) ↔
      ∃ build, Release.ofText? (Partial.closed (Partial.bare text.toList)) = some ⟨v, build⟩) ∧
    ((∀ v, parse text = .ok (exactly v) ↔ ∃ build, Release.ofText? (Partial.bare text.toList) = some ⟨v, build⟩) ↔
      Partial.closed (Partial.bare text.toList) = Partial.bare text.toList ∨
      Release.ofText? (Partial.closed (Partial.bare text.toList)) = none) := by
  have hexact : ∀ v, parse text = .ok (exactly v) ↔
      ∃ build, Release.ofText? (Partial.closed (Partial.bare text.toList)) = some ⟨v, build⟩ := by
    intro v
    rw [parse_eq_ok, read?_eq_exactly hblank hbar, Partial.read?_full_iff]
  refine ⟨hexact, fun h => ?_, fun h v => ?_⟩
  · cases hread : Release.ofText? (Partial.closed (Partial.bare text.toList)) with
    | none => exact .inr rfl
    | some r =>
      obtain ⟨build, hbuild⟩ := (h r.version).mp ((hexact r.version).mpr ⟨r.build, hread⟩)
      exact .inl (Partial.closed_of_ofText? hbuild)
  · rw [hexact v]
    rcases h with h | h
    · rw [h]
    · have hnone : ∀ r, Release.ofText? (Partial.bare text.toList) ≠ some r := by
        intro r hr
        rw [Partial.closed_of_ofText? hr, hr] at h
        cases h
      simp [h, hnone]

/-- A version with everything there is to it. -/
theorem exact_iff_release_candidate :
    (∀ c ∈ "v=1.2.3-rc-1+b.01".toList, isBlank c = false) ∧ ¬ ['|', '|'] <:+: "v=1.2.3-rc-1+b.01".toList ∧
    ∃ v, parse "v=1.2.3-rc-1+b.01" = .ok (exactly v) ∧
      Release.ofText? "1.2.3-rc-1+b.01".toList = some ⟨v, "b.01".toList⟩ := by
  let v : Version := ⟨⟨1, 2, 3⟩, [⟨"rc-1".toList, by decide⟩]⟩
  have hfull : Partial.read? "v=1.2.3-rc-1+b.01".toList = some (.full v) := by decide
  have hblank : ∀ c ∈ "v=1.2.3-rc-1+b.01".toList, isBlank c = false := fun _ hc => not_isBlank_of_read? hfull hc
  have hbar : ¬ ['|', '|'] <:+: "v=1.2.3-rc-1+b.01".toList :=
    fun h => bar_not_mem_of_read? hfull (h.subset List.mem_cons_self)
  have hread : Release.ofText? "1.2.3-rc-1+b.01".toList = some ⟨v, "b.01".toList⟩ := by decide
  have hclosed : Partial.closed (Partial.bare "v=1.2.3-rc-1+b.01".toList) = "1.2.3-rc-1+b.01".toList := by decide
  refine ⟨hblank, hbar, v, ((exact_iff_release hblank hbar).1 v).mpr ⟨"b.01".toList, ?_⟩, hread⟩
  rw [hclosed, hread]

/-- A hyphen that nothing follows is taken for a version's end by a range only. -/
theorem exact_open_hyphen : parse "1.2.3-" = .ok (exactly (.release 1 2 3)) ∧
    Partial.bare "1.2.3-".toList = "1.2.3-".toList ∧ Release.ofText? "1.2.3-".toList = none := by decide

end Range

end VersionPick
