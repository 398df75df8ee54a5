/-
What the alternatives of a compat entry are. Each is blank, one comparator or
one hyphen range (`Usable.part`), never several comparators that go together.
Clauses are checked as range texts, though, and a range text has
alternatives of its own: a clause with `||` in it is taken, and means as many
alternatives as a range with it would. Without bars an entry has one
alternative for each clause (`one_for_each_clause_iff`).

A bar is also a way past the refusal of `*`, and so is any other spelling of
it. `Project.nil_mem_compatRange_iff` says which entries have an alternative
that asks for nothing.
-/
import VersionPick.Project
import VersionPick.Proofs.CompatEntry.Clause

namespace VersionPick

open Text

namespace CompatEntry

/-! ## Alternatives of a clause -/

theorem isWord_withCaret {word : List Char} (h : IsWord word) : IsWord (withCaret word) := by
  unfold withCaret
  split
  · refine ⟨by simp, fun c hc => ?_⟩
    rcases List.mem_cons.mp hc with rfl | hc
    · decide
    · exact h.2 c hc
  · exact h

theorem withCaret_hyphen (low high : List Char) :
    withCaret (low ++ ' ' :: '-' :: ' ' :: high) = low ++ ' ' :: '-' :: ' ' :: high := by
  simp [withCaret]

/-- An alternative of a clause is blank or single. -/
theorem Usable.part {clause : List Char} (h : Usable clause) {ws : List (List Char)}
    (hws : ws ∈ Range.parts (withCaret (tidy clause))) {alternative : Alternative}
    (hread : Range.readWords? ws = some alternative) : ws = [] ∨ Range.Single ws alternative := by
  rcases h.cases with hword | ⟨low, high, hl, hh, he⟩
  · exact Range.single_of_mem_parts (isWord_withCaret hword).2 hws hread
  · rw [he, withCaret_hyphen] at hws
    exact Range.single_of_mem_parts_hyphen hl.2 hh.2 hws hread

/-! ## One alternative for each clause -/

/-- The clause as a whole is one comparator or one hyphen range, and means the
alternative; it does not start with `<=`. -/
def Means (clause : List Char) (alternative : Alternative) : Prop :=
  Range.Single (words (withCaret (tidy clause))) alternative ∧ ¬ ['<', '='] <+: tidy clause

theorem bar_mem_iff {clause : List Char} :
    '|' ∈ clause ↔ ∃ word ∈ words (withCaret (tidy clause)), '|' ∈ word := by
  rw [← mem_words (by decide), bar_mem_withCaret, bar_mem_tidy]

theorem Means.bar_not_mem {clause : List Char} {alternative : Alternative} (h : Means clause alternative) :
    '|' ∉ clause := by
  rw [bar_mem_iff]
  rintro ⟨word, hw, hc⟩
  exact h.1.bar_not_mem word hw hc

theorem parts_of_bar_not_mem {clause : List Char} (h : '|' ∉ clause) :
    Range.parts (withCaret (tidy clause)) = [words (withCaret (tidy clause))] :=
  Range.parts_of_no_bar (by rwa [bar_mem_withCaret, bar_mem_tidy])

theorem words_ne_nil {clause : List Char} (h : Usable clause) : words (withCaret (tidy clause)) ≠ [] := by
  rcases h.cases with hword | ⟨low, high, hl, -, he⟩
  · rw [words_of_isWord (isWord_withCaret hword)]
    simp
  · rw [he, withCaret_hyphen, words_append hl.1 hl.2 (by decide)]
    simp

/-- A clause has one alternative exactly if there is no bar in it. -/
theorem Usable.length_parts {clause : List Char} (h : Usable clause)
    (hread : ∀ ws ∈ Range.parts (withCaret (tidy clause)), ∃ alternative, Range.readWords? ws = some alternative) :
    (Range.parts (withCaret (tidy clause))).length = 1 ↔ '|' ∉ clause := by
  constructor
  · intro hlength hbar
    have hparts : Range.parts (withCaret (tidy clause)) = [words (withCaret (tidy clause))] := by
      rw [Range.parts, splitOnPair_of_length (by simpa [Range.parts] using hlength), List.map_singleton]
    have hmem : words (withCaret (tidy clause)) ∈ Range.parts (withCaret (tidy clause)) := by simp [hparts]
    obtain ⟨alternative, hread⟩ := hread _ hmem
    have hsingle := (h.part hmem hread).resolve_left (words_ne_nil h)
    obtain ⟨word, hw, hc⟩ := bar_mem_iff.mp hbar
    exact hsingle.bar_not_mem word hw hc
  · intro hbar
    rw [parts_of_bar_not_mem hbar, List.length_singleton]

theorem Usable.means {clause : List Char} (h : Usable clause) (hbar : '|' ∉ clause) {alternative : Alternative}
    (hread : Range.readWords? (words (withCaret (tidy clause))) = some alternative) : Means clause alternative := by
  have hmem : words (withCaret (tidy clause)) ∈ Range.parts (withCaret (tidy clause)) := by
    simp [parts_of_bar_not_mem hbar]
  exact ⟨(h.part hmem hread).resolve_left (words_ne_nil h), h.not_atMost⟩

variable {raw : List Char} {r : Range}

theorem exists_part_of_mem (h : read? raw = some r) {alternative : Alternative} (ha : alternative ∈ r.alternatives) :
    ∃ clause ∈ List.splitOn ',' raw, Usable clause ∧ ∃ ws ∈ Range.parts (withCaret (tidy clause)),
      Range.readWords? ws = some alternative := by
  obtain ⟨husable, hread⟩ := read?_eq_some.mp h
  obtain ⟨ws, hws, hr⟩ := exists_of_mem_right hread ha
  obtain ⟨clause, hc, hws⟩ := List.mem_flatMap.mp hws
  exact ⟨clause, hc, husable clause hc, ws, hws, hr⟩

theorem exists_mem_of_part (h : read? raw = some r) {clause : List Char} (hc : clause ∈ List.splitOn ',' raw)
    {ws : List (List Char)} (hws : ws ∈ Range.parts (withCaret (tidy clause))) :
    ∃ alternative ∈ r.alternatives, Range.readWords? ws = some alternative :=
  exists_of_mem_left (read?_eq_some.mp h).2 (List.mem_flatMap.mpr ⟨clause, hc, hws⟩)

theorem bar_mem_splitOn : '|' ∈ raw ↔ ∃ clause ∈ List.splitOn ',' raw, '|' ∈ clause :=
  ⟨fun h => (mem_splitOn ',' h).resolve_left (by decide),
    fun ⟨_, hc, h⟩ => (sep_of_mem_splitOnP hc _ h).2⟩

theorem forall₂_means (h : read? raw = some r) (hbar : '|' ∉ raw) :
    List.Forall₂ Means (List.splitOn ',' raw) r.alternatives := by
  obtain ⟨husable, hread⟩ := read?_eq_some.mp h
  have hclause : ∀ clause ∈ List.splitOn ',' raw, '|' ∉ clause :=
    fun clause hc hb => hbar (bar_mem_splitOn.mpr ⟨clause, hc, hb⟩)
  have hparts : (List.splitOn ',' raw).flatMap (fun clause => Range.parts (withCaret (tidy clause))) =
      (List.splitOn ',' raw).map fun clause => words (withCaret (tidy clause)) := by
    rw [List.map_eq_flatMap]
    exact List.flatMap_congr fun clause hc => parts_of_bar_not_mem (hclause clause hc)
  rw [hparts, List.forall₂_map_left_iff] at hread
  have hall := (List.forall₂_and_left _ _).mpr
    ⟨fun clause hc => And.intro (husable clause hc) (hclause clause hc), hread⟩
  exact hall.imp fun clause alternative h => h.1.1.means h.1.2 h.2

/-- **Only commas separate alternatives**, in an entry without bars; a bar
always makes more of them. All are blank, or one comparator, or one hyphen
range. -/
theorem one_for_each_clause_iff {raw : String} (h : range? raw = some r) :
    (List.Forall₂ Means (List.splitOn ',' raw.toList) r.alternatives ↔ '|' ∉ raw.toList) ∧
    (r.alternatives.length = (List.splitOn ',' raw.toList).length ↔ '|' ∉ raw.toList) ∧
    ∀ alternative ∈ r.alternatives, ∃ clause ∈ List.splitOn ',' raw.toList,
      ∃ ws ∈ Range.parts (withCaret (tidy clause)), ws = [] ∧ alternative = [] ∨ Range.Single ws alternative := by
  refine ⟨⟨fun hall hbar => ?_, forall₂_means h⟩, ?_, fun alternative ha => ?_⟩
  · obtain ⟨clause, hc, hb⟩ := bar_mem_splitOn.mp hbar
    obtain ⟨alternative, -, hmeans⟩ := exists_of_mem_left hall hc
    exact hmeans.bar_not_mem hb
  · obtain ⟨husable, hread⟩ := read?_eq_some.mp h
    rw [← hread.length_eq, length_flatMap_eq_iff fun clause _ => Range.parts_ne_nil _, bar_mem_splitOn]
    simp only [not_exists, not_and]
    refine forall₂_congr fun clause hc => (husable clause hc).length_parts fun ws hws => ?_
    obtain ⟨alternative, -, hr⟩ := exists_mem_of_part h hc hws
    exact ⟨alternative, hr⟩
  · obtain ⟨clause, hc, husable, ws, hws, hr⟩ := exists_part_of_mem h ha
    refine ⟨clause, hc, ws, hws, ?_⟩
    rcases husable.part hws hr with rfl | hsingle
    · exact .inl ⟨rfl, (Option.some.inj hr).symm⟩
    · exact .inr hsingle

/-- Two clauses, a version and a hyphen range. -/
theorem one_for_each_of_two :
    range? "1, 2 - 3" = some ⟨[Partial.caret (.major 1), Partial.upTo (.major 2) (.major 3)]⟩ ∧
    List.Forall₂ Means (List.splitOn ',' "1, 2 - 3".toList)
      [Partial.caret (.major 1), Partial.upTo (.major 2) (.major 3)] :=
  have h : range? "1, 2 - 3" = some ⟨[Partial.caret (.major 1), Partial.upTo (.major 2) (.major 3)]⟩ := by decide
  ⟨h, (one_for_each_clause_iff h).1.mpr (by decide)⟩

/-- A clause with bars is taken: here it brings a second alternative, and one
that starts with `<=`. -/
theorem two_for_one_clause : range? "1||<=2" = some ⟨[Partial.caret (.major 1), Partial.atMost (.major 2)]⟩ ∧
    List.splitOn ',' "1||<=2".toList = ["1||<=2".toList] ∧ clause? "<=2".toList = none ∧
    ¬ List.Forall₂ Means (List.splitOn ',' "1||<=2".toList) [Partial.caret (.major 1), Partial.atMost (.major 2)] := by
  refine ⟨by decide, by decide, by decide, fun h => ?_⟩
  have hlength := h.length_eq
  revert hlength
  decide

/-! ## Alternatives that ask for nothing -/

theorem Usable.part_eq_nil_iff {clause : List Char} (h : Usable clause) {ws : List (List Char)}
    (hws : ws ∈ Range.parts (withCaret (tidy clause))) {alternative : Alternative}
    (hread : Range.readWords? ws = some alternative) : alternative = [] ↔ Range.Unlimited ws := by
  rcases h.part hws hread with rfl | hsingle
  · exact iff_of_true (Option.some.inj hread).symm .blank
  · exact hsingle.eq_nil_iff

/-- The caret that a bare version means changes nothing about which
alternatives are without limit. -/
theorem exists_unlimited_withCaret {clause : List Char} (h : Usable clause) :
    (∃ ws ∈ Range.parts (withCaret (tidy clause)), Range.Unlimited ws) ↔
      ∃ ws ∈ Range.parts (tidy clause), Range.Unlimited ws := by
  rcases h.parts_withCaret with he | ⟨c, first, more, hdigit, hparts, hcaret⟩
  · rw [he]
  · have hfirst : Range.Unlimited ['^' :: c :: first] ↔ Range.Unlimited [c :: first] :=
      Range.unlimited_caret (Range.not_isSignChar_of_isDigit hdigit)
    rw [hparts, hcaret, List.exists_mem_cons_iff, List.exists_mem_cons_iff, hfirst]

theorem nil_mem_iff (h : read? raw = some r) : [] ∈ r.alternatives ↔
    ∃ clause ∈ List.splitOn ',' raw, ∃ ws ∈ Range.parts (tidy clause), Range.Unlimited ws := by
  constructor
  · intro hmem
    obtain ⟨clause, hc, husable, ws, hws, hr⟩ := exists_part_of_mem h hmem
    have hunlimited := (husable.part_eq_nil_iff hws hr).mp rfl
    exact ⟨clause, hc, (exists_unlimited_withCaret husable).mp ⟨ws, hws, hunlimited⟩⟩
  · rintro ⟨clause, hc, hunlimited⟩
    have husable : Usable clause := (read?_eq_some.mp h).1 clause hc
    obtain ⟨ws, hws, hu⟩ := (exists_unlimited_withCaret husable).mpr hunlimited
    obtain ⟨alternative, hmem, hr⟩ := exists_mem_of_part h hc hws
    rwa [(husable.part_eq_nil_iff hws hr).mpr hu] at hmem

end CompatEntry

/-- **Which projects have an alternative that asks for nothing**: those without
a compat entry, and those with an entry that has one in a clause, be it blank
or some spelling of `*`. -/
theorem Project.nil_mem_compatRange_iff {entry : Option String} {r : Range} (h : compatRange entry = .ok r) :
    [] ∈ r.alternatives ↔ entry = none ∨ ∃ raw, entry = some raw ∧ ∃ clause ∈ List.splitOn ',' raw.toList,
      ∃ ws ∈ Range.parts (CompatEntry.tidy clause), Range.Unlimited ws := by
  cases entry with
  | none =>
    obtain rfl : Range.any = r := Except.ok.inj h
    simp [Range.any]
  | some raw =>
    have hread : CompatEntry.read? raw.toList = some r := by
      simp only [compatRange, CompatEntry.range?] at h
      split at h
      next hread => rw [hread, Except.ok.inj h]
      next => cases h
    simpa using CompatEntry.nil_mem_iff hread

/-- An entry with a limit in every clause. -/
theorem Project.compatRange_without_unlimited :
    compatRange (some "1.6, < 3") = .ok ⟨[Partial.caret (.minor 1 6), Partial.below (.major 3)]⟩ ∧
    ¬ ∃ clause ∈ List.splitOn ',' "1.6, < 3".toList,
      ∃ ws ∈ Range.parts (CompatEntry.tidy clause), Range.Unlimited ws := by
  have h : compatRange (some "1.6, < 3") = .ok ⟨[Partial.caret (.minor 1 6), Partial.below (.major 3)]⟩ := by decide
  refine ⟨h, fun hu => ?_⟩
  have := (Project.nil_mem_compatRange_iff h).mpr (.inr ⟨_, rfl, hu⟩)
  revert this
  decide

/-- The refusal of `*` does not reach its other spelling. -/
theorem Project.compatRange_wildcard :
    CompatEntry.range? "*" = none ∧ CompatEntry.range? "x" = some .any ∧ compatRange (some "x") = .ok .any ∧
      [] ∈ Range.any.alternatives := by decide

end VersionPick
