/-
Compat entries put together with commas. An entry is the ranges of its
clauses, each read as an entry of its own, one after the other
(`read?_eq_clauses`): a clause that is taken is a range, with the caret that it
may get as well as without (`Usable.exists_range`), and the bars put between
clauses separate whatever stands around them. So two entries with a comma
between them have the alternatives of both, and neither the order of clauses
nor how often one is repeated makes a difference to what is admitted
(`commas_compose`).
-/
import VersionPick.Proofs.CompatEntry.Clause

namespace VersionPick.CompatEntry

open Text

/-! ## One clause -/

/-- A clause that is taken is a range with the caret, too. -/
theorem Usable.exists_range {clause : List Char} (h : Usable clause) :
    ∃ r, Range.read? (withCaret (tidy clause)) = some r := by
  obtain ⟨⟨alternatives⟩, hr⟩ := Option.isSome_iff_exists.mp h.reads
  rcases h.parts_withCaret with he | ⟨c, first, more, hdigit, hparts, hcaret⟩
  · exact ⟨⟨alternatives⟩, by rw [he, hr]⟩
  · -- Only the first word is changed, and it stays a comparator.
    rw [Range.read?_eq_some_parts, hparts] at hr
    obtain ⟨alternative, rest, hfirst, hmore, -⟩ := List.forall₂_cons_left_iff.mp hr
    obtain ⟨caret, hread⟩ := Range.exists_readWords?_caret (Range.not_isSignChar_of_isDigit hdigit) hfirst
    refine ⟨⟨caret :: rest⟩, ?_⟩
    rw [Range.read?_eq_some_parts, hcaret]
    exact .cons hread hmore

theorem exists_range_of_clause? {clause text : List Char} (h : clause? clause = some text) :
    ∃ r, Range.read? text = some r := by
  obtain ⟨husable, rfl⟩ := clause?_eq_some.mp h
  exact husable.exists_range

/-- An entry of one clause is read as the range text of the clause. -/
theorem read?_clause {clause : List Char} (h : ',' ∉ clause) :
    read? clause = (clause? clause).bind Range.read? := by
  rw [read?, List.splitOn_eq_singleton h]
  cases hclause : clause? clause <;> simp [hclause]

/-! ## Clauses side by side -/

variable {raw : List Char} {texts : List (List Char)}

/-- Clauses that are taken one by one are the ranges of all of them. -/
theorem read?_of_clauses (h : (List.splitOn ',' raw).mapM clause? = some texts) :
    ∃ ranges, List.Forall₂ (fun text r => Range.read? text = some r) texts ranges ∧
      read? raw = some ⟨ranges.flatMap Range.alternatives⟩ := by
  have hne : texts ≠ [] := by
    rintro rfl
    exact List.splitOn_ne_nil _ raw (List.forall₂_nil_right_iff.mp (mapM_eq_some.mp h))
  have hreads : ∀ text ∈ texts, ∃ r, Range.read? text = some r := by
    intro text ht
    obtain ⟨clause, -, hclause⟩ := exists_of_mem_right (mapM_eq_some.mp h) ht
    exact exists_range_of_clause? hclause
  obtain ⟨ranges, hranges⟩ := exists_forall₂.mpr hreads
  refine ⟨ranges, hranges, ?_⟩
  rw [read?, h, Option.bind_eq_bind, Option.bind_some, Range.read?_intercalate_ranges hne hranges]

/-- An entry is the ranges of its clauses, each read as an entry of its own. -/
theorem read?_eq_clauses (raw : List Char) : read? raw =
    ((List.splitOn ',' raw).mapM read?).map fun ranges => ⟨ranges.flatMap Range.alternatives⟩ := by
  have hclauses : (List.splitOn ',' raw).mapM read? =
      ((List.splitOn ',' raw).mapM clause?).bind fun texts => texts.mapM Range.read? := by
    rw [mapM_mapM]
    exact mapM_congr fun clause hc => read?_clause (not_mem_of_mem_splitOn hc)
  rw [hclauses]
  cases h : (List.splitOn ',' raw).mapM clause? with
  | none => simp [read?, h]
  | some texts =>
    obtain ⟨ranges, hranges, hread⟩ := read?_of_clauses h
    rw [hread, Option.bind_some, mapM_eq_some.mpr hranges, Option.map_some]

theorem read?_append_comma (a b : List Char) : read? (a ++ ',' :: b) =
    (read? a).bind fun r => (read? b).map fun s => ⟨r.alternatives ++ s.alternatives⟩ := by
  rw [read?_eq_clauses, read?_eq_clauses a, read?_eq_clauses b, List.splitOn_append_cons_self, List.mapM_append]
  cases (List.splitOn ',' a).mapM read? with
  | none => rfl
  | some rs => cases (List.splitOn ',' b).mapM read? <;> simp

/-- A version is in an entry if it is in one of the clauses. -/
theorem admits_iff_clause {r : Range} (h : read? raw = some r) {v : Version} :
    r.admits v = true ↔ ∃ clause ∈ List.splitOn ',' raw, ∃ s, read? clause = some s ∧ s.admits v = true := by
  rw [read?_eq_clauses, Option.map_eq_some_iff] at h
  obtain ⟨ranges, hranges, rfl⟩ := h
  rw [mapM_eq_some] at hranges
  simp only [Range.admits, List.any_flatMap, List.any_eq_true]
  constructor
  · rintro ⟨s, hs, hv⟩
    obtain ⟨clause, hc, hread⟩ := exists_of_mem_right hranges hs
    exact ⟨clause, hc, s, hread, hv⟩
  · rintro ⟨clause, hc, s, hread, hv⟩
    obtain ⟨s', hs', hread'⟩ := exists_of_mem_left hranges hc
    obtain rfl : s = s' := Option.some.inj (hread.symm.trans hread')
    exact ⟨s, hs', hv⟩

/-- Entries of the same clauses admit the same versions. -/
theorem read?_of_same_clauses {raw' : List Char}
    (h : ∀ clause, clause ∈ List.splitOn ',' raw ↔ clause ∈ List.splitOn ',' raw')
    {r : Range} (hr : read? raw = some r) : ∃ r', read? raw' = some r' ∧ ∀ v, r'.admits v = r.admits v := by
  have hread : ∃ r', read? raw' = some r' := by
    rw [read?_eq_clauses, Option.map_eq_some_iff] at hr
    obtain ⟨ranges, hranges, -⟩ := hr
    have hclauses : ∀ clause ∈ List.splitOn ',' raw', ∃ s, read? clause = some s := by
      intro clause hc
      obtain ⟨s, -, hs⟩ := exists_of_mem_left (mapM_eq_some.mp hranges) ((h clause).mpr hc)
      exact ⟨s, hs⟩
    obtain ⟨ranges', hranges'⟩ := exists_forall₂.mpr hclauses
    exact ⟨_, by rw [read?_eq_clauses, mapM_eq_some.mpr hranges', Option.map_some]⟩
  obtain ⟨r', hr'⟩ := hread
  refine ⟨r', hr', fun v => Bool.eq_iff_iff.mpr ?_⟩
  rw [admits_iff_clause hr', admits_iff_clause hr]
  simp only [h]

/-- **Commas compose.** Two entries with a comma between them are taken exactly
if both are, and have the alternatives of both. Clauses that are taken one by
one are an entry, with the alternatives of each of them as it stands. Entries
of the same clauses, in whatever order and however often, admit the same
versions. -/
theorem commas_compose :
    (∀ (a b : String) (u : Range), range? (a ++ "," ++ b) = some u ↔
      ∃ r s, range? a = some r ∧ range? b = some s ∧ u.alternatives = r.alternatives ++ s.alternatives) ∧
    (∀ (raw : String) (texts : List (List Char)), (List.splitOn ',' raw.toList).mapM clause? = some texts →
      ∃ ranges, List.Forall₂ (fun text r => Range.read? text = some r) texts ranges ∧
        range? raw = some ⟨ranges.flatMap Range.alternatives⟩) ∧
    ∀ raw raw' : String, (∀ clause, clause ∈ List.splitOn ',' raw.toList ↔ clause ∈ List.splitOn ',' raw'.toList) →
      ∀ r, range? raw = some r → ∃ r', range? raw' = some r' ∧ ∀ v, r'.admits v = r.admits v := by
  refine ⟨fun a b u => ?_, fun _ _ h => read?_of_clauses h, fun _ _ h _ hr => read?_of_same_clauses h hr⟩
  have happend : (a ++ "," ++ b).toList = a.toList ++ ',' :: b.toList := by simp
  simp only [range?, happend, read?_append_comma, Option.bind_eq_some_iff, Option.map_eq_some_iff]
  constructor
  · rintro ⟨r, hr, s, hs, rfl⟩
    exact ⟨r, s, hr, hs, rfl⟩
  · rintro ⟨r, s, hr, hs, hu⟩
    exact ⟨r, hr, s, hs, by rw [← hu]⟩

/-- Three clauses, one of them with a bar of its own, and the same in another
order with one repeated. -/
theorem commas_compose_three :
    let r : Range := ⟨[Partial.caret (.major 1), [], Partial.atLeast (.minor 2 5),
      Partial.upTo (.major 3) (.major 4)]⟩
    (∃ r₁ r₂, range? "1||x" = some r₁ ∧ range? " ≥ 2.5,3 - 4" = some r₂ ∧
      r.alternatives = r₁.alternatives ++ r₂.alternatives) ∧
    (List.splitOn ',' "1||x, ≥ 2.5,3 - 4".toList).mapM clause? =
      some ["^1||x".toList, ">=2.5".toList, "3 - 4".toList] ∧
    (∃ ranges : List Range, ranges.length = 3 ∧ range? "1||x, ≥ 2.5,3 - 4" = some ⟨ranges.flatMap Range.alternatives⟩) ∧
    (∀ clause, clause ∈ List.splitOn ',' "1||x, ≥ 2.5,3 - 4".toList ↔
      clause ∈ List.splitOn ',' "3 - 4, ≥ 2.5,3 - 4,1||x".toList) ∧
    ∃ r', range? "3 - 4, ≥ 2.5,3 - 4,1||x" = some r' ∧ ∀ v, r'.admits v = r.admits v := by
  intro r
  have hr : range? "1||x, ≥ 2.5,3 - 4" = some r := by decide
  have htexts : (List.splitOn ',' "1||x, ≥ 2.5,3 - 4".toList).mapM clause? =
      some ["^1||x".toList, ">=2.5".toList, "3 - 4".toList] := by decide
  have hsplit : List.splitOn ',' "1||x, ≥ 2.5,3 - 4".toList =
      ["1||x".toList, " ≥ 2.5".toList, "3 - 4".toList] := by decide
  have hsplit' : List.splitOn ',' "3 - 4, ≥ 2.5,3 - 4,1||x".toList =
      ["3 - 4".toList, " ≥ 2.5".toList, "3 - 4".toList, "1||x".toList] := by decide
  have hsame : ∀ clause, clause ∈ List.splitOn ',' "1||x, ≥ 2.5,3 - 4".toList ↔
      clause ∈ List.splitOn ',' "3 - 4, ≥ 2.5,3 - 4,1||x".toList := by
    intro clause
    rw [hsplit, hsplit']
    simp only [List.mem_cons, List.not_mem_nil, or_false]
    constructor
    · rintro (h | h | h) <;> simp [h]
    · rintro (h | h | h | h) <;> simp [h]
  obtain ⟨happend, hclauses, hreorder⟩ := commas_compose
  obtain ⟨ranges, hranges, hread⟩ := hclauses _ _ htexts
  exact ⟨(happend "1||x" " ≥ 2.5,3 - 4" r).mp hr, htexts, ⟨ranges, hranges.length_eq.symm, hread⟩, hsame,
    hreorder _ _ hsame r hr⟩

end VersionPick.CompatEntry
