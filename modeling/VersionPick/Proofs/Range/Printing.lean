/-
The normal text of a range is read back as the range. Every comparator is one
word that no other reading fits: it is no sign that waits for a version, no
hyphen between two versions, and it holds no bar (`readComparator?_text`,
`isWord_text`). So the words and bars between comparators are found where they
were written (`readWords?_text`), and every range with an alternative has a
text of its own (`read?_text`). What was read once is therefore read and
printed again without a change (`parse_toString`).
-/
import VersionPick.Range.Printer
import VersionPick.Proofs.Range.Components
import VersionPick.Proofs.Range.Reading

namespace VersionPick

open Text

/-- In front of a full version an operator that compares is one comparator. -/
theorem Operator.apply_compare_full (r : Relation) (v : Version) : (compare r).apply (.full v) = [⟨r, v⟩] := by
  cases r <;> rfl

namespace Comparator

variable (c : Comparator)

theorem sign_mem_written : (c.relation.sign, Operator.compare c.relation) ∈ Range.written := by
  cases c.relation <;> decide

theorem read?_version : Partial.read? c.version.text = some (.full c.version) :=
  Partial.read?_text (.full c.version)

/-- A printed comparator is a sign in front of a version, and is read so. -/
theorem splitSign_text : Range.splitSign c.text = (.compare c.relation, c.version.text) := by
  have hhead : c.version.text.head? ≠ some '=' := Partial.head?_text (.full c.version)
  exact Range.splitSign_append c.sign_mem_written fun d hd =>
    Range.not_isSignChar_of_read? c.read?_version hhead hd

theorem readComparator?_text : Range.readComparator? c.text = some [c] := by
  have happly : (Operator.compare c.relation).apply (.full c.version) = [c] :=
    Operator.apply_compare_full c.relation c.version
  rw [Range.readComparator?, c.splitSign_text]
  simp only [c.read?_version, Option.map_some, happly]

theorem isWord_text : IsWord c.text := by
  refine ⟨?_, fun d hd => ?_⟩
  · have hne := Partial.ne_nil_of_read? c.read?_version
    simp [text, hne]
  · rcases Range.char_of_readComparator? c.readComparator?_text hd with h | h
    · exact Range.isBlank_of_isSignChar h
    · exact Partial.not_isBlank_of_isPartialChar h

theorem bar_not_mem_text : '|' ∉ c.text := fun hc => by
  rcases Range.char_of_readComparator? c.readComparator?_text hc with h | h
  · exact absurd h (by decide)
  · exact absurd h (by decide)

/-- The word of a comparator is more than a sign, so it waits for no version. -/
theorem not_isSign_text : Operator.isSign c.text = false := by
  rw [Bool.eq_false_iff]
  intro h
  obtain ⟨w, hw, he⟩ := Range.isSign_iff.mp h
  obtain ⟨d, cs, hd⟩ := List.exists_cons_of_ne_nil (Partial.ne_nil_of_read? c.read?_version)
  have hhead : c.version.text.head? ≠ some '=' := Partial.head?_text (.full c.version)
  have hsign : Range.isSignChar d = false :=
    Range.not_isSignChar_of_read? c.read?_version hhead (by simp [hd])
  have hmem : d ∈ w.1 := by simp [he, text, hd]
  rw [Range.isSignChar_of_mem_signs hw hmem] at hsign
  cases hsign

theorem text_ne_hyphen : c.text ≠ ['-'] := by
  intro h
  have hread := c.readComparator?_text
  rw [h, Range.readComparator?_hyphen] at hread
  cases hread

end Comparator

namespace Range

/-! ## Words of an alternative -/

/-- Words that are no signs stay as they are. -/
theorem attachSigns_of_not_isSign : ∀ {ws : List (List Char)}, (∀ w ∈ ws, Operator.isSign w = false) →
    attachSigns [] ws = ws
  | [], _ => rfl
  | word :: ws, h => by
    have hword : Operator.isSign word = false := h word (by simp)
    have ih : attachSigns [] ws = ws := attachSigns_of_not_isSign fun w hw => h w (by simp [hw])
    simp [attachSigns, hword, ih]

theorem readWords?_text (cs : Alternative) : readWords? (cs.map Comparator.text) = some cs := by
  have hhyphen : ['-'] ∉ cs.map Comparator.text := by
    intro h
    obtain ⟨c, -, he⟩ := List.mem_map.mp h
    exact c.text_ne_hyphen he
  have hsigns : ∀ w ∈ cs.map Comparator.text, Operator.isSign w = false := by
    intro w hw
    obtain ⟨c, -, rfl⟩ := List.mem_map.mp hw
    exact c.not_isSign_text
  have hread : (cs.map Comparator.text).mapM readComparator? = some (cs.map fun c => [c]) := by
    rw [mapM_eq_some, List.forall₂_map_left_iff, List.forall₂_map_right_iff, List.forall₂_same]
    exact fun c _ => c.readComparator?_text
  have hflat : (cs.map fun c => [c]).flatten = cs := by
    rw [← List.flatMap_def, List.flatMap_singleton']
  rw [readWords?_of_no_hyphen hhyphen, attachSigns_of_not_isSign hsigns, hread, Option.map_some, hflat]

/-! ## Alternatives -/

/-- The words of a printed alternative are read as the alternative; the star
stands for the one without comparators. -/
theorem readWords?_words_text (cs : Alternative) : readWords? (words cs.text) = some cs := by
  cases cs with
  | nil => decide
  | cons c cs =>
    have hwords : ∀ w ∈ (c :: cs).map Comparator.text, IsWord w := by
      intro w hw
      obtain ⟨d, -, rfl⟩ := List.mem_map.mp hw
      exact d.isWord_text
    have htext : Alternative.text (c :: cs) = List.intercalate [' '] ((c :: cs).map Comparator.text) := rfl
    rw [htext, words_intercalate hwords, readWords?_text]

theorem bar_not_mem_text (cs : Alternative) : '|' ∉ cs.text := by
  cases cs with
  | nil => decide
  | cons c cs =>
    intro h
    have h : '|' ∈ List.intercalate [' '] ((c :: cs).map Comparator.text) := h
    rcases mem_intercalate h with h | ⟨word, hw, h⟩
    · exact absurd h (by decide)
    · obtain ⟨d, -, rfl⟩ := List.mem_map.mp hw
      exact d.bar_not_mem_text h

/-! ## Ranges -/

/-- A range with an alternative is read back from its text. -/
theorem read?_text {r : Range} (h : r.alternatives ≠ []) : read? r.text = some r := by
  have hbar : ∀ piece ∈ r.alternatives.map Alternative.text, '|' ∉ piece := by
    intro piece hp
    obtain ⟨cs, -, rfl⟩ := List.mem_map.mp hp
    exact bar_not_mem_text cs
  have hsplit : splitOnPair '|' r.text = r.alternatives.map Alternative.text :=
    splitOnPair_intercalate (by simpa using h) hbar
  rw [read?_eq_some, hsplit, List.forall₂_map_left_iff, List.forall₂_same]
  exact fun cs _ => readWords?_words_text cs

/-- What is read has an alternative: even the empty text has one. -/
theorem alternatives_ne_nil {cs : List Char} {r : Range} (h : read? cs = some r) : r.alternatives ≠ [] := by
  intro he
  have hread := read?_eq_some.mp h
  rw [he, List.forall₂_nil_right_iff] at hread
  exact splitOnPair_ne_nil '|' cs hread

/-- The normal text of the range that a text is. -/
def normalize (text : String) : Except InvalidRange String :=
  (parse text).map toString

/-- **Normal texts are read as what they were printed from.** A range that was
read is read from its normal text, no other range that was read has that text,
and the normal text is its own normal text. -/
theorem parse_toString {text : String} {r : Range} (h : parse text = .ok r) :
    parse (toString r) = .ok r ∧
    (∀ text' r', parse text' = .ok r' → toString r' = toString r → r' = r) ∧
    normalize text = .ok (toString r) ∧ normalize (toString r) = .ok (toString r) := by
  have hback : ∀ {text r}, parse text = .ok r → parse (toString r) = .ok r := by
    intro text r h
    have hread : read? r.text = some r := read?_text (alternatives_ne_nil (parse_eq_ok.mp h))
    rw [parse_eq_ok, show (toString r).toList = r.text from String.toList_ofList, hread]
  refine ⟨hback h, fun text' r' h' he => ?_, ?_, ?_⟩
  · have hr' := hback h'
    rw [he, hback h] at hr'
    exact (Except.ok.inj hr').symm
  · rw [normalize, h]
    rfl
  · rw [normalize, hback h]
    rfl

/-- Four alternatives, one of them blank and one a star, with a pre-release
that has a hyphen in it and the largest number there is. -/
theorem parse_toString_four : ∃ r, parse "~1.2.3-rc-1 || ||x - 18446744073709551615.0.0|| *" = .ok r ∧
    toString r = ">=1.2.3-rc-1 <1.3.0-0||*||<=18446744073709551615.0.0||*" ∧ parse (toString r) = .ok r := by
  let r : Range := ⟨[[⟨.ge, ⟨⟨1, 2, 3⟩, [⟨"rc-1".toList, by decide⟩]⟩⟩, ⟨.lt, .lowest 1 3 0⟩], [],
    [⟨.le, .release 18446744073709551615 0 0⟩], []]⟩
  have h : parse "~1.2.3-rc-1 || ||x - 18446744073709551615.0.0|| *" = .ok r := by decide +kernel
  exact ⟨r, h, by decide +kernel, (parse_toString h).1⟩

end Range

end VersionPick
