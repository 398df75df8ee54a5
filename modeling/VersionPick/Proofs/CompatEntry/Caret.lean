/-
What a version means as a clause of a compat entry. The caret in front of it
may be left out if the version starts with a digit. A version that does not,
such as one behind a `v`, is read as a range reads it. That is something else
for three numbers, and for two numbers if the first is not zero
(`caret_left_out_iff`).
-/
import VersionPick.Proofs.CompatEntry.Clause

namespace VersionPick

open Text

theorem nextNumber_ne_zero (n : UInt64) : nextNumber n ≠ 0 := by
  unfold nextNumber
  split
  next h => simp [h]
  next h =>
    intro h0
    exact h (by rw [← UInt64.add_left_inj 1, h0]; rfl)

namespace Partial

/-- A caret says as much as all the numbers given if there is one of them, or
none, or if the first of two is zero. -/
theorem within_eq_caret_iff : ∀ {p : Partial}, p.within = p.caret ↔
    p = .any ∨ (∃ a, p = .major a) ∨ ∃ b, p = .minor 0 b
  | .any => by simp [within, caret]
  | .major a => by simp [within, caret]
  | .minor a b => by
    by_cases ha : a = 0
    · simp [within, caret, ha]
    · simp [within, caret, between, Version.lowest, ha, nextNumber_ne_zero]
  | .full v => by
    simp only [within, caret, between]
    split <;> try split
    all_goals simp

end Partial

namespace CompatEntry

/-- A version that is a clause of an entry on its own: its text, without sign
in front, and what is read from it. -/
structure LoneVersion where
  text : List Char
  version : Partial
  reads : Partial.read? text = some version
  no_sign : text.head? ≠ some '='
  taken : (read? text).isSome

namespace LoneVersion

variable (w : LoneVersion)

/-- The version with a caret in front, or without. -/
def spelling (caret : Bool) : List Char :=
  if caret then '^' :: w.text else w.text

/-- The clause is the version, with a caret in front or without, between
blanks. -/
def Spells (caret : Bool) (clause : List Char) : Prop :=
  ∃ lead trail, (∀ c ∈ lead, isBlank c = true) ∧ (∀ c ∈ trail, isBlank c = true) ∧
    clause = lead ++ w.spelling caret ++ trail

/-- The caret may be left out: the version starts with a digit, or has so few
numbers that a caret says no more than they do. -/
def MeansCaret : Prop :=
  w.text.head?.any Char.isDigit = true ∨ w.version = .any ∨ (∃ a, w.version = .major a) ∨ ∃ b, w.version = .minor 0 b

/-- What the version means as a clause. -/
def meaning (caret : Bool) : Alternative :=
  if caret || w.text.head?.any Char.isDigit then w.version.caret else w.version.within

theorem meaning_eq_caret_iff : w.meaning false = w.version.caret ↔ w.MeansCaret := by
  unfold meaning MeansCaret
  by_cases h : w.text.head?.any Char.isDigit = true <;> simp [h, Partial.within_eq_caret_iff]

/-! ## Clauses of one version -/

theorem text_ne_star : w.text ≠ ['*'] := by
  intro h
  have htaken := w.taken
  rw [h] at htaken
  revert htaken
  decide

variable {w} {caret : Bool}

theorem char_of_mem {c : Char} (hc : c ∈ w.spelling caret) : c = '^' ∨ Partial.isPartialChar c = true := by
  cases caret with
  | false => exact .inr (Partial.isPartialChar_of_read? w.reads hc)
  | true =>
    rcases List.mem_cons.mp hc with hc | hc
    · exact .inl hc
    · exact .inr (Partial.isPartialChar_of_read? w.reads hc)

theorem isWord : IsWord (w.spelling caret) := by
  refine ⟨?_, fun c hc => ?_⟩
  · cases caret with
    | false => exact Partial.ne_nil_of_read? w.reads
    | true => simp [spelling]
  · rcases char_of_mem hc with rfl | hc
    · decide
    · exact Partial.not_isBlank_of_isPartialChar hc

theorem read?_text : Range.read? w.text = some ⟨[w.version.within]⟩ :=
  Range.read?_sign_append (show ([], .compare .eq) ∈ Range.written by decide) w.reads w.no_sign

theorem read?_caret : Range.read? ('^' :: w.text) = some ⟨[w.version.caret]⟩ :=
  Range.read?_sign_append (show (['^'], .caret) ∈ Range.written by decide) w.reads w.no_sign

theorem read?_withCaret : Range.read? (withCaret (w.spelling caret)) = some ⟨[w.meaning caret]⟩ := by
  have hspace : ' ' ∉ w.text := space_not_mem (isWord : IsWord (w.spelling false))
  cases caret with
  | false =>
    by_cases h : w.text.head?.any Char.isDigit = true
    · simpa [withCaret, spelling, meaning, h, hspace] using w.read?_caret
    · simpa [withCaret, spelling, meaning, h] using w.read?_text
  | true => simpa [withCaret, spelling, meaning] using w.read?_caret

theorem usable {clause : List Char} (h : tidy clause = w.spelling caret) : Usable clause where
  ne_nil := h ▸ isWord.1
  reads := by
    rw [h]
    cases caret with
    | false => exact Option.isSome_of_eq_some w.read?_text
    | true => exact Option.isSome_of_eq_some w.read?_caret
  single := by
    have hword : ∀ word ∈ [w.spelling caret], IsWord word := by simpa using isWord
    rw [h]
    simpa using (isSingle_intercalate (by simp) hword).mpr (.inl ⟨_, rfl⟩)
  not_atMost := by
    rintro ⟨rest, hrest⟩
    have hc : '<' ∈ w.spelling caret := by simp [← h, ← hrest]
    exact absurd (char_of_mem hc) (by decide)
  not_star := by
    rw [h]
    cases caret with
    | false => exact w.text_ne_star
    | true => simp [spelling]

variable {clause : List Char}

theorem Spells.comma_not_mem (h : w.Spells caret clause) : ',' ∉ clause := by
  obtain ⟨lead, trail, hl, ht, rfl⟩ := h
  simp only [List.mem_append, not_or]
  exact ⟨⟨fun hc => absurd (hl _ hc) (by decide), fun hc => absurd (char_of_mem hc) (by decide)⟩,
    fun hc => absurd (ht _ hc) (by decide)⟩

theorem Spells.tidy (h : w.Spells caret clause) : tidy clause = w.spelling caret := by
  obtain ⟨lead, trail, hl, ht, rfl⟩ := h
  have hmem {c : Char} (hc : ¬ (c = '^' ∨ Partial.isPartialChar c = true)) : c ∉ w.spelling caret :=
    fun h => hc (char_of_mem h)
  exact tidy_pad hl ht isWord (hmem (by decide)) (hmem (by decide))

theorem spells_text : w.Spells false w.text :=
  ⟨[], [], by simp, by simp, by simp [spelling]⟩

end LoneVersion

/-! ## Entries of versions -/

/-- Versions with commas between them mean what each of them means. -/
theorem read?_intercalate {clauses : List (List Char)} {alternatives : List Alternative} (hne : clauses ≠ [])
    (h : List.Forall₂ (fun clause alternative => ∃ (w : LoneVersion) (caret : Bool),
      w.Spells caret clause ∧ w.meaning caret = alternative) clauses alternatives) :
    read? (List.intercalate [','] clauses) = some ⟨alternatives⟩ := by
  have hclause : ∀ clause ∈ clauses, Usable clause ∧ ',' ∉ clause := by
    intro clause hc
    obtain ⟨alternative, -, w, caret, hspells, -⟩ := exists_of_mem_left h hc
    exact ⟨LoneVersion.usable hspells.tidy, hspells.comma_not_mem⟩
  have hsplit : List.splitOn ',' (List.intercalate [','] clauses) = clauses :=
    List.splitOn_intercalate ',' (fun clause hc => (hclause clause hc).2) hne
  rw [read?_of_usable (by simpa only [hsplit] using fun clause hc => (hclause clause hc).1), hsplit]
  refine Range.read?_intercalate (by simpa using hne)
    (List.forall₂_map_left_iff.mpr (h.imp fun clause alternative hm => ?_))
  obtain ⟨w, caret, hspells, rfl⟩ := hm
  rw [hspells.tidy, LoneVersion.read?_withCaret]

theorem read?_texts {versions : List LoneVersion} (hne : versions ≠ []) :
    read? (List.intercalate [','] (versions.map (·.text))) = some ⟨versions.map (·.meaning false)⟩ := by
  refine read?_intercalate (by simpa using hne) ?_
  rw [List.forall₂_map_left_iff, List.forall₂_map_right_iff, List.forall₂_same]
  exact fun w _ => ⟨w, false, w.spells_text, rfl⟩

/-- **The caret may be left out** of a version, and of any of several versions
with commas between them, exactly if the version starts with a digit or a
caret makes nothing else of it. -/
theorem caret_left_out_iff {versions : List LoneVersion} (hne : versions ≠ []) :
    (∀ w ∈ versions, read? w.text = Range.read? ('^' :: w.text) ↔ w.MeansCaret) ∧
    ((∀ clauses, List.Forall₂ (fun w clause => ∃ caret, LoneVersion.Spells w caret clause) versions clauses →
        read? (List.intercalate [','] clauses) = some ⟨versions.map fun w => w.version.caret⟩) ↔
      ∀ w ∈ versions, w.MeansCaret) := by
  refine ⟨fun w _ => ?_, fun h w hw => ?_, fun h clauses hspells => ?_⟩
  · have hread : read? w.text = some ⟨[w.meaning false]⟩ := by simpa using read?_texts (List.cons_ne_nil w [])
    rw [hread, LoneVersion.read?_caret, ← w.meaning_eq_caret_iff]
    simp
  · have htexts : List.Forall₂ (fun w clause => ∃ caret, LoneVersion.Spells w caret clause) versions
        (versions.map (·.text)) := by
      rw [List.forall₂_map_right_iff, List.forall₂_same]
      exact fun w _ => ⟨false, w.spells_text⟩
    have hread := h _ htexts
    rw [read?_texts hne] at hread
    simp only [Option.some.injEq, Range.mk.injEq, List.map_inj_left] at hread
    exact w.meaning_eq_caret_iff.mp (hread w hw)
  · have hclauses : clauses ≠ [] := by
      rintro rfl
      exact hne (List.forall₂_nil_right_iff.mp hspells)
    refine read?_intercalate hclauses (List.forall₂_map_right_iff.mpr ?_)
    have hall := (List.forall₂_and_left _ _).mpr ⟨h, hspells⟩
    refine hall.flip.imp fun clause w ⟨hmeans, caret, hs⟩ => ⟨w, caret, hs, ?_⟩
    cases caret with
    | false => exact w.meaning_eq_caret_iff.mpr hmeans
    | true => rfl

/-- Two versions, with a caret in front of the first. -/
theorem caret_of_two : read? "^1.2, v2".toList = some ⟨[Partial.caret (.minor 1 2), Partial.caret (.major 2)]⟩ := by
  let one : LoneVersion := ⟨"1.2".toList, .minor 1 2, by decide, by decide, by decide⟩
  let two : LoneVersion := ⟨"v2".toList, .major 2, by decide, by decide, by decide⟩
  have hread := (caret_left_out_iff (List.cons_ne_nil one [two])).2.mpr (by simp [LoneVersion.MeansCaret, one, two])
  exact hread ["^1.2".toList, " v2".toList] (.cons ⟨true, [], [], by simp, by simp, rfl⟩
    (.cons ⟨false, [' '], [], List.forall_mem_singleton.mpr (by decide), by simp, rfl⟩ .nil))

/-- Behind a `v` a missing caret is missed. -/
theorem caret_missed : Partial.read? "v1.2".toList = some (.minor 1 2) ∧
    range? "v1.2" = some ⟨[Partial.within (.minor 1 2)]⟩ ∧
    Range.parse "^v1.2" = .ok ⟨[Partial.caret (.minor 1 2)]⟩ ∧
    Partial.within (.minor 1 2) ≠ Partial.caret (.minor 1 2) := by decide

end CompatEntry

end VersionPick
