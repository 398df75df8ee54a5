/-
What the clauses of a compat entry are. A clause is read in a tidy form, with
plain signs and one space between its words (`tidy`); the ones that are taken
are one word, or two with a hyphen between them (`clause?_cases`). An entry is
read as the alternatives of all its clauses (`read?_eq_some`).
-/
import VersionPick.CompatEntry
import VersionPick.Proofs.Range.Alternatives

namespace VersionPick.CompatEntry

open Text

/-- A clause with plain signs, and one space between its words. -/
def tidy (raw : List Char) : List Char :=
  layOut (words (plainSigns raw))

/-- The text of a clause with the caret that a bare version means. -/
def withCaret (clause : List Char) : List Char :=
  if clause.head?.any Char.isDigit && !clause.contains ' ' then '^' :: clause else clause

/-! ## Tidy clauses -/

theorem space_not_mem {word : List Char} (h : IsWord word) : ' ' ∉ word :=
  fun hc => absurd (h.2 ' ' hc) (by decide)

theorem append_intercalate (lead word : List Char) (ws : List (List Char)) :
    lead ++ List.intercalate [' '] (word :: ws) = List.intercalate [' '] ((lead ++ word) :: ws) := by
  cases ws <;> simp

/-- What is laid out is words with spaces between them. -/
theorem exists_words_layOut : ∀ {ws : List (List Char)}, ws ≠ [] → (∀ w ∈ ws, IsWord w) →
    ∃ word rest, layOut ws = List.intercalate [' '] (word :: rest) ∧ ∀ w ∈ word :: rest, IsWord w
  | [], h, _ => absurd rfl h
  | [word], _, h => ⟨word, [], by simp [layOut], h⟩
  | word :: next :: ws, _, h => by
    have hword : IsWord word := h word (by simp)
    obtain ⟨first, rest, he, hrest⟩ := @exists_words_layOut (next :: ws) (by simp)
      fun w hw => h w (by simp [hw])
    simp only [layOut, he]
    split
    · refine ⟨word ++ first, rest, append_intercalate word first rest, fun w hw => ?_⟩
      rcases List.mem_cons.mp hw with rfl | hw
      · refine ⟨by simp [hword.1], fun c hc => ?_⟩
        rcases List.mem_append.mp hc with hc | hc
        · exact hword.2 c hc
        · exact (hrest first (by simp)).2 c hc
      · exact hrest w (by simp [hw])
    · refine ⟨word, first :: rest, by simp, fun w hw => ?_⟩
      rcases List.mem_cons.mp hw with rfl | hw
      · exact hword
      · exact hrest w hw

theorem exists_words_tidy {raw : List Char} (h : tidy raw ≠ []) :
    ∃ word rest, tidy raw = List.intercalate [' '] (word :: rest) ∧ ∀ w ∈ word :: rest, IsWord w := by
  refine exists_words_layOut (fun he => h ?_) fun w hw => isWord_of_mem_words hw
  rw [tidy, he, layOut]

/-- A tidy clause is single if it is one word, or two with a hyphen between. -/
theorem isSingle_intercalate {ws : List (List Char)} (hne : ws ≠ []) (h : ∀ w ∈ ws, IsWord w) :
    isSingle (List.intercalate [' '] ws) = true ↔ (∃ word, ws = [word]) ∨ ∃ low high, ws = [low, ['-'], high] := by
  rw [isSingle, List.splitOn_intercalate ' ' (fun w hw => space_not_mem (h w hw)) hne]
  split
  · simp
  · simp
  next h₁ h₂ =>
    simp only [Bool.false_eq_true, false_iff, not_or, not_exists]
    exact ⟨fun word he => h₁ word he, fun low high he => h₂ low high he⟩

theorem mem_layOut {c : Char} : ∀ {ws : List (List Char)}, c ≠ ' ' → (c ∈ layOut ws ↔ ∃ w ∈ ws, c ∈ w)
  | [], _ => by simp [layOut]
  | [word], _ => by simp [layOut]
  | word :: next :: ws, hc => by
    have ih : c ∈ layOut (next :: ws) ↔ ∃ w ∈ next :: ws, c ∈ w := mem_layOut hc
    simp only [layOut]
    split <;> simp [ih, hc]

/-- A bar stands in a tidy clause if it stands in the clause. -/
theorem bar_mem_tidy {raw : List Char} : '|' ∈ tidy raw ↔ '|' ∈ raw := by
  rw [tidy, mem_layOut (by decide), ← mem_words (by decide), plainSigns, mem_replace (by decide) (by decide),
    mem_replace (by decide) (by decide)]

theorem bar_mem_withCaret {clause : List Char} : '|' ∈ withCaret clause ↔ '|' ∈ clause := by
  unfold withCaret
  split <;> simp

theorem tidy_pad {lead word trail : List Char} (hl : ∀ c ∈ lead, isBlank c = true)
    (ht : ∀ c ∈ trail, isBlank c = true) (hword : IsWord word) (hge : '≥' ∉ word) (hle : '≤' ∉ word) :
    tidy (lead ++ word ++ trail) = word := by
  have hmem {c : Char} (hc : isBlank c = false) (h : c ∉ word) : c ∉ lead ++ word ++ trail := by
    intro hm
    simp only [List.mem_append] at hm
    rcases hm with (hm | hm) | hm
    · simp [hl c hm] at hc
    · exact h hm
    · simp [ht c hm] at hc
  rw [tidy, plainSigns, replace_of_not_mem _ (hmem (by decide) hge), replace_of_not_mem _ (hmem (by decide) hle),
    words_pad hl ht, words_of_isWord hword, layOut]

/-! ## Clauses that are taken -/

/-- The clause is taken. -/
structure Usable (raw : List Char) : Prop where
  ne_nil : tidy raw ≠ []
  reads : (Range.read? (tidy raw)).isSome
  single : isSingle (tidy raw) = true
  not_atMost : ¬ ['<', '='] <+: tidy raw
  not_star : tidy raw ≠ ['*']

theorem clause?_eq_some {raw text : List Char} :
    clause? raw = some text ↔ Usable raw ∧ text = withCaret (tidy raw) := by
  have hprefix : (List.isPrefixOf? ['<', '='] (tidy raw)).isSome = true ↔ ['<', '='] <+: tidy raw := by
    rw [Option.isSome_iff_exists]
    exact exists_congr fun rest => List.isPrefixOf?_eq_some_iff_append_eq
  have hclause : clause? raw =
      if (tidy raw).isEmpty || (Range.read? (tidy raw)).isNone || !isSingle (tidy raw) ||
        (List.isPrefixOf? ['<', '='] (tidy raw)).isSome || tidy raw == ['*'] then none
      else some (withCaret (tidy raw)) := by
    rw [clause?, ← tidy]
    cases tidy raw with
    | nil => rfl
    | cons c cs =>
      rw [withCaret, apply_ite some]
      rfl
  rw [hclause, Option.ite_none_left_eq_some]
  simp only [Bool.or_eq_true, not_or, hprefix, Option.some.injEq, eq_comm (a := text), and_assoc,
    List.isEmpty_iff, Option.isNone_iff_eq_none, ← Option.isSome_iff_ne_none, Bool.not_eq_true', Bool.not_eq_false,
    beq_iff_eq]
  constructor
  · rintro ⟨hne, hreads, hsingle, hatMost, hstar, rfl⟩
    exact ⟨⟨hne, hreads, hsingle, hatMost, hstar⟩, rfl⟩
  · rintro ⟨⟨hne, hreads, hsingle, hatMost, hstar⟩, rfl⟩
    exact ⟨hne, hreads, hsingle, hatMost, hstar, rfl⟩

/-- A clause that is taken is one word, or two with a hyphen between them. -/
theorem Usable.cases {raw : List Char} (h : Usable raw) : IsWord (tidy raw) ∨
    ∃ low high, IsWord low ∧ IsWord high ∧ tidy raw = low ++ ' ' :: '-' :: ' ' :: high := by
  obtain ⟨word, rest, he, hwords⟩ := exists_words_tidy h.ne_nil
  have hsingle := h.single
  rw [he] at hsingle ⊢
  rcases (isSingle_intercalate (by simp) hwords).mp hsingle with ⟨w, hw⟩ | ⟨low, high, hw⟩ <;> rw [hw] at hwords ⊢
  · exact .inl (by simpa using hwords w (by simp))
  · exact .inr ⟨low, high, hwords low (by simp), hwords high (by simp), by simp⟩

/-- A caret that is put in front of a clause goes to its first word. -/
theorem Usable.parts_withCaret {clause : List Char} (h : Usable clause) : withCaret (tidy clause) = tidy clause ∨
    ∃ c first more, c.isDigit = true ∧ Range.parts (tidy clause) = [c :: first] :: more ∧
      Range.parts (withCaret (tidy clause)) = ['^' :: c :: first] :: more := by
  unfold withCaret
  split
  next hbare =>
    rcases h.cases with hword | ⟨low, high, -, -, he⟩
    · obtain ⟨c, cs, he⟩ := List.exists_cons_of_ne_nil h.ne_nil
      rw [he] at hbare hword ⊢
      have hdigit : c.isDigit = true := by simp_all
      obtain ⟨first, more, hparts, hcaret⟩ :=
        Range.parts_cons_cons (show c ≠ '|' by rintro rfl; simp at hdigit) hword
      exact .inr ⟨c, first, more, hdigit, hparts, hcaret '^' (by decide) (by decide)⟩
    · simp [he] at hbare
  next => exact .inl rfl

/-! ## Entries -/

theorem mapM_clause?_eq_some {clauses texts : List (List Char)} : clauses.mapM clause? = some texts ↔
    (∀ clause ∈ clauses, Usable clause) ∧ texts = clauses.map fun clause => withCaret (tidy clause) :=
  mapM_eq_some_map fun _ _ => clause?_eq_some

theorem read?_of_usable {raw : List Char} (h : ∀ clause ∈ List.splitOn ',' raw, Usable clause) :
    read? raw = Range.read? (List.intercalate [' ', '|', '|', ' ']
      ((List.splitOn ',' raw).map fun clause => withCaret (tidy clause))) := by
  rw [read?, mapM_clause?_eq_some.mpr ⟨h, rfl⟩]
  rfl

/-- An entry means the alternatives of all its clauses, one after the other. -/
theorem read?_eq_some {raw : List Char} {r : Range} : read? raw = some r ↔
    (∀ clause ∈ List.splitOn ',' raw, Usable clause) ∧
    List.Forall₂ (fun ws alternative => Range.readWords? ws = some alternative)
      ((List.splitOn ',' raw).flatMap fun clause => Range.parts (withCaret (tidy clause))) r.alternatives := by
  have hne : (List.splitOn ',' raw).map (fun clause => withCaret (tidy clause)) ≠ [] :=
    fun h => List.splitOn_ne_nil _ raw (List.map_eq_nil_iff.mp h)
  simp only [read?, Option.bind_eq_bind, Option.bind_eq_some_iff, mapM_clause?_eq_some, and_assoc, exists_and_left,
    exists_eq_left]
  rw [Range.read?_eq_some_parts, Range.parts_intercalate hne, List.flatMap_map]

end VersionPick.CompatEntry
