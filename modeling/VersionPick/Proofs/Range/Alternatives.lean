/-
The alternatives of a range text, each as its words (`parts`). A range is read
from them one by one, so texts put together with bars between them are read as
the alternatives of all of them (`parts_intercalate`).

`Single` says what an alternative of one comparator or one hyphen range means,
`Unlimited` which of these admit every release: those without any number.
-/
import VersionPick.Proofs.Range.Reading

namespace VersionPick

open Text

namespace Range

/-- The alternatives of a text, each as its words. -/
def parts (cs : List Char) : List (List (List Char)) :=
  (splitOnPair '|' cs).map words

theorem parts_ne_nil (cs : List Char) : parts cs ≠ [] := by
  simp [parts, splitOnPair_ne_nil]

theorem read?_eq_some_parts {cs : List Char} {r : Range} : read? cs = some r ↔
    List.Forall₂ (fun ws alternative => readWords? ws = some alternative) (parts cs) r.alternatives := by
  rw [read?_eq_some, parts, List.forall₂_map_left_iff]

theorem parts_of_no_bar {cs : List Char} (h : '|' ∉ cs) : parts cs = [words cs] := by
  rw [parts, splitOnPair_of_not_mem h, List.map_singleton]

/-- Texts with bars between them have the alternatives of all of them. -/
theorem parts_intercalate : ∀ {texts : List (List Char)}, texts ≠ [] →
    parts (List.intercalate [' ', '|', '|', ' '] texts) = texts.flatMap parts
  | [], h => absurd rfl h
  | [text], _ => by simp
  | text :: next :: texts, _ => by
    have ih : parts (List.intercalate [' ', '|', '|', ' '] (next :: texts)) = (next :: texts).flatMap parts :=
      parts_intercalate (by simp)
    have hcut := words_splitOnPair_append (show ' ' ≠ '|' by decide) (by decide) text
      (List.intercalate [' ', '|', '|', ' '] (next :: texts))
    rw [List.flatMap_cons, ← ih, List.intercalate_cons_cons]
    simpa [parts] using hcut

/-- Texts with bars between them are the alternatives of all their ranges. -/
theorem read?_intercalate_ranges {texts : List (List Char)} {ranges : List Range} (hne : texts ≠ [])
    (h : List.Forall₂ (fun text r => read? text = some r) texts ranges) :
    read? (List.intercalate [' ', '|', '|', ' '] texts) = some ⟨ranges.flatMap Range.alternatives⟩ := by
  rw [read?_eq_some_parts, parts_intercalate hne]
  clear hne
  induction h with
  | nil => exact .nil
  | cons hread _ ih => exact List.rel_append (read?_eq_some_parts.mp hread) ih

/-- Texts of one alternative each are, with bars between them, the range of
these alternatives. -/
theorem read?_intercalate {texts : List (List Char)} {alternatives : List Alternative} (hne : texts ≠ [])
    (h : List.Forall₂ (fun text alternative => read? text = some ⟨[alternative]⟩) texts alternatives) :
    read? (List.intercalate [' ', '|', '|', ' '] texts) = some ⟨alternatives⟩ := by
  have hranges : List.Forall₂ (fun text r => read? text = some r) texts (alternatives.map fun a => ⟨[a]⟩) :=
    List.forall₂_map_right_iff.mpr h
  rw [read?_intercalate_ranges hne hranges, List.flatMap_map, List.flatMap_singleton']

/-- What is put in front of a text without blanks stands in front of the first
word of its first alternative. -/
theorem parts_cons_cons {c : Char} {cs : List Char} (hc : c ≠ '|') (h : IsWord (c :: cs)) :
    ∃ first more, parts (c :: cs) = [c :: first] :: more ∧
      ∀ sign : Char, sign ≠ '|' → isBlank sign = false → parts (sign :: c :: cs) = [sign :: c :: first] :: more := by
  obtain ⟨first, more, hcs⟩ := List.exists_cons_of_ne_nil (splitOnPair_ne_nil '|' cs)
  have hfirst : ∀ d ∈ c :: first, isBlank d = false := by
    intro d hd
    rcases List.mem_cons.mp hd with rfl | hd
    · exact h.2 d (by simp)
    · exact h.2 d (List.mem_cons_of_mem c (mem_of_mem_splitOnPair (hcs ▸ List.mem_cons_self) d hd))
  refine ⟨first, more.map words, ?_, fun sign hs hb => ?_⟩
  · rw [parts, splitOnPair_cons hc, hcs, List.modifyHead_cons, List.map_cons, words_of_no_blank (by simp) hfirst]
  · have hsign : ∀ d ∈ sign :: c :: first, isBlank d = false := List.forall_mem_cons.mpr ⟨hb, hfirst⟩
    rw [parts, splitOnPair_cons hs, splitOnPair_cons hc, hcs, List.modifyHead_cons, List.modifyHead_cons, List.map_cons,
      words_of_no_blank (by simp) hsign]

/-! ## Single comparators and hyphen ranges -/

/-- The words are one comparator or one hyphen range, and mean the alternative. -/
inductive Single : List (List Char) → Alternative → Prop
  | comparator {word : List Char} {alternative : Alternative} :
    readComparator? word = some alternative → Single [word] alternative
  | hyphen {low high : List Char} {p q : Partial} :
    Partial.read? low = some p → Partial.read? high = some q → Single [low, ['-'], high] (p.upTo q)

theorem Single.bar_not_mem {ws : List (List Char)} {alternative : Alternative} (h : Single ws alternative) :
    ∀ word ∈ ws, '|' ∉ word := by
  cases h with
  | comparator h =>
    intro word hw hc
    rw [List.mem_singleton.mp hw] at hc
    exact absurd (char_of_readComparator? h hc) (by decide)
  | hyphen hp hq =>
    intro word hw
    simp only [List.mem_cons, List.not_mem_nil, or_false] at hw
    rcases hw with rfl | rfl | rfl
    · exact bar_not_mem_of_read? hp
    · decide
    · exact bar_not_mem_of_read? hq

theorem single_of_readWords?_word {word : List Char} {alternative : Alternative} (hne : word ≠ [])
    (h : readWords? [word] = some alternative) : Single [word] alternative :=
  .comparator (readWords?_single hne ▸ h)

theorem single_of_readWords?_hyphen {low high : List Char} {alternative : Alternative}
    (h : readWords? [low, ['-'], high] = some alternative) : Single [low, ['-'], high] alternative := by
  simp only [readWords?, Option.bind_eq_bind, Option.bind_eq_some_iff, Option.some.injEq] at h
  obtain ⟨p, hp, q, hq, rfl⟩ := h
  exact .hyphen hp hq

theorem single_of_no_blank {piece : List Char} (h : ∀ c ∈ piece, isBlank c = false) {alternative : Alternative}
    (hread : readWords? (words piece) = some alternative) : words piece = [] ∨ Single (words piece) alternative := by
  rcases words_eq_of_no_blank h with he | ⟨hw, he⟩
  · exact .inl he
  · rw [he] at hread ⊢
    exact .inr (single_of_readWords?_word hw.1 hread)

/-- The alternatives of a text without blanks are empty or single. -/
theorem single_of_mem_parts {text : List Char} (h : ∀ c ∈ text, isBlank c = false) {ws : List (List Char)}
    (hws : ws ∈ parts text) {alternative : Alternative} (hread : readWords? ws = some alternative) :
    ws = [] ∨ Single ws alternative := by
  obtain ⟨piece, hp, rfl⟩ := List.mem_map.mp hws
  exact single_of_no_blank (fun c hc => h c (mem_of_mem_splitOnPair hp c hc)) hread

theorem single_of_hyphen {low high : List Char} (hl : ∀ c ∈ low, isBlank c = false)
    (hh : ∀ c ∈ high, isBlank c = false) {alternative : Alternative}
    (hread : readWords? (words low ++ ['-'] :: words high) = some alternative) :
    Single (words low ++ ['-'] :: words high) alternative := by
  have halone := readWords?_hyphen_alone (length_words_of_no_blank hl) (length_words_of_no_blank hh)
  rcases words_eq_of_no_blank hl with hlow | ⟨-, hlow⟩
  · simp [halone (.inl hlow)] at hread
  rcases words_eq_of_no_blank hh with hhigh | ⟨-, hhigh⟩
  · simp [halone (.inr hhigh)] at hread
  rw [hlow, hhigh] at hread ⊢
  exact single_of_readWords?_hyphen hread

/-- The alternatives of a hyphen range are empty or single: the bars in it go
with the words on the sides of the hyphen. -/
theorem single_of_mem_parts_hyphen {low high : List Char} (hl : ∀ c ∈ low, isBlank c = false)
    (hh : ∀ c ∈ high, isBlank c = false) {ws : List (List Char)}
    (hws : ws ∈ parts (low ++ ' ' :: '-' :: ' ' :: high)) {alternative : Alternative}
    (hread : readWords? ws = some alternative) : ws = [] ∨ Single ws alternative := by
  obtain ⟨front, last, hlow, hrest⟩ := splitOnPair_append (show ' ' ≠ '|' by decide) low
  obtain ⟨first, more, hhigh⟩ := List.exists_cons_of_ne_nil (splitOnPair_ne_nil '|' high)
  have hbehind : splitOnPair '|' ('-' :: ' ' :: high) = ('-' :: ' ' :: first) :: more := by
    rw [splitOnPair_cons (by decide), splitOnPair_cons (by decide), hhigh]
    rfl
  have hlowPiece {piece : List Char} (hp : piece ∈ front ++ [last]) : ∀ c ∈ piece, isBlank c = false :=
    fun c hc => hl c (mem_of_mem_splitOnPair (hlow ▸ hp) c hc)
  have hhighPiece {piece : List Char} (hp : piece ∈ first :: more) : ∀ c ∈ piece, isBlank c = false :=
    fun c hc => hh c (mem_of_mem_splitOnPair (hhigh ▸ hp) c hc)
  rw [parts, hrest _ _ _ hbehind] at hws
  obtain ⟨piece, hp, rfl⟩ := List.mem_map.mp hws
  simp only [List.mem_append, List.mem_cons] at hp
  rcases hp with hp | rfl | hp
  · exact single_of_no_blank (hlowPiece (by simp [hp])) hread
  · rw [words_hyphen] at hread ⊢
    exact .inr (single_of_hyphen (hlowPiece (by simp)) (hhighPiece (by simp)) hread)
  · exact single_of_no_blank (hhighPiece (by simp [hp])) hread

/-! ## Alternatives without a limit -/

end Range

namespace Partial

variable {p q : Partial}

theorem within_eq_nil : p.within = [] ↔ p = .any := by
  cases p <;> simp [within, between]

theorem atLeast_eq_nil : p.atLeast = [] ↔ p = .any := by
  cases p <;> simp [atLeast]

theorem atMost_eq_nil : p.atMost = [] ↔ p = .any := by
  cases p <;> simp [atMost]

theorem above_ne_nil : p.above ≠ [] := by
  cases p <;> simp [above]

theorem below_ne_nil : p.below ≠ [] := by
  cases p <;> simp [below]

theorem tilde_eq_nil : p.tilde = [] ↔ p = .any := by
  cases p with
  | full v => simp [tilde, between]
  | _ => simp [tilde, within_eq_nil]

theorem caret_eq_nil : p.caret = [] ↔ p = .any := by
  cases p with
  | any => simp [caret]
  | major a => simp [caret, between]
  | minor a b =>
    simp only [caret, between]
    split <;> simp
  | full v =>
    simp only [caret, between]
    split
    · simp
    · split <;> simp

theorem upTo_eq_nil : p.upTo q = [] ↔ p = .any ∧ q = .any := by
  rw [upTo, List.append_eq_nil_iff, atLeast_eq_nil, atMost_eq_nil]

end Partial

/-- An operator makes no comparator of a version without numbers, unless it
asks for more or for less than that. -/
theorem Operator.apply_eq_nil {p : Partial} : ∀ {op : Operator},
    op.apply p = [] ↔ p = .any ∧ op ≠ .compare .gt ∧ op ≠ .compare .lt
  | .compare .eq => by simp [apply, Partial.within_eq_nil]
  | .compare .gt => by simp [apply, Partial.above_ne_nil]
  | .compare .ge => by simp [apply, Partial.atLeast_eq_nil]
  | .compare .lt => by simp [apply, Partial.below_ne_nil]
  | .compare .le => by simp [apply, Partial.atMost_eq_nil]
  | .tilde => by simp [apply, Partial.tilde_eq_nil]
  | .caret => by simp [apply, Partial.caret_eq_nil]

namespace Range

/-- The words of an alternative that ask for nothing: none at all, or a
comparator or a hyphen range of versions without numbers. -/
inductive Unlimited : List (List Char) → Prop
  | blank : Unlimited []
  | comparator {word : List Char} : Partial.read? (splitSign word).2 = some .any →
    (splitSign word).1 ≠ .compare .gt → (splitSign word).1 ≠ .compare .lt → Unlimited [word]
  | hyphen {low high : List Char} : Partial.read? low = some .any → Partial.read? high = some .any →
    Unlimited [low, ['-'], high]

theorem unlimited_word {word : List Char} : Unlimited [word] ↔ Partial.read? (splitSign word).2 = some .any ∧
    (splitSign word).1 ≠ .compare .gt ∧ (splitSign word).1 ≠ .compare .lt :=
  ⟨fun (.comparator hread hgt hlt) => ⟨hread, hgt, hlt⟩, fun ⟨hread, hgt, hlt⟩ => .comparator hread hgt hlt⟩

theorem not_isSignChar_of_isDigit {c : Char} (h : c.isDigit = true) : isSignChar c = false := by
  rw [Bool.eq_false_iff]
  intro hs
  rcases isSignChar_cases hs with rfl | rfl | rfl | rfl | rfl <;> simp at h

/-- A caret makes no difference to whether a version has a limit. -/
theorem unlimited_caret {c : Char} {rest : List Char} (hc : isSignChar c = false) :
    Unlimited [['^'] ++ c :: rest] ↔ Unlimited [c :: rest] := by
  have hhead : ∀ d ∈ (c :: rest).head?, isSignChar d = false := fun d hd => by simp_all
  have hcaret := splitSign_append (show (['^'], .caret) ∈ written by decide) hhead
  have hbare := splitSign_append (show ([], .compare .eq) ∈ written by decide) hhead
  rw [unlimited_word, unlimited_word, hcaret, ← List.nil_append (c :: rest), hbare]
  simp

/-- A caret in front of a version without sign leaves it a comparator. -/
theorem exists_readWords?_caret {c : Char} {rest : List Char} (hc : isSignChar c = false) {alternative : Alternative}
    (h : readWords? [c :: rest] = some alternative) : ∃ caret, readWords? ['^' :: c :: rest] = some caret := by
  have hhead : ∀ d ∈ (c :: rest).head?, isSignChar d = false := by simpa using hc
  have hbare : splitSign (c :: rest) = (.compare .eq, c :: rest) :=
    splitSign_append (show ([], .compare .eq) ∈ written by decide) hhead
  have hcaret : splitSign ('^' :: c :: rest) = (.caret, c :: rest) :=
    splitSign_append (show (['^'], .caret) ∈ written by decide) hhead
  rw [readWords?_single (by simp)] at h
  obtain ⟨p, hp, -⟩ := readComparator?_eq_some h
  rw [hbare] at hp
  exact ⟨p.caret, by simp [readWords?_single, readComparator?, hcaret, hp, Operator.apply]⟩

theorem Single.eq_nil_iff {ws : List (List Char)} {alternative : Alternative} (h : Single ws alternative) :
    alternative = [] ↔ Unlimited ws := by
  cases h with
  | @comparator word alternative hread =>
    obtain ⟨p, hp, rfl⟩ := readComparator?_eq_some hread
    rw [Operator.apply_eq_nil, unlimited_word, hp, Option.some.injEq]
  | hyphen hp hq =>
    rw [Partial.upTo_eq_nil]
    constructor
    · rintro ⟨rfl, rfl⟩
      exact .hyphen hp hq
    · rintro (_ | _ | ⟨hp', hq'⟩)
      exact ⟨Option.some.inj (hp.symm.trans hp'), Option.some.inj (hq.symm.trans hq')⟩

end Range

end VersionPick
