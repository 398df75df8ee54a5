/-
A list with dashes of which every line is indented alike. The blanks in front of
an input are dropped before it is read, and with them the indentation of its
first line, while the other lines keep theirs. So they are further lines of the
first entry, which then is no specifier: the list is read as it is meant exactly
if it is not indented or has one line only (`listOfInput_indentedList_iff`).
-/
import VersionPick.Proofs.Specifier.Spelling

namespace VersionPick

open Text Yaml

namespace Yaml

/-- A list with dashes of which every line starts with `k` spaces. -/
def indentedList (k : Nat) (texts : List (List Char)) : List Char :=
  List.intercalate ['\n'] (texts.map fun cs => List.replicate k ' ' ++ '-' :: ' ' :: cs)

/-- An entry and the lines behind it. -/
def continued (k : Nat) (first : List Char) (lines : List (List Char)) : List Char :=
  first ++ lines.flatMap (dashLine k)

theorem continued_cons (k : Nat) (first next : List Char) (lines : List (List Char)) :
    continued k first (next :: lines) = (first ++ '\n' :: List.replicate k ' ') ++ '-' :: ' ' :: continued k next lines := by
  simp [continued, dashLine]

theorem indentedList_cons (k : Nat) : ∀ (first : List Char) (lines : List (List Char)),
    indentedList k (first :: lines) = List.replicate k ' ' ++ '-' :: ' ' :: continued k first lines
  | first, [] => by simp [indentedList, continued]
  | first, next :: lines => by
    have ih := indentedList_cons k next lines
    simp only [indentedList, List.map_cons, List.intercalate_cons_cons] at ih ⊢
    rw [ih, continued_cons]
    simp

theorem indentedList_zero (texts : List (List Char)) :
    indentedList 0 texts = dashList (texts.map fun cs => { text := cs }) := by
  have hline : ∀ cs : List Char, Entry.line { text := cs } = '-' :: ' ' :: cs := fun cs => by
    simp [Entry.line, Entry.written, Entry.remark, Style.write]
  simp [indentedList, dashList, Function.comp_def, hline]

theorem trimEnd_continued (k : Nat) : ∀ {first : List Char} {lines : List (List Char)}, Tame first →
    (∀ cs ∈ lines, Tame cs) → ∀ lead, trimEnd (lead ++ continued k first lines) = lead ++ continued k first lines
  | first, [], hfirst, _, lead => by
    rw [continued, List.flatMap_nil, List.append_nil]
    exact trimEnd_append hfirst.ne_nil (fun c hc => not_isBlank_of_isTame (hfirst.chars c hc)) lead
  | first, next :: lines, _, hlines, lead => by
    obtain ⟨hnext, hlines⟩ := List.forall_mem_cons.mp hlines
    have ih := trimEnd_continued k hnext hlines (lead ++ ((first ++ '\n' :: List.replicate k ' ') ++ ['-', ' ']))
    rw [continued_cons]
    simpa using ih

theorem exists_continued (k : Nat) {first : List Char} (h : Tame first) (lines : List (List Char)) :
    ∃ c cs, continued k first lines = c :: cs ∧ isTame c = true := by
  obtain ⟨c, cs, rfl, hc, -⟩ := h.exists_cons
  exact ⟨c, cs ++ lines.flatMap (dashLine k), rfl, hc⟩

section Lines

variable {first : List Char} {lines : List (List Char)} (hfirst : Tame first) (hlines : ∀ cs ∈ lines, Tame cs)
include hfirst hlines

/-- The first line loses its indentation. -/
theorem trim_indentedList (k : Nat) :
    trim (indentedList k (first :: lines)) = '-' :: ' ' :: continued k first lines := by
  have hspaces : ∀ c ∈ List.replicate k ' ', isBlank c = true := by
    intro c hc
    rw [List.eq_of_mem_replicate hc]
    decide
  rw [indentedList_cons, trim_blanks_append hspaces, trim_eq_trimEnd (by decide)]
  exact trimEnd_continued k hfirst hlines ['-', ' ']

/-- Lines that are indented further than the dash in front of them go on with
its entry. -/
theorem readScalars?_continued {k : Nat} (hk : 0 < k) :
    readScalars? ('-' :: ' ' :: continued k first lines) = some [continued k first lines] := by
  obtain ⟨c, cs, hcs, hc⟩ := exists_continued k hfirst lines
  have htrim : trim (continued k first lines) = continued k first lines := by
    have hend := trimEnd_continued k hfirst hlines []
    rw [List.nil_append, hcs] at hend
    rw [hcs, trim_eq_trimEnd (not_isBlank_of_isTame hc), hend]
  obtain ⟨stop, hrest⟩ := plainRest_dashLines hk hk hlines (2 + first.length)
  have hscalar : scalar? false 1 ⟨2, continued k first lines⟩ = some (continued k first lines, ⟨stop, []⟩) := by
    rw [continued, scalar?_of_tame hfirst, plain?_append hfirst hrest, ← continued, htrim]
  rw [hcs] at hscalar ⊢
  have hitems := dashItems?_scalar (not_isSeparator_of_isTame hc) (ne_of_isTame hc (by decide)) (cs.length + 2) hscalar
  exact readScalars?_dash (hitems.trans rfl) rfl

end Lines

end Yaml

namespace Specifier

theorem not_isSpecifier_continued (k : Nat) (first next : List Char) (lines : List (List Char)) :
    isSpecifier (continued k first (next :: lines)) = false := by
  rw [Bool.eq_false_iff]
  intro h
  have htame := (tame_of_isSpecifier h).chars '\n' (by simp [continued_cons])
  exact absurd htame (by decide)

/-- The further lines of an indented list are taken for a part of its first
entry. -/
theorem listOfInput_indentedList_error {k : Nat} (hk : 0 < k) {first next : List Char} {lines : List (List Char)}
    (h : ∀ cs ∈ first :: next :: lines, isSpecifier cs = true) :
    listOfInput (String.ofList (indentedList k (first :: next :: lines))) =
      .error (.notSpecifier (String.ofList (continued k first (next :: lines)))) := by
  obtain ⟨hfirst, hlines⟩ := List.forall_mem_cons.mp h
  have htame : ∀ cs ∈ next :: lines, Tame cs := fun cs hcs => tame_of_isSpecifier (hlines cs hcs)
  have hfirst := tame_of_isSpecifier hfirst
  simp [listOfInput, trim_indentedList hfirst htame, readScalars?_continued hfirst htame hk, ofScalar,
    not_isSpecifier_continued]

/-- Blanks at either end of an input do not matter. -/
theorem listOfInput_congr {raw raw' : String} (h : trim raw.toList = trim raw'.toList) :
    listOfInput raw = listOfInput raw' := by
  simp only [listOfInput, h]

theorem listOfInput_indentedList_zero {texts : List (List Char)} (hne : texts ≠ [])
    (h : ∀ cs ∈ texts, isSpecifier cs = true) : listOfInput (String.ofList (indentedList 0 texts)) =
      .ok (texts.map fun cs => classify (String.ofList cs)) := by
  have hentries : ∀ e ∈ texts.map fun cs => ({ text := cs } : Yaml.Entry), IsEntry e :=
    List.forall_mem_map.mpr fun cs hcs => ⟨h cs hcs, nofun⟩
  have hread := listOfInput_dashList (by simpa using hne) hentries (List.forall_mem_nil fun c => isBlank c = true)
  rw [List.append_nil, ← indentedList_zero] at hread
  rw [hread, spelled, List.map_map]
  rfl

/-- **Indentation changes the meaning of a list.** A list of specifiers whose
lines are all indented alike is read as it is without indentation exactly if it
has none, or one line only. -/
theorem listOfInput_indentedList_iff (k : Nat) {texts : List (List Char)} (hne : texts ≠ [])
    (h : ∀ cs ∈ texts, isSpecifier cs = true) :
    listOfInput (String.ofList (indentedList k texts)) = .ok (texts.map fun cs => classify (String.ofList cs)) ↔
      k = 0 ∨ texts.length = 1 := by
  have hflat := listOfInput_indentedList_zero hne h
  constructor
  · intro hread
    by_contra hneither
    obtain ⟨hk, hlength⟩ := not_or.mp hneither
    obtain ⟨first, lines, rfl⟩ := List.exists_cons_of_ne_nil hne
    cases lines with
    | nil => exact hlength rfl
    | cons next lines =>
      rw [listOfInput_indentedList_error (Nat.pos_of_ne_zero hk) h] at hread
      cases hread
  · rintro (rfl | hlength)
    · exact hflat
    · obtain ⟨first, rfl⟩ := List.length_eq_one_iff.mp hlength
      have hfirst : Tame first := tame_of_isSpecifier (h first List.mem_cons_self)
      rw [← hflat]
      refine listOfInput_congr ?_
      rw [String.toList_ofList, String.toList_ofList, trim_indentedList hfirst (List.forall_mem_nil _),
        trim_indentedList hfirst (List.forall_mem_nil _), continued, continued, List.flatMap_nil, List.flatMap_nil]

/-- One line, indented. -/
theorem listOfInput_indented_one : listOfInput "   - ^1.2" = .ok [.range "^1.2"] :=
  (listOfInput_indentedList_iff 3 (List.cons_ne_nil "^1.2".toList []) (by simp; decide)).mpr (.inr rfl)

/-- Two indented lines are one entry, which is no specifier. -/
theorem listOfInput_indented_two : listOfInput "  - 1\n  - 2" = .error (.notSpecifier "1\n  - 2") ∧
    listOfInput "- 1\n- 2" = .ok [.range "1", .range "2"] := by
  decide +kernel

end Specifier

end VersionPick
