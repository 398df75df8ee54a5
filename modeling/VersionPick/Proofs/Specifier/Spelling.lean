/-
However a list of specifiers is written, the same list is read: with dashes
and comments or between brackets, and each specifier plain or between quotes of
either kind (`listOfInput_spellings`). No specifier has a character that means
anything to YAML, which is all that this needs (`tame_of_isSpecifier`), and
classifying a text loses nothing of it (`text_classify`).
-/
import VersionPick.Proofs.Specifier.Numerals
import VersionPick.Proofs.Yaml.ScalarList

namespace VersionPick.Specifier

open Text Yaml

/-! ## Specifiers as scalars -/

theorem mem_digits_of_isDigit {c : Char} (h : c.isDigit = true) : c ∈ "0123456789".toList := by
  have hdigits : ∀ n < 10, Nat.digitChar n ∈ "0123456789".toList := by decide
  have hrange := Decimal.digit_toNat h
  rw [← Decimal.digitChar_sub h]
  exact hdigits _ (by omega)

theorem isTame_of_isDigit {c : Char} (h : c.isDigit = true) :
    isTame c = true ∧ isIndicator c = false ∧ isMarkerSign c = false := by
  have hdigits : "0123456789".toList.all (fun d => isTame d && !isIndicator d && !isMarkerSign d) = true := by decide
  simpa [and_assoc] using List.all_eq_true.mp hdigits c (mem_digits_of_isDigit h)

/-- Dotted numerals start with a digit. -/
theorem exists_digit_cons {cs : List Char} (h : isDottedNumerals cs = true) :
    ∃ c rest, cs = c :: rest ∧ c.isDigit = true := by
  cases cs with
  | nil => exact absurd h (by decide)
  | cons c rest =>
    rcases digit_or_dot_of_mem h List.mem_cons_self with hc | rfl
    · exact ⟨c, rest, rfl, hc⟩
    · -- a dot in front has the empty numeral before it
      have hnil : Decimal.isNumeral [] = true := (isDottedNumerals_iff.mp h).2 []
        (by simp [List.splitOn_cons_eq_if_modifyHead])
      cases hnil

theorem tame_dottedNumerals {cs tail : List Char} (h : isDottedNumerals cs = true)
    (htail : ∀ c ∈ tail, isTame c = true) :
    Tame (cs ++ tail) := by
  obtain ⟨d, rest, hcs, hd⟩ := exists_digit_cons h
  refine ⟨by simp [hcs], fun c hc => ?_, fun c hc => ?_⟩
  · rcases List.mem_append.mp hc with hc | hc
    · rcases digit_or_dot_of_mem h hc with hc | rfl
      · exact (isTame_of_isDigit hc).1
      · decide
    · exact htail c hc
  · obtain rfl : d = c := by simpa [hcs] using hc
    exact (isTame_of_isDigit hd).2

theorem tame_cons {c : Char} {cs : List Char} (hc : isTame c = true)
    (hstart : isIndicator c = false ∧ isMarkerSign c = false)
    (h : Tame cs) : Tame (c :: cs) :=
  ⟨List.cons_ne_nil c cs, List.forall_mem_cons.mpr ⟨hc, h.chars⟩, fun _ hd => Option.some.inj hd ▸ hstart⟩

theorem tame_of_isNumericSpecifier {cs : List Char} (h : isNumericSpecifier cs = true) : Tame cs := by
  have htame : Tame (withoutSign cs) := by
    simpa using tame_dottedNumerals h (List.forall_mem_nil fun c => isTame c = true)
  cases cs with
  | nil => exact htame
  | cons c cs =>
    by_cases hcaret : c = '^'
    · subst hcaret
      exact tame_cons (by decide) (by decide) htame
    by_cases htilde : c = '~'
    · subst htilde
      exact tame_cons (by decide) (by decide) htame
    · simpa [withoutSign, hcaret, htilde] using htame

theorem isDottedNumerals_of_isNumeralPair {cs : List Char} (h : isNumeralPair cs = true) :
    isDottedNumerals cs = true := by
  simp only [isNumeralPair, Bool.and_eq_true, beq_iff_eq, List.all_eq_true] at h
  exact isDottedNumerals_iff.mpr ⟨by omega, h.2⟩

/-- No specifier has a character that means anything to YAML. -/
theorem tame_of_isSpecifier {cs : List Char} (h : isSpecifier cs = true) : Tame cs := by
  simp only [isSpecifier, Bool.or_eq_true] at h
  rcases h with (hnumeric | hnightly) | halias
  · exact tame_of_isNumericSpecifier hnumeric
  · simp only [isNightlySpecifier, Bool.or_eq_true, beq_iff_eq] at hnightly
    rcases hnightly with rfl | hbranch
    · decide
    · split at hbranch
      next branch hbefore =>
        rw [← List.append_eq_of_isSuffixOf?_eq_some hbefore]
        exact tame_dottedNumerals (isDottedNumerals_of_isNumeralPair hbranch) (List.all_eq_true.mp (by decide))
      next => cases hbranch
  · simp only [isAliasSpecifier, Bool.or_eq_true, beq_iff_eq] at halias
    rcases halias with (rfl | rfl) | rfl <;> decide

/-! ## Classes keep their texts -/

theorem text_classify (raw : String) : (classify raw).text = raw := by
  unfold classify
  split
  next hnightly => exact hnightly.symm
  split
  next branch hbranch =>
    obtain ⟨hbefore, -⟩ := Option.filter_eq_some_iff.mp hbranch
    rw [text, ← String.toList_inj, String.toList_append, String.toList_ofList,
      ← List.append_eq_of_isSuffixOf?_eq_some hbefore]
  split
  next a halias =>
    have hkey := List.find?_some halias
    exact beq_iff_eq.mp hkey
  split
  · rfl
  · rfl

/-! ## Inputs -/

theorem listOfInput_of_scalars {raw : String} {scalars : List (List Char)}
    (hread : readScalars? (trim raw.toList) = some scalars) (h : ∀ cs ∈ scalars, isSpecifier cs = true) :
    listOfInput raw = .ok (scalars.map fun cs => classify (String.ofList cs)) := by
  simp only [listOfInput, hread]
  refine mapM_eq_ok.mpr (List.forall₂_map_right_iff.mpr (List.forall₂_same.mpr fun cs hcs => ?_))
  rw [ofScalar, if_pos (h cs hcs)]

/-- An entry that is a specifier. -/
structure IsEntry (e : Yaml.Entry) : Prop where
  text : isSpecifier e.text = true
  comment : ∀ comment ∈ e.comment, IsComment comment

theorem IsEntry.readable {e : Yaml.Entry} (h : IsEntry e) : e.Readable :=
  ⟨tame_of_isSpecifier h.text, h.comment⟩

/-- The specifiers that entries spell. -/
def spelled (entries : List Yaml.Entry) : List Specifier :=
  entries.map fun e => classify (String.ofList e.text)

theorem listOfInput_of_texts {raw : String} {entries : List Yaml.Entry}
    (hread : readScalars? (trim raw.toList) = some (entries.map Entry.text)) (h : ∀ e ∈ entries, IsEntry e) :
    listOfInput raw = .ok (spelled entries) := by
  rw [listOfInput_of_scalars hread (List.forall_mem_map.mpr fun e he => (h e he).text), spelled, List.map_map]
  rfl

section Spellings

variable {entries : List Yaml.Entry} (hne : entries ≠ []) (h : ∀ e ∈ entries, IsEntry e)
  {before behind : List Char} (hbefore : ∀ c ∈ before, isBlank c = true) (hbehind : ∀ c ∈ behind, isBlank c = true)

include hne h hbehind in
theorem listOfInput_dashList : listOfInput (String.ofList (dashList entries ++ behind)) = .ok (spelled entries) := by
  obtain ⟨entries', h', htexts, htrim⟩ := exists_trimEnd_dashList hbehind fun e he => (h e he).readable
  obtain ⟨rest, hrest⟩ := exists_dashList hne
  refine listOfInput_of_texts ?_ h
  have hne' : entries' ≠ [] := by
    rintro rfl
    exact hne (List.map_eq_nil_iff.mp htexts.symm)
  rw [String.toList_ofList, ← htexts, ← readScalars?_dashList hne' h', ← htrim, hrest, List.cons_append,
    trim_eq_trimEnd (by decide)]

include hne h hbefore hbehind in
theorem listOfInput_flowList :
    listOfInput (String.ofList (before ++ flowList entries ++ behind)) = .ok (spelled entries) := by
  have htrim : trim (flowList entries) = flowList entries := by
    rw [flowList, trim_cons (by decide), trimEnd_append_cons (by decide)]
    rfl
  refine listOfInput_of_texts ?_ h
  rw [String.toList_ofList, trim_pad hbefore hbehind, htrim, readScalars?_flowList hne fun e he => (h e he).readable]

include hbefore hbehind in
theorem listOfInput_written {e : Yaml.Entry} (h : IsEntry e) :
    listOfInput (String.ofList (before ++ e.written ++ behind)) = .ok (spelled [e]) := by
  have htrim : trim e.written = e.written :=
    trim_of_no_blank fun _ hc => not_isBlank_of_mem_write h.readable.text e.style hc
  refine listOfInput_of_texts ?_ (by simpa using h)
  rw [String.toList_ofList, trim_pad hbefore hbehind, htrim]
  exact readScalars?_write e.style h.readable.text

end Spellings

/-- **All spellings of a list of specifiers are read alike.** Written with
dashes, each line with a comment or without, or between brackets, or alone, and
each specifier plain or between quotes, the specifiers are those of the texts,
in their order, and have kept every character of them. Blanks at the end do not
matter, and around brackets and a lone specifier none do. -/
theorem listOfInput_spellings (entries : List Yaml.Entry) (hne : entries ≠ []) (h : ∀ e ∈ entries, IsEntry e)
    (before behind : List Char) (hbefore : ∀ c ∈ before, isBlank c = true) (hbehind : ∀ c ∈ behind, isBlank c = true) :
    listOfInput (String.ofList (dashList entries ++ behind)) = .ok (spelled entries) ∧
    listOfInput (String.ofList (before ++ flowList entries ++ behind)) = .ok (spelled entries) ∧
    (∀ e, entries = [e] → listOfInput (String.ofList (before ++ e.written ++ behind)) = .ok (spelled entries)) ∧
    (spelled entries).map text = entries.map fun e => String.ofList e.text := by
  refine ⟨listOfInput_dashList hne h hbehind, listOfInput_flowList hne h hbefore hbehind, ?_, ?_⟩
  · rintro e rfl
    exact listOfInput_written hbefore hbehind (h e List.mem_cons_self)
  · simp [spelled, text_classify]

/-- Three specifiers, each in a style of its own. -/
theorem listOfInput_spellings_three :
    listOfInput "- 01.10\n- '~1' # any patch\n- \"1.12-nightly\"\n" =
      .ok [.range "01.10", .range "~1", .nightly (some "1.12")] ∧
    listOfInput "\t[01.10, '~1', \"1.12-nightly\"]\n" =
      .ok [.range "01.10", .range "~1", .nightly (some "1.12")] := by
  have hentries : ∀ e ∈ [⟨"01.10".toList, .plain, none⟩, ⟨"~1".toList, .single, some " any patch".toList⟩,
      ⟨"1.12-nightly".toList, .double, none⟩], IsEntry e := by
    simp only [List.forall_mem_cons, List.not_mem_nil]
    refine ⟨⟨by decide, nofun⟩, ⟨by decide, ?_⟩, ⟨by decide, nofun⟩, nofun⟩
    rintro _ ⟨⟩
    decide
  obtain ⟨hdash, hflow, -⟩ :=
    listOfInput_spellings _ (by simp) hentries ['\t'] ['\n'] (by simp; decide) (by simp; decide)
  exact ⟨hdash, hflow⟩

end VersionPick.Specifier
