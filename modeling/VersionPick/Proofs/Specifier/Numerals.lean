/-
The numerals of specifiers. Users may write more of them than a range or a
release takes: leading zeros, and numbers that no word holds. An accepted
specifier is read by whoever resolves it exactly if its numerals are those of
words; else nothing resolves it, whatever is listed (`listOfInput_readable`).
-/
import VersionPick.Proofs.Range.Reading
import VersionPick.Resolve
import VersionPick.Specifier.Input

namespace VersionPick

open Text

namespace Specifier

/-! ## Dotted numerals as versions -/

theorem isDottedNumerals_iff {cs : List Char} : isDottedNumerals cs = true ↔
    (List.splitOn '.' cs).length ≤ 3 ∧ ∀ numeral ∈ List.splitOn '.' cs, Decimal.isNumeral numeral = true := by
  simp [isDottedNumerals]

section DottedNumerals

variable {cs : List Char} (h : isDottedNumerals cs = true)
include h

theorem digit_or_dot_of_mem {c : Char} (hc : c ∈ cs) : c.isDigit = true ∨ c = '.' := by
  rcases mem_splitOn '.' hc with hc | ⟨numeral, hn, hc⟩
  · exact .inr hc
  · have hnumeral := (isDottedNumerals_iff.mp h).2 numeral hn
    exact .inl ((Decimal.isNumeral_iff.mp hnumeral).2 c hc)

theorem not_mem_dottedNumerals {c : Char} (hdigit : c.isDigit = false) (hdot : c ≠ '.') : c ∉ cs :=
  Partial.not_mem_of_digit_or_dot (fun _ => digit_or_dot_of_mem h) hdigit hdot

theorem dottedNumerals_ne_nil : cs ≠ [] := by
  rintro rfl
  exact absurd h (by decide)

theorem not_isBlank_of_mem {c : Char} (hc : c ∈ cs) : isBlank c = false := by
  refine Partial.not_isBlank_of_isPartialChar (Partial.isPartialChar_of_identifier ?_)
  rcases digit_or_dot_of_mem h hc with hc | hc
  · exact .inl (by simp [Version.isIdentifierChar, Char.isAlphanum, hc])
  · exact .inr hc

theorem not_isSignChar_of_mem {c : Char} (hc : c ∈ cs) : Range.isSignChar c = false := by
  rw [Bool.eq_false_iff]
  intro hs
  rcases Range.isSignChar_cases hs with rfl | rfl | rfl | rfl | rfl <;>
    exact not_mem_dottedNumerals h (by decide) (by decide) hc

theorem bare_dottedNumerals : Partial.bare cs = cs := by
  obtain ⟨lead, he, hlead⟩ := Partial.exists_lead cs
  cases lead with
  | nil => exact he.symm
  | cons c lead =>
    have hc : c ∈ cs := he ▸ by simp
    rcases hlead c (by simp) with rfl | rfl
    · exact absurd hc (not_mem_dottedNumerals h (by decide) (by decide))
    · exact absurd hc (not_mem_dottedNumerals h (by decide) (by decide))

theorem cut_dottedNumerals {sign : Char} (hdigit : sign.isDigit = false) (hdot : sign ≠ '.') :
    Partial.cut sign cs = (cs, none) :=
  Partial.cut_eq.mpr ⟨by simp [Partial.optional], not_mem_dottedNumerals h hdigit hdot⟩

/-- Dotted numerals are read as a version exactly if each is the numeral of a
word. -/
theorem exists_read?_iff : (∃ p, Partial.read? cs = some p) ↔
    ∀ numeral ∈ List.splitOn '.' cs, Decimal.isPlain numeral = true ∧ Decimal.value numeral < UInt64.size := by
  obtain ⟨hlength, hnumerals⟩ := isDottedNumerals_iff.mp h
  have hplus : Partial.cut '+' (Partial.bare cs) = (cs, none) := by
    rw [bare_dottedNumerals h, cut_dottedNumerals h (by decide) (by decide)]
  have hhyphen : Partial.cut '-' cs = (cs, none) := cut_dottedNumerals h (by decide) (by decide)
  have hnumber : ∀ numeral ∈ List.splitOn '.' cs, (∃ n, Partial.number? numeral = some n) ↔
      Decimal.isPlain numeral = true ∧ Decimal.value numeral < UInt64.size := by
    intro numeral hn
    rw [Partial.number?_numeral (hnumerals numeral hn), ← Decimal.exists_word?_iff]
    simp
  rw [← forall₂_congr hnumber, ← exists_forall₂]
  constructor
  · rintro ⟨p, hp⟩
    obtain ⟨numbers, -, hn, -⟩ := (Partial.read?_of_cut hplus hhyphen).mp hp
    exact ⟨numbers, hn⟩
  · rintro ⟨numbers, hn⟩
    have hle : numbers.length ≤ 3 := hn.length_eq ▸ hlength
    exact ⟨_, (Partial.read?_of_cut hplus hhyphen).mpr
      ⟨numbers, [], hn, by decide, by decide, hle, .inr ⟨rfl, rfl⟩, rfl⟩⟩

end DottedNumerals

/-! ## Accepted texts -/

/-- The numerals of a text that is accepted as one to three of them. -/
def numerals (cs : List Char) : List (List Char) :=
  List.splitOn '.' (withoutSign cs)

theorem exists_sign (cs : List Char) : ∃ sign op, (sign, op) ∈ Range.written ∧ cs = sign ++ withoutSign cs := by
  cases cs with
  | nil => exact ⟨[], _, List.mem_cons_self, rfl⟩
  | cons c cs =>
    by_cases hcaret : c = '^'
    · exact ⟨['^'], .caret, by decide, by simp [withoutSign, hcaret]⟩
    by_cases htilde : c = '~'
    · exact ⟨['~'], .tilde, by decide, by simp [withoutSign, htilde]⟩
    · exact ⟨[], _, List.mem_cons_self, by simp [withoutSign, hcaret, htilde]⟩

theorem not_isBlank_of_isNumericSpecifier {cs : List Char} (h : isNumericSpecifier cs = true) {c : Char} (hc : c ∈ cs) :
    isBlank c = false := by
  obtain ⟨sign, op, hsign, he⟩ := exists_sign cs
  rw [he] at hc
  rcases List.mem_append.mp hc with hc | hc
  · exact Range.isBlank_of_isSignChar (Range.isSignChar_of_written hsign hc)
  · exact not_isBlank_of_mem h hc

/-- A numeric specifier is a range exactly if its numerals are those of words. -/
theorem exists_range_iff {text : String} (h : isNumericSpecifier text.toList = true) :
    (∃ r, Range.parse text = .ok r) ↔ ∀ numeral ∈ numerals text.toList,
      Decimal.isPlain numeral = true ∧ Decimal.value numeral < UInt64.size := by
  obtain ⟨sign, op, hsign, he⟩ := exists_sign text.toList
  have hread := Range.read?_sign_word hsign (dottedNumerals_ne_nil h) (fun _ hc => not_isBlank_of_mem h hc)
    (not_mem_dottedNumerals h (by decide) (by decide))
    (fun _ hc => not_isSignChar_of_mem h (List.mem_of_mem_head? hc))
  rw [← he] at hread
  rw [numerals, ← exists_read?_iff h]
  simp only [Range.parse_eq_ok, hread]
  simp

/-- The release branch of an accepted nightly build is one. -/
theorem isBranch_of_isNumeralPair {cs : List Char} (h : isNumeralPair cs = true) : isBranch cs = true := by
  simp only [isNumeralPair, Bool.and_eq_true, beq_iff_eq, List.all_eq_true] at h
  obtain ⟨hlength, hnumerals⟩ := h
  obtain ⟨major, minor, hparts⟩ := List.length_eq_two.mp hlength
  have hdigits : ∀ numeral ∈ [major, minor], numeral ≠ [] ∧ ∀ c ∈ numeral, isDecimalDigit c = true := by
    intro numeral hn
    obtain ⟨hne, hdigit⟩ := Decimal.isNumeral_iff.mp (hnumerals numeral (hparts ▸ hn))
    exact ⟨hne, fun c hc => by simp [isDecimalDigit, hdigit c hc]⟩
  obtain ⟨hmajor, hmajorDigits⟩ := hdigits major (by simp)
  obtain ⟨hminor, hminorDigits⟩ := hdigits minor (by simp)
  rw [isBranch, hparts]
  simp [hmajor, hminor, List.all_eq_true.mpr hmajorDigits, List.all_eq_true.mpr hminorDigits]

theorem classify_nightly {text : String} (h : isNightlySpecifier text.toList = true) :
    ∃ branch, classify text = .nightly branch := by
  by_cases hnightly : text = "nightly"
  · exact ⟨none, by rw [classify, if_pos hnightly]⟩
  · have hne : text.toList ≠ "nightly".toList := fun he => hnightly (String.toList_inj.mp he)
    rw [isNightlySpecifier, beq_eq_false_iff_ne.mpr hne, Bool.false_or] at h
    split at h
    next branch hbefore =>
      have hbranch : branch? text.toList = some branch := by
        rw [branch?, hbefore, Option.filter_some, if_pos (isBranch_of_isNumeralPair h)]
      exact ⟨some (String.ofList branch), by rw [classify, if_neg hnightly, hbranch]⟩
    next => cases h

theorem classify_alias {text : String} (h : isAliasSpecifier text.toList = true) : ∃ a, classify text = .alias a := by
  simp only [isAliasSpecifier, Bool.or_eq_true, beq_iff_eq, String.toList_inj] at h
  rcases h with (rfl | rfl) | rfl
  · exact ⟨.lts, by decide⟩
  · exact ⟨.min, by decide⟩
  · exact ⟨.manifest, by decide⟩

theorem classify_eq_exact {raw text : String} (h : classify raw = .exact text) :
    text = raw ∧ ∃ release, Release.ofText? (Release.unprefixed raw.toList) = some release := by
  unfold classify at h
  split at h
  · cases h
  split at h
  · cases h
  split at h
  · cases h
  split at h
  next hread =>
    cases h
    exact ⟨rfl, Option.isSome_iff_exists.mp hread⟩
  next => cases h

theorem classify_eq_range {raw text : String} (h : classify raw = .range text) : text = raw := by
  unfold classify at h
  split at h
  · cases h
  split at h
  · cases h
  split at h
  · cases h
  split at h
  · cases h
  · cases h
    rfl

/-- An accepted text is numeric, unless it is a nightly build or an alias. -/
theorem isNumericSpecifier_of_isSpecifier {text : String} (h : isSpecifier text.toList = true)
    (hnightly : ∀ branch, classify text ≠ .nightly branch) (halias : ∀ a, classify text ≠ .alias a) :
    isNumericSpecifier text.toList = true := by
  simp only [isSpecifier, Bool.or_eq_true] at h
  rcases h with (h | h) | h
  · exact h
  · obtain ⟨branch, he⟩ := classify_nightly h
    exact absurd he (hnightly branch)
  · obtain ⟨a, he⟩ := classify_alias h
    exact absurd he (halias a)

theorem exists_of_mem_listOfInput {raw : String} {specifiers : List Specifier} (h : listOfInput raw = .ok specifiers)
    {s : Specifier} (hs : s ∈ specifiers) : ∃ text, isSpecifier text.toList = true ∧ s = classify text := by
  simp only [listOfInput] at h
  split at h
  next => cases h
  next scalars _ =>
    obtain ⟨scalar, -, hscalar⟩ := exists_of_mem_right (mapM_eq_ok.mp h) hs
    unfold ofScalar at hscalar
    split at hscalar
    next haccepted =>
      cases hscalar
      exact ⟨String.ofList scalar, by rwa [String.toList_ofList], rfl⟩
    next => cases hscalar

/-- **What is accepted is read,** but for numerals. An exact version that a
user may write denotes a release. A range that a user may write is one to three
numerals, and a range exactly if these are the numerals of words; if it is
none, it matches nothing whatever is listed. -/
theorem listOfInput_readable {raw : String} {specifiers : List Specifier} (h : listOfInput raw = .ok specifiers) :
    (∀ text, .exact text ∈ specifiers → ∃ release, Release.read? text = some release) ∧
    ∀ text, .range text ∈ specifiers → isNumericSpecifier text.toList = true ∧
      ((∃ r, Range.parse text = .ok r) ↔ ∀ numeral ∈ numerals text.toList,
        Decimal.isPlain numeral = true ∧ Decimal.value numeral < UInt64.size) ∧
      ((¬ ∃ r, Range.parse text = .ok r) → ∀ known : Known, known.resolve (.range text) = .ok none) := by
  refine ⟨fun text hs => ?_, fun text hs => ?_⟩
  · obtain ⟨raw, haccepted, he⟩ := exists_of_mem_listOfInput h hs
    obtain ⟨rfl, release, hread⟩ := classify_eq_exact he.symm
    have hnumeric := isNumericSpecifier_of_isSpecifier haccepted (by simp [← he]) (by simp [← he])
    have htrim : trim text.toList = text.toList :=
      trim_of_no_blank fun _ hc => not_isBlank_of_isNumericSpecifier hnumeric hc
    exact ⟨release, by rw [Release.read?, htrim, hread]⟩
  · obtain ⟨raw, haccepted, he⟩ := exists_of_mem_listOfInput h hs
    obtain rfl := classify_eq_range he.symm
    have hnumeric := isNumericSpecifier_of_isSpecifier haccepted (by simp [← he]) (by simp [← he])
    refine ⟨hnumeric, exists_range_iff hnumeric, fun hnone known => ?_⟩
    cases hread : Range.read? text.toList with
    | none => simp [Known.resolve, hread]
    | some r => exact absurd ⟨r, Range.parse_eq_ok.mpr hread⟩ hnone

/-- A list with a numeral that is no word's among others. -/
theorem listOfInput_readable_list : ∃ specifiers, listOfInput "[01.1, ^1.2, 1.2.3]" = .ok specifiers ∧
    (∀ known : Known, known.resolve (.range "01.1") = .ok none) ∧ (∃ r, Range.parse "^1.2" = .ok r) ∧
    ∃ release, Release.read? "1.2.3" = some release := by
  have hlist : listOfInput "[01.1, ^1.2, 1.2.3]" = .ok [.range "01.1", .range "^1.2", .exact "1.2.3"] := by
    decide +kernel
  have hread := listOfInput_readable hlist
  refine ⟨_, hlist, ?_, ?_, hread.1 "1.2.3" (by simp)⟩
  · refine (hread.2 "01.1" (by simp)).2.2 ?_
    rw [(hread.2 "01.1" (by simp)).2.1]
    decide
  · rw [(hread.2 "^1.2" (by simp)).2.1]
    decide

/-- A numeral with a leading zero, and one that is too large, are accepted and
no ranges. -/
theorem listOfInput_unreadable :
    listOfInput "01.1" = .ok [.range "01.1"] ∧ Range.parse "01.1" = .error ⟨"01.1"⟩ ∧
    listOfInput "18446744073709551616" = .ok [.range "18446744073709551616"] ∧
    Range.parse "18446744073709551616" = .error ⟨"18446744073709551616"⟩ := by
  decide +kernel

end Specifier

end VersionPick
