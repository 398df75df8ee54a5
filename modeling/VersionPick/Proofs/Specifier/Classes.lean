/-
The classes of specifiers. A class gives back the text that it was found for
(`text_classify`), so nothing is said of a specifier but in the words of the
user. For a text that users may write, the class is that of the branch of the
grammar (`Dictates`); a version is exact if it has three numerals without sign,
and these are the numerals of words.
-/
import VersionPick.Proofs.Release
import VersionPick.Proofs.Specifier.Spelling

namespace VersionPick

open Text

namespace Specifier

/-! ## The grammar, branch by branch -/

/-- The numerals of a complete version: three, each that of a word. -/
def IsComplete (numerals : List (List Char)) : Prop :=
  numerals.length = 3 ∧
    ∀ numeral ∈ numerals, Decimal.isPlain numeral = true ∧ Decimal.value numeral < UInt64.size

/-- A sign or none, and the numerals behind it. -/
structure IsNumeric (sign : List Char) (numerals : List (List Char)) : Prop where
  sign : sign = [] ∨ sign = ['^'] ∨ sign = ['~']
  ne_nil : numerals ≠ []
  length : numerals.length ≤ 3
  numeral : ∀ numeral ∈ numerals, Decimal.isNumeral numeral = true

/-- The texts that users may write, each with the class of its branch. -/
inductive Dictates : List Char → Specifier → Prop
  | exact {numerals : List (List Char)} (h : IsNumeric [] numerals) (hcomplete : IsComplete numerals) :
    Dictates (List.intercalate ['.'] numerals) (.exact (String.ofList (List.intercalate ['.'] numerals)))
  | range {sign : List Char} {numerals : List (List Char)} (h : IsNumeric sign numerals)
    (hopen : sign = [] → ¬ IsComplete numerals) :
    Dictates (sign ++ List.intercalate ['.'] numerals)
      (.range (String.ofList (sign ++ List.intercalate ['.'] numerals)))
  | nightly : Dictates "nightly".toList (.nightly none)
  | branch {major minor : List Char} (hmajor : Decimal.isNumeral major = true)
      (hminor : Decimal.isNumeral minor = true) :
    Dictates (major ++ '.' :: minor ++ "-nightly".toList) (.nightly (some (String.ofList (major ++ '.' :: minor))))
  | alias {a : Alias} (h : a ≠ .pre) : Dictates a.text.toList (.alias a)

/-! ## Numeric specifiers -/

/-- The characters of numerals, their separator and the signs. -/
def isNumericChar (c : Char) : Bool :=
  c.isDigit || c == '.' || c == '^' || c == '~'

theorem dot_not_mem_numeral {cs : List Char} (h : Decimal.isNumeral cs = true) : '.' ∉ cs := by
  intro hdot
  have : '.'.isDigit = true := (Decimal.isNumeral_iff.mp h).2 '.' hdot
  cases this

namespace IsNumeric

variable {sign : List Char} {numerals : List (List Char)} (h : IsNumeric sign numerals)
include h

theorem splitOn_dots : List.splitOn '.' (List.intercalate ['.'] numerals) = numerals :=
  List.splitOn_intercalate '.' (fun piece hp => dot_not_mem_numeral (h.numeral piece hp)) h.ne_nil

theorem isDottedNumerals : isDottedNumerals (List.intercalate ['.'] numerals) = true := by
  rw [isDottedNumerals_iff, h.splitOn_dots]
  exact ⟨h.length, h.numeral⟩

theorem withoutSign : withoutSign (sign ++ List.intercalate ['.'] numerals) = List.intercalate ['.'] numerals := by
  rcases h.sign with rfl | rfl | rfl
  · obtain ⟨d, rest, hd, hdigit⟩ := exists_digit_cons h.isDottedNumerals
    have hcaret : d ≠ '^' := by
      rintro rfl
      cases hdigit
    have htilde : d ≠ '~' := by
      rintro rfl
      cases hdigit
    simp [hd, Specifier.withoutSign, hcaret, htilde]
  · rfl
  · rfl

theorem isNumericSpecifier : isNumericSpecifier (sign ++ List.intercalate ['.'] numerals) = true := by
  rw [Specifier.isNumericSpecifier, h.withoutSign, h.isDottedNumerals]

theorem isSpecifier : isSpecifier (sign ++ List.intercalate ['.'] numerals) = true := by
  rw [Specifier.isSpecifier, h.isNumericSpecifier, Bool.true_or, Bool.true_or]

theorem isNumericChar_of_mem {c : Char} (hc : c ∈ sign ++ List.intercalate ['.'] numerals) :
    isNumericChar c = true := by
  rcases List.mem_append.mp hc with hc | hc
  · rcases h.sign with rfl | rfl | rfl
    · cases hc
    · rw [List.mem_singleton.mp hc]
      decide
    · rw [List.mem_singleton.mp hc]
      decide
  · rcases digit_or_dot_of_mem h.isDottedNumerals hc with hdigit | rfl
    · simp [isNumericChar, hdigit]
    · decide

/-- No letter stands in a numeric specifier, and no hyphen or plus sign. -/
theorem not_mem_of_other {c : Char} (hother : isNumericChar c = false) :
    c ∉ sign ++ List.intercalate ['.'] numerals := by
  intro hc
  rw [h.isNumericChar_of_mem hc] at hother
  cases hother

end IsNumeric

theorem isNumericSpecifier_iff {cs : List Char} : isNumericSpecifier cs = true ↔
    ∃ sign numerals, IsNumeric sign numerals ∧ cs = sign ++ List.intercalate ['.'] numerals := by
  constructor
  · intro h
    have hdotted : isDottedNumerals (withoutSign cs) = true := h
    obtain ⟨hlength, hnumeral⟩ := isDottedNumerals_iff.mp hdotted
    have hsign : ∃ sign, (sign = [] ∨ sign = ['^'] ∨ sign = ['~']) ∧ cs = sign ++ withoutSign cs := by
      cases cs with
      | nil => exact ⟨[], .inl rfl, rfl⟩
      | cons c cs =>
        by_cases hcaret : c = '^'
        · exact ⟨['^'], .inr (.inl rfl), by simp [withoutSign, hcaret]⟩
        by_cases htilde : c = '~'
        · exact ⟨['~'], .inr (.inr rfl), by simp [withoutSign, htilde]⟩
        · exact ⟨[], .inl rfl, by simp [withoutSign, hcaret, htilde]⟩
    obtain ⟨sign, hsign, he⟩ := hsign
    exact ⟨sign, List.splitOn '.' (withoutSign cs), ⟨hsign, List.splitOn_ne_nil _ _, hlength, hnumeral⟩, by
      rwa [List.intercalate_splitOn]⟩
  · rintro ⟨sign, numerals, h, rfl⟩
    exact h.isNumericSpecifier

theorem isComplete_iff {numerals : List (List Char)} :
    IsComplete numerals ↔ ∃ c : Core, numerals = [c.major, c.minor, c.patch].map Decimal.writeWord := by
  simp only [IsComplete, ← Decimal.exists_word?_iff, Decimal.word?_eq_some]
  constructor
  · rintro ⟨hlength, hwords⟩
    obtain ⟨x, y, z, rfl⟩ := List.length_eq_three.mp hlength
    simp only [List.forall_mem_cons] at hwords
    obtain ⟨⟨a, rfl⟩, ⟨b, rfl⟩, ⟨c, rfl⟩, -⟩ := hwords
    exact ⟨⟨a, b, c⟩, rfl⟩
  · rintro ⟨c, rfl⟩
    simp

end Specifier

/-! ## Releases without a sign -/

theorem signed_eq_nil {sign : Char} {part : List Char} (h : sign ∉ signed sign part) : signed sign part = [] := by
  cases part with
  | nil => rfl
  | cons c part => simp at h

/-- Without a hyphen and a plus sign a release is its core. -/
theorem Release.exists_ofText?_iff {cs : List Char} (hhyphen : '-' ∉ cs) (hplus : '+' ∉ cs) :
    (∃ r, Release.ofText? cs = some r) ↔ ∃ c : Core, cs = c.text := by
  simp only [ofText?_eq_some]
  constructor
  · rintro ⟨r, -, rfl⟩
    rw [text, Version.text_eq] at hhyphen hplus ⊢
    simp only [List.mem_append, not_or] at hhyphen hplus
    exact ⟨r.version.core, by rw [signed_eq_nil hhyphen.1.2, signed_eq_nil hplus.2, List.append_nil, List.append_nil]⟩
  · rintro ⟨c, rfl⟩
    exact ⟨⟨⟨c, []⟩, []⟩, rfl, by simp [text, Version.text]⟩

namespace Specifier

namespace IsNumeric

variable {sign : List Char} {numerals : List (List Char)} (h : IsNumeric sign numerals)
include h

/-- Exact versions are complete and have no sign. -/
theorem exists_release_iff :
    (∃ r, Release.ofText? (sign ++ List.intercalate ['.'] numerals) = some r) ↔ sign = [] ∧ IsComplete numerals := by
  rw [Release.exists_ofText?_iff (h.not_mem_of_other (by decide))
    (h.not_mem_of_other (by decide)), isComplete_iff, ← exists_and_left]
  refine exists_congr fun c => ?_
  constructor
  · intro he
    have hsign : sign = [] := by
      rcases h.sign with rfl | rfl | rfl
      · rfl
      · exact absurd (he ▸ by simp) (Core.not_mem_text (c := c) (show '^'.isDigit = false by decide) (by decide))
      · exact absurd (he ▸ by simp) (Core.not_mem_text (c := c) (show '~'.isDigit = false by decide) (by decide))
    refine ⟨hsign, ?_⟩
    rw [hsign, List.nil_append, Core.text_eq] at he
    rw [← h.splitOn_dots]
    exact (Partial.splitOn_eq_numbers (by simp)).mpr he
  · rintro ⟨rfl, rfl⟩
    rw [List.nil_append, Core.text_eq]

/-- A text with any other character is no numeric specifier. -/
theorem ne_of_other {text : String} (hother : text.toList.all isNumericChar = false) :
    String.ofList (sign ++ List.intercalate ['.'] numerals) ≠ text := by
  rintro rfl
  rw [String.toList_ofList, List.all_eq_true.mpr fun c hc => h.isNumericChar_of_mem hc] at hother
  cases hother

theorem branch?_eq_none : branch? (sign ++ List.intercalate ['.'] numerals) = none := by
  have hhyphen : '-' ∈ "-nightly".toList := by decide
  rw [branch?, isSuffixOf?_eq_none_of_not_mem hhyphen (h.not_mem_of_other (by decide))]
  rfl

theorem unprefixed : Release.unprefixed (sign ++ List.intercalate ['.'] numerals) =
    sign ++ List.intercalate ['.'] numerals := by
  rw [Release.unprefixed, isPrefixOf?_eq_none_of_not_mem (List.mem_singleton_self 'v') (h.not_mem_of_other (by decide))]
  rfl

/-- A numeric specifier is an exact version if it is a release. -/
theorem classify_eq : classify (String.ofList (sign ++ List.intercalate ['.'] numerals)) =
    if (Release.ofText? (sign ++ List.intercalate ['.'] numerals)).isSome then
      .exact (String.ofList (sign ++ List.intercalate ['.'] numerals))
    else .range (String.ofList (sign ++ List.intercalate ['.'] numerals)) := by
  have hnightly : String.ofList (sign ++ List.intercalate ['.'] numerals) ≠ "nightly" := h.ne_of_other (by decide)
  have halias : Alias.all.find? (·.text == String.ofList (sign ++ List.intercalate ['.'] numerals)) = none := by
    refine List.find?_eq_none.mpr fun a _ he => ?_
    exact h.ne_of_other (by cases a <;> decide) (beq_iff_eq.mp he).symm
  rw [classify, if_neg hnightly, String.toList_ofList, h.branch?_eq_none, halias, h.unprefixed]

end IsNumeric

/-! ## The classes of accepted texts -/

theorem isNumeralPair_iff {cs : List Char} : isNumeralPair cs = true ↔ ∃ major minor,
    Decimal.isNumeral major = true ∧ Decimal.isNumeral minor = true ∧ cs = major ++ '.' :: minor := by
  constructor
  · intro h
    simp only [isNumeralPair, Bool.and_eq_true, beq_iff_eq, List.all_eq_true] at h
    obtain ⟨major, minor, hparts⟩ := List.length_eq_two.mp h.1
    have hnumerals := h.2
    rw [hparts] at hnumerals
    refine ⟨major, minor, hnumerals major (by simp), hnumerals minor (by simp), ?_⟩
    calc cs = List.intercalate ['.'] (List.splitOn '.' cs) := (List.intercalate_splitOn '.').symm
      _ = major ++ '.' :: minor := by simp [hparts]
  · rintro ⟨major, minor, hmajor, hminor, rfl⟩
    have hsplit : List.splitOn '.' (List.intercalate ['.'] [major, minor]) = [major, minor] :=
      List.splitOn_intercalate '.' (by simp [dot_not_mem_numeral hmajor, dot_not_mem_numeral hminor]) (by simp)
    have hjoin : List.intercalate ['.'] [major, minor] = major ++ '.' :: minor := by simp
    rw [hjoin] at hsplit
    simp [isNumeralPair, hsplit, hmajor, hminor]

theorem isNightlySpecifier_branch {branch : List Char} (h : isNumeralPair branch = true) :
    isNightlySpecifier (branch ++ "-nightly".toList) = true := by
  rw [isNightlySpecifier, List.isSuffixOf?_eq_some_iff_append_eq.mpr rfl]
  simp [h]

theorem classify_branch {branch : List Char} (h : isNumeralPair branch = true) :
    classify (String.ofList (branch ++ "-nightly".toList)) = .nightly (some (String.ofList branch)) := by
  obtain ⟨branch', hclass⟩ := classify_nightly (by rw [String.toList_ofList]; exact isNightlySpecifier_branch h)
  rw [hclass]
  -- the class keeps the text, which has the branch in front of the same tail
  have htext := text_classify (String.ofList (branch ++ "-nightly".toList))
  rw [hclass] at htext
  cases branch' with
  | none =>
    have hlength := congrArg List.length (String.toList_inj.mpr htext)
    simp [text] at hlength
  | some branch' =>
    have hchars := String.toList_inj.mpr htext
    rw [String.toList_ofList, text, String.toList_append] at hchars
    rw [← List.append_cancel_right hchars, String.ofList_toList]

/-- **The class that the grammar dictates** is the one that a text has. -/
theorem classify_of_dictates {cs : List Char} {s : Specifier} (h : Dictates cs s) :
    isSpecifier cs = true ∧ classify (String.ofList cs) = s := by
  cases h with
  | @exact numerals h hcomplete =>
    have hrelease := h.exists_release_iff.mpr ⟨rfl, hcomplete⟩
    have hclass := h.classify_eq
    rw [if_pos (Option.isSome_iff_exists.mpr hrelease)] at hclass
    exact ⟨h.isSpecifier, hclass⟩
  | @range sign numerals h hopen =>
    have hrelease : ¬ ∃ r, Release.ofText? (sign ++ List.intercalate ['.'] numerals) = some r := by
      rw [h.exists_release_iff]
      exact fun ⟨hsign, hcomplete⟩ => hopen hsign hcomplete
    refine ⟨h.isSpecifier, ?_⟩
    rw [h.classify_eq, if_neg (fun hsome => hrelease (Option.isSome_iff_exists.mp hsome))]
  | nightly => decide
  | @branch major minor hmajor hminor =>
    have hpair : isNumeralPair (major ++ '.' :: minor) = true :=
      isNumeralPair_iff.mpr ⟨major, minor, hmajor, hminor, rfl⟩
    refine ⟨?_, classify_branch hpair⟩
    simp only [isSpecifier, isNightlySpecifier_branch hpair, Bool.or_true, Bool.true_or]
  | @«alias» a h =>
    cases a with
    | lts => decide
    | min => decide
    | manifest => decide
    | pre => exact absurd rfl h

theorem exists_dictates {cs : List Char} (h : isSpecifier cs = true) : ∃ s, Dictates cs s := by
  simp only [isSpecifier, Bool.or_eq_true] at h
  rcases h with (hnumeric | hnightly) | halias
  · obtain ⟨sign, numerals, hparts, rfl⟩ := isNumericSpecifier_iff.mp hnumeric
    by_cases hexact : sign = [] ∧ IsComplete numerals
    · obtain ⟨rfl, hcomplete⟩ := hexact
      exact ⟨_, .exact hparts hcomplete⟩
    · exact ⟨_, .range hparts fun hsign hcomplete => hexact ⟨hsign, hcomplete⟩⟩
  · simp only [isNightlySpecifier, Bool.or_eq_true, beq_iff_eq] at hnightly
    rcases hnightly with rfl | hbranch
    · exact ⟨_, .nightly⟩
    · split at hbranch
      next branch hbefore =>
        obtain ⟨major, minor, hmajor, hminor, rfl⟩ := isNumeralPair_iff.mp hbranch
        rw [← List.append_eq_of_isSuffixOf?_eq_some hbefore]
        exact ⟨_, .branch hmajor hminor⟩
      next => cases hbranch
  · simp only [isAliasSpecifier, Bool.or_eq_true, beq_iff_eq] at halias
    rcases halias with (rfl | rfl) | rfl
    · exact ⟨_, .alias (a := .lts) (by decide)⟩
    · exact ⟨_, .alias (a := .min) (by decide)⟩
    · exact ⟨_, .alias (a := .manifest) (by decide)⟩

/-- The grammar dictates one class for each text that users may write, and
none for any other text. -/
theorem dictates_iff {cs : List Char} {s : Specifier} :
    Dictates cs s ↔ isSpecifier cs = true ∧ classify (String.ofList cs) = s := by
  constructor
  · exact classify_of_dictates
  · rintro ⟨hspecifier, rfl⟩
    obtain ⟨s, hs⟩ := exists_dictates hspecifier
    rwa [(classify_of_dictates hs).2]

end Specifier

end VersionPick
