/-
Texts that are spellings of one range, down to the comparators. A hyphen range
is another way to write its ends behind `>=` and `<=`, and a version with
numbers missing means the same alone, behind an equals sign and behind either
tilde (`parse_spellings`).

The two spellings of a hyphen range come to words in different ways: the lone
hyphen is a word to itself, the signs are part of theirs. Whatever stands at the
ends, if one spelling is no range the other is none; an end left out makes a
hyphen that has nothing to join, and a sign that has nothing behind it.
-/
import VersionPick.Proofs.Range.Reading

namespace VersionPick

open Text Version

/-- A tilde keeps two numbers, and fewer than three have no more to keep. -/
theorem Partial.tilde_eq_within {p : Partial} (h : ∀ v, p ≠ .full v) : p.tilde = p.within := by
  cases p with
  | full v => exact absurd rfl (h v)
  | any => rfl
  | major a => rfl
  | minor a b => rfl

namespace Range

/-! ## Ends behind their signs -/

theorem readComparator?_ge (word : List Char) :
    readComparator? ('>' :: '=' :: word) = (Partial.read? word).map Partial.atLeast := rfl

theorem readComparator?_le (word : List Char) :
    readComparator? ('<' :: '=' :: word) = (Partial.read? word).map Partial.atMost := rfl

/-- No sign has more than two characters. -/
theorem not_isSign_of_length {word : List Char} (h : 2 < word.length) : Operator.isSign word = false := by
  rw [Bool.eq_false_iff]
  intro hs
  obtain ⟨w, hw, rfl⟩ := isSign_iff.mp hs
  have hlength : w.1.length ≤ 2 := (by decide : ∀ w ∈ Operator.signs, w.1.length ≤ 2) w hw
  omega

/-- Signs stand with the ends behind them, and the sign of an upper end that is
left out comes last. -/
theorem attachSigns_ends {low : List Char} (hlow : low ≠ []) (high : List Char) :
    attachSigns [] ['>' :: '=' :: low, '<' :: '=' :: high] = ['>' :: '=' :: low, '<' :: '=' :: high] := by
  have hge : Operator.isSign ('>' :: '=' :: low) = false :=
    not_isSign_of_length (by simpa using List.length_pos_iff.mpr hlow)
  simp only [attachSigns, List.nil_append, hge, Bool.false_eq_true, if_false, List.isEmpty_nil, if_true]
  split <;> rfl

/-- The sign of a lower end that is left out is put in front of the next one. -/
theorem attachSigns_upper_end (high : List Char) :
    attachSigns [] [['>', '='], '<' :: '=' :: high] = ['>' :: '=' :: '<' :: '=' :: high] := by
  have hle : Operator.isSign ('>' :: '=' :: '<' :: '=' :: high) = false := not_isSign_of_length (by simp)
  have hge : Operator.isSign ['>', '='] = true := rfl
  simp [attachSigns, hge, hle]

/-- Two ends behind their signs are read if both are versions. -/
theorem readWords?_ends (low high : List Char) : readWords? ['>' :: '=' :: low, '<' :: '=' :: high] =
    (Partial.read? low).bind fun p => (Partial.read? high).bind fun q => some (p.upTo q) := by
  rw [readWords?_of_no_hyphen (by simp)]
  by_cases hlow : low = []
  · have hsign : Partial.read? ('<' :: '=' :: high) = none := by
      rw [Option.eq_none_iff_forall_ne_some]
      intro p hp
      exact absurd (Partial.isPartialChar_of_read? hp List.mem_cons_self) (by decide)
    simp [hlow, attachSigns_upper_end, readComparator?_ge, hsign, Partial.read?_nil]
  · simp only [attachSigns_ends hlow, List.mapM_cons, List.mapM_nil, readComparator?_ge, readComparator?_le]
    cases Partial.read? low <;> cases Partial.read? high <;> simp [Partial.upTo]

/-- So are two ends with a hyphen between them. With an end left out the hyphen
is no word in the middle of three, but then that end is no version, either. -/
theorem readWords?_hyphen {low high : List Char} (hlow : ∀ c ∈ low, isBlank c = false)
    (hhigh : ∀ c ∈ high, isBlank c = false) : readWords? (words low ++ ['-'] :: words high) =
      (Partial.read? low).bind fun p => (Partial.read? high).bind fun q => some (p.upTo q) := by
  by_cases hnil : low = [] ∨ high = []
  · rw [readWords?_hyphen_alone (length_words_of_no_blank hlow) (length_words_of_no_blank hhigh)
      (hnil.imp (congrArg words) (congrArg words))]
    rcases hnil with rfl | rfl <;> simp [Partial.read?_nil]
  · obtain ⟨hlne, hhne⟩ := not_or.mp hnil
    rw [words_of_no_blank hlne hlow, words_of_no_blank hhne hhigh]
    rfl

theorem read?_hyphen_eq_ends {low high : List Char} (hlow : ∀ c ∈ low, isBlank c = false)
    (hhigh : ∀ c ∈ high, isBlank c = false) (hlbar : ¬ ['|', '|'] <:+: low) (hhbar : ¬ ['|', '|'] <:+: high) :
    read? (low ++ ' ' :: '-' :: ' ' :: high) = read? (('>' :: '=' :: low) ++ ' ' :: '<' :: '=' :: high) := by
  have hbars {cs : List Char} (h : ¬ ['|', '|'] <:+: cs) {c d : Char} (hc : c ≠ '|') (hd : d ≠ '|') :
      ¬ ['|', '|'] <:+: c :: d :: cs :=
    pair_not_infix_cons hc (pair_not_infix_cons hd h)
  have hwords {cs : List Char} (h : ∀ c ∈ cs, isBlank c = false) {c d : Char} (hc : isBlank c = false)
      (hd : isBlank d = false) : words (c :: d :: cs) = [c :: d :: cs] :=
    words_of_no_blank (by simp) (by simpa [hc, hd] using h)
  have hhyphen := hbars hhbar (show '-' ≠ '|' by decide) (show ' ' ≠ '|' by decide)
  have hge := hbars hlbar (show '>' ≠ '|' by decide) (show '=' ≠ '|' by decide)
  have hle := hbars hhbar (show '<' ≠ '|' by decide) (show '=' ≠ '|' by decide)
  rw [read?_single (pair_not_infix_append (by decide) hhyphen hlbar),
    read?_single (pair_not_infix_append (by decide) hle hge),
    words_hyphen, readWords?_hyphen hlow hhigh, words_append_blank (by decide),
    hwords hlow (by decide) (by decide), hwords hhigh (by decide) (by decide), List.singleton_append,
    readWords?_ends]

/-- **One range in many spellings.** A hyphen range is its ends behind `>=` and
`<=`, and is none where they are none. A version with numbers missing is the
same range alone, behind an equals sign and behind either tilde. -/
theorem parse_spellings :
    (∀ low high : String, (∀ c ∈ low.toList, isBlank c = false) → (∀ c ∈ high.toList, isBlank c = false) →
      ¬ ['|', '|'] <:+: low.toList → ¬ ['|', '|'] <:+: high.toList →
        ∀ r, parse (low ++ " - " ++ high) = .ok r ↔ parse (">=" ++ low ++ " <=" ++ high) = .ok r) ∧
    ∀ (t : String) (p : Partial), Partial.read? t.toList = some p → (∀ v, p ≠ .full v) →
      ∃ r, ∀ sign ∈ ["", "=", "~", "~>"], parse (sign ++ t) = .ok r := by
  refine ⟨fun low high hlow hhigh hlbar hhbar r => ?_, fun t p ht hp => ⟨⟨[p.within]⟩, fun sign hs => ?_⟩⟩
  · have hhyphen : (low ++ " - " ++ high).toList = low.toList ++ ' ' :: '-' :: ' ' :: high.toList := by simp
    have hends : (">=" ++ low ++ " <=" ++ high).toList =
        ('>' :: '=' :: low.toList) ++ ' ' :: '<' :: '=' :: high.toList := by simp
    rw [parse_eq_ok, parse_eq_ok, hhyphen, hends, read?_hyphen_eq_ends hlow hhigh hlbar hhbar]
  · have htilde : p.tilde = p.within := Partial.tilde_eq_within hp
    simp only [List.mem_cons, List.not_mem_nil, or_false] at hs
    rcases hs with rfl | rfl | rfl | rfl
    · exact parse_operator_append (show ([], .compare .eq) ∈ written by decide) ht (by simp)
    · exact parse_operator_append (show (['='], .compare .eq) ∈ written by decide) ht (by simp)
    · rw [← htilde]
      exact parse_operator_append (show (['~'], .tilde) ∈ written by decide) ht (by simp)
    · rw [← htilde]
      exact parse_operator_append (show (['~', '>'], .tilde) ∈ written by decide) ht (by simp)

/-- An equals sign in front of an end, and an end that is no version. The
largest number has no next one under any of the signs. -/
theorem parse_spellings_largest :
    parse ("=1.2" ++ " - " ++ "2.x") = .ok ⟨[[⟨.ge, .release 1 2 0⟩, ⟨.lt, .lowest 3 0 0⟩]]⟩ ∧
    parse (">=" ++ "=1.2" ++ " <=" ++ "2.x") = .ok ⟨[[⟨.ge, .release 1 2 0⟩, ⟨.lt, .lowest 3 0 0⟩]]⟩ ∧
    (∀ r, parse ("1.2" ++ " - " ++ "<2") ≠ .ok r) ∧ (∀ r, parse (">=" ++ "1.2" ++ " <=" ++ "<2") ≠ .ok r) ∧
    Partial.read? "=18446744073709551615.*".toList = some (.major 18446744073709551615) ∧
    ∃ r, ∀ sign ∈ ["", "=", "~", "~>"], parse (sign ++ "=18446744073709551615.*") = .ok r := by
  have hhyphen : parse ("=1.2" ++ " - " ++ "2.x") = .ok ⟨[[⟨.ge, .release 1 2 0⟩, ⟨.lt, .lowest 3 0 0⟩]]⟩ := by
    decide
  have hnone : parse ("1.2" ++ " - " ++ "<2") = .error ⟨"1.2" ++ " - " ++ "<2"⟩ := by decide
  have hpartial : Partial.read? "=18446744073709551615.*".toList = some (.major 18446744073709551615) := by decide
  have hends := parse_spellings.1 "=1.2" "2.x" (by simp [isBlank]) (by simp [isBlank]) (by decide) (by decide)
  have hnoends := parse_spellings.1 "1.2" "<2" (by simp [isBlank]) (by simp [isBlank]) (by decide) (by decide)
  rw [hnone] at hnoends
  refine ⟨hhyphen, (hends _).mp hhyphen, fun r hr => ?_, fun r hr => ?_, hpartial,
    parse_spellings.2 _ _ hpartial (by simp)⟩
  · rw [hnone] at hr
    cases hr
  · simpa using (hnoends r).mpr hr

end Range

end VersionPick
