/-
What range texts are read as, piece by piece: alternatives one by one
(`read?_eq_some`), a text without blanks as one comparator (`read?_word`), an
operator in front of a version as that operator applied to it
(`splitSign_append`).
-/
import VersionPick.Range.Reader
import VersionPick.Proofs.Range.Spelling

namespace VersionPick.Range

open Text Version

theorem read?_eq_some {cs : List Char} {r : Range} : read? cs = some r ↔
    List.Forall₂ (fun part alternative => readWords? (words part) = some alternative)
      (splitOnPair '|' cs) r.alternatives := by
  simp only [read?, Option.map_eq_some_iff, mapM_eq_some]
  constructor
  · intro h
    obtain ⟨alternatives, h, rfl⟩ := h
    exact h
  · exact fun h => ⟨_, h, rfl⟩

theorem parse_eq_ok {text : String} {r : Range} : parse text = .ok r ↔ read? text.toList = some r := by
  unfold parse
  cases read? text.toList <;> simp

/-- A text without doubled bars is one alternative. -/
theorem read?_single {cs : List Char} (h : ¬ ['|', '|'] <:+: cs) :
    read? cs = (readWords? (words cs)).map fun alternative => ⟨[alternative]⟩ := by
  rw [read?, splitOnPair_of_not_infix h]
  cases hw : readWords? (words cs) <;> simp [hw]

theorem read?_of_no_bar {cs : List Char} (h : '|' ∉ cs) :
    read? cs = (readWords? (words cs)).map fun alternative => ⟨[alternative]⟩ :=
  read?_single fun hbars => h (hbars.subset List.mem_cons_self)

/-! ## One word -/

theorem attachSigns_single {word : List Char} (h : word ≠ []) : attachSigns [] [word] = [word] := by
  have hne : word.isEmpty = false := by simpa using h
  by_cases hs : Operator.isSign word = true <;> simp [attachSigns, hs, hne]

theorem readWords?_single {word : List Char} (h : word ≠ []) : readWords? [word] = readComparator? word := by
  simp only [readWords?, attachSigns_single h]
  cases hc : readComparator? word <;> simp [hc]

/-- A text without blanks and bars is one comparator. -/
theorem read?_word {word : List Char} (hne : word ≠ []) (hblank : ∀ c ∈ word, isBlank c = false)
    (hbar : '|' ∉ word) : read? word = (readComparator? word).map fun alternative => ⟨[alternative]⟩ := by
  rw [read?_of_no_bar hbar, words_of_no_blank hne hblank, readWords?_single hne]

/-- The characters that signs of operators are made of. -/
def isSignChar (c : Char) : Bool :=
  ['~', '^', '<', '>', '='].contains c

theorem isSignChar_cases {c : Char} (h : isSignChar c = true) : c = '~' ∨ c = '^' ∨ c = '<' ∨ c = '>' ∨ c = '=' := by
  simpa [isSignChar] using h

/-- The signs of operators with what they mean, and the missing sign. -/
def written : List (List Char × Operator) :=
  ([], .compare .eq) :: Operator.signs

/-- An operator in front of a word that does not continue its sign. -/
theorem splitSign_append {sign : List Char} {op : Operator} (h : (sign, op) ∈ written) {rest : List Char}
    (hr : ∀ c ∈ rest.head?, isSignChar c = false) : splitSign (sign ++ rest) = (op, rest) := by
  simp only [written, Operator.signs, List.mem_cons, Prod.mk.injEq, List.not_mem_nil, or_false] at h
  cases rest with
  | nil => rcases h with h | h | h | h | h | h | h | h | h <;> obtain ⟨rfl, rfl⟩ := h <;> rfl
  | cons c rest =>
    have hc := hr c (by simp)
    simp only [isSignChar, List.contains_eq_mem, List.mem_cons, List.not_mem_nil, or_false,
      decide_eq_false_iff_not, not_or] at hc
    have hne : ∀ {a : Char}, c ≠ a → (a == c) = false := fun h => beq_eq_false_iff_ne.mpr h.symm
    obtain ⟨h₁, h₂, h₃, h₄, h₅⟩ := hc
    rcases h with h | h | h | h | h | h | h | h | h <;> obtain ⟨rfl, rfl⟩ := h <;>
      simp only [List.nil_append, List.cons_append, splitSign, Operator.signs, List.findSome?_cons, List.isPrefixOf?,
        hne h₁, hne h₂, hne h₃, hne h₄, hne h₅] <;>
      rfl

theorem isSignChar_of_written {sign : List Char} {op : Operator} (h : (sign, op) ∈ written) {c : Char}
    (hc : c ∈ sign) : isSignChar c = true := by
  have hall : (written.all fun w => w.1.all isSignChar) = true := by decide
  exact List.all_eq_true.mp (List.all_eq_true.mp hall _ h) c hc

/-- The first character of a version text is no sign, unless it is `=`. -/
theorem not_isSignChar_of_read? {t : List Char} {p : Partial} (h : Partial.read? t = some p)
    (he : t.head? ≠ some '=') {c : Char} (hc : c ∈ t.head?) : isSignChar c = false := by
  have hp := Partial.isPartialChar_of_read? h (List.mem_of_mem_head? hc)
  have hne : c ≠ '=' := fun e => he (e ▸ hc)
  rw [Bool.eq_false_iff]
  intro hs
  rcases isSignChar_cases hs with rfl | rfl | rfl | rfl | rfl
  · exact absurd hp (by decide)
  · exact absurd hp (by decide)
  · exact absurd hp (by decide)
  · exact absurd hp (by decide)
  · exact hne rfl

theorem isBlank_of_isSignChar {c : Char} (h : isSignChar c = true) : isBlank c = false := by
  rcases isSignChar_cases h with rfl | rfl | rfl | rfl | rfl <;> decide

theorem bar_not_mem_of_read? {t : List Char} {p : Partial} (h : Partial.read? t = some p) : '|' ∉ t :=
  fun hc => absurd (Partial.isPartialChar_of_read? h hc) (by decide)

theorem not_isBlank_of_read? {t : List Char} {p : Partial} (h : Partial.read? t = some p) {c : Char}
    (hc : c ∈ t) : isBlank c = false :=
  Partial.not_isBlank_of_isPartialChar (Partial.isPartialChar_of_read? h hc)

/-- **An operator in front of a version** is the operator applied to it. An
equals sign that the version starts with is no part of it, but continues the
signs `<` and `>`. -/
theorem readComparator?_append {sign : List Char} {op : Operator} (hs : (sign, op) ∈ written) {t : List Char}
    {p : Partial} (h : Partial.read? t = some p) (he : t.head? = some '=' → sign ≠ ['<'] ∧ sign ≠ ['>']) :
    readComparator? (sign ++ t) = some (op.apply p) := by
  by_cases heq : t.head? = some '='
  · obtain ⟨hlt, hgt⟩ := he heq
    obtain ⟨rest, rfl⟩ := List.head?_eq_some_iff.mp heq
    have hbare : Partial.bare rest = Partial.bare ('=' :: rest) := by simp [Partial.bare]
    have hrest : Partial.read? rest = some p := by rw [Partial.read?_congr hbare, h]
    simp only [written, Operator.signs, List.mem_cons, Prod.mk.injEq, List.not_mem_nil, or_false] at hs
    rcases hs with hs | hs | hs | hs | hs | hs | hs | hs | hs <;> obtain ⟨rfl, rfl⟩ := hs
    · -- Without an operator the equals sign is taken for one, which means the same.
      exact congrArg (Option.map _) hrest
    all_goals first | exact absurd rfl hlt | exact absurd rfl hgt | exact congrArg (Option.map _) h
  · have hsplit := splitSign_append hs fun _ hc => not_isSignChar_of_read? h heq hc
    simp only [readComparator?, hsplit, h, Option.map_some]

/-- An operator in front of a word is one comparator. -/
theorem read?_written_append {sign : List Char} {op : Operator} (hs : (sign, op) ∈ written) {t : List Char}
    (hne : t ≠ []) (hblank : ∀ c ∈ t, isBlank c = false) (hbar : '|' ∉ t) :
    read? (sign ++ t) = (readComparator? (sign ++ t)).map fun alternative => ⟨[alternative]⟩ := by
  refine read?_word (by simp [hne]) (fun c hc => ?_) fun hc => ?_
  · rcases List.mem_append.mp hc with hc | hc
    · exact isBlank_of_isSignChar (isSignChar_of_written hs hc)
    · exact hblank c hc
  · rcases List.mem_append.mp hc with hc | hc
    · exact absurd (isSignChar_of_written hs hc) (by decide)
    · exact hbar hc

/-- An operator in front of a word is the operator applied to the version that
the word is. -/
theorem read?_sign_word {sign : List Char} {op : Operator} (hs : (sign, op) ∈ written) {t : List Char}
    (hne : t ≠ []) (hblank : ∀ c ∈ t, isBlank c = false) (hbar : '|' ∉ t)
    (hhead : ∀ c ∈ t.head?, isSignChar c = false) :
    read? (sign ++ t) = (Partial.read? t).map fun p => ⟨[op.apply p]⟩ := by
  rw [read?_written_append hs hne hblank hbar, readComparator?, splitSign_append hs hhead, Option.map_map]
  rfl

theorem read?_operator_append {sign : List Char} {op : Operator} (hs : (sign, op) ∈ written) {t : List Char}
    {p : Partial} (h : Partial.read? t = some p) (he : t.head? = some '=' → sign ≠ ['<'] ∧ sign ≠ ['>']) :
    read? (sign ++ t) = some ⟨[op.apply p]⟩ := by
  rw [read?_written_append hs (Partial.ne_nil_of_read? h) (fun _ hc => not_isBlank_of_read? h hc)
    (bar_not_mem_of_read? h), readComparator?_append hs h he, Option.map_some]

theorem read?_sign_append {sign : List Char} {op : Operator} (hs : (sign, op) ∈ written) {t : List Char}
    {p : Partial} (h : Partial.read? t = some p) (he : t.head? ≠ some '=') :
    read? (sign ++ t) = some ⟨[op.apply p]⟩ :=
  read?_operator_append hs h fun heq => absurd heq he

theorem parse_operator_append {sign : List Char} {op : Operator} (hs : (sign, op) ∈ written) {t : String}
    {p : Partial} (h : Partial.read? t.toList = some p)
    (he : t.toList.head? = some '=' → sign ≠ ['<'] ∧ sign ≠ ['>']) :
    parse (String.ofList sign ++ t) = .ok ⟨[op.apply p]⟩ := by
  rw [parse_eq_ok, String.toList_append, String.toList_ofList, read?_operator_append hs h he]

theorem isWord_of_read? {t : List Char} {p : Partial} (h : Partial.read? t = some p) : IsWord t :=
  ⟨Partial.ne_nil_of_read? h, fun _ hc => not_isBlank_of_read? h hc⟩

/-- Two versions with a lone hyphen between them are the range from one to the
other. -/
theorem read?_hyphen {low high : List Char} {p q : Partial} (hp : Partial.read? low = some p)
    (hq : Partial.read? high = some q) :
    read? (low ++ ' ' :: '-' :: ' ' :: high) = some ⟨[p.upTo q]⟩ := by
  have hbar : '|' ∉ low ++ ' ' :: '-' :: ' ' :: high := by
    simp [bar_not_mem_of_read? hp, bar_not_mem_of_read? hq]
  rw [read?_of_no_bar hbar, words_hyphen, words_of_isWord (isWord_of_read? hp), words_of_isWord (isWord_of_read? hq)]
  simp [readWords?, hp, hq]

/-! ## Where comparators come from -/

/-- Without a lone hyphen among them, words are comparators. -/
theorem readWords?_of_no_hyphen {ws : List (List Char)} (h : ['-'] ∉ ws) :
    readWords? ws = ((attachSigns [] ws).mapM readComparator?).map List.flatten := by
  unfold readWords?
  split
  next low high => simp at h
  next => rfl

/-- What the words of an alternative are read as. -/
theorem readWords?_eq_some {ws : List (List Char)} {alternative : Alternative}
    (h : readWords? ws = some alternative) :
    (∃ low high p q, ws = [low, ['-'], high] ∧ Partial.read? low = some p ∧ Partial.read? high = some q ∧
      alternative = p.upTo q) ∨
    ∃ parts, List.Forall₂ (fun token part => readComparator? token = some part) (attachSigns [] ws) parts ∧
      alternative = parts.flatten := by
  unfold readWords? at h
  split at h
  next low high =>
    simp only [Option.bind_eq_bind, Option.bind_eq_some_iff, Option.some.injEq] at h
    obtain ⟨p, hp, q, hq, rfl⟩ := h
    exact .inl ⟨low, high, p, q, rfl, hp, hq, rfl⟩
  next =>
    simp only [Option.map_eq_some_iff, mapM_eq_some] at h
    obtain ⟨parts, hparts, rfl⟩ := h
    exact .inr ⟨parts, hparts, rfl⟩

theorem readComparator?_eq_some {token : List Char} {part : Alternative}
    (h : readComparator? token = some part) :
    ∃ p, Partial.read? (splitSign token).2 = some p ∧ part = (splitSign token).1.apply p := by
  simp only [readComparator?, Option.map_eq_some_iff] at h
  obtain ⟨p, hp, rfl⟩ := h
  exact ⟨p, hp, rfl⟩

theorem splitSign_cases (word : List Char) :
    (∃ w ∈ Operator.signs, word = w.1 ++ (splitSign word).2 ∧ (splitSign word).1 = w.2) ∨
    (∀ w ∈ Operator.signs, ¬ w.1 <+: word) ∧ splitSign word = (.compare .eq, word) := by
  unfold splitSign
  split
  next found hf =>
    obtain ⟨w, hw, h⟩ := List.exists_of_findSome?_eq_some hf
    obtain ⟨rest, hr, rfl⟩ := Option.map_eq_some_iff.mp h
    exact .inl ⟨w, hw, (List.append_eq_of_isPrefixOf?_eq_some hr).symm, rfl⟩
  next hf =>
    refine .inr ⟨fun w hw ⟨rest, hr⟩ => ?_, rfl⟩
    have := List.findSome?_eq_none_iff.mp hf w hw
    simp [List.isPrefixOf?_eq_some_iff_append_eq.mpr hr] at this

theorem isSignChar_of_mem_signs {w : List Char × Operator} (h : w ∈ Operator.signs) {c : Char} (hc : c ∈ w.1) :
    isSignChar c = true :=
  isSignChar_of_written (show (w.1, w.2) ∈ written from List.mem_cons_of_mem _ h) hc

/-- The characters of a comparator are those of signs and of versions. -/
theorem char_of_readComparator? {word : List Char} {alternative : Alternative}
    (h : readComparator? word = some alternative) {c : Char} (hc : c ∈ word) :
    isSignChar c = true ∨ Partial.isPartialChar c = true := by
  obtain ⟨p, hp, -⟩ := readComparator?_eq_some h
  rcases splitSign_cases word with ⟨w, hw, he, -⟩ | ⟨-, he⟩
  · have hc : c ∈ w.1 ++ (splitSign word).2 := he ▸ hc
    rcases List.mem_append.mp hc with hc | hc
    · exact .inl (isSignChar_of_mem_signs hw hc)
    · exact .inr (Partial.isPartialChar_of_read? hp hc)
  · rw [he] at hp
    exact .inr (Partial.isPartialChar_of_read? hp hc)

theorem readComparator?_hyphen : readComparator? ['-'] = none := by decide

theorem isSign_iff {cs : List Char} : Operator.isSign cs = true ↔ ∃ w ∈ Operator.signs, w.1 = cs := by
  simp [Operator.isSign]

/-- An operator that nothing follows is no comparator. -/
theorem readComparator?_isSign {token : List Char} (h : Operator.isSign token = true) :
    readComparator? token = none := by
  obtain ⟨w, hw, rfl⟩ := isSign_iff.mp h
  exact (by decide : ∀ w ∈ Operator.signs, readComparator? w.1 = none) w hw

/-- A hyphen is no version, whatever operator stands in front of it. -/
theorem exists_token_of_hyphen : ∀ {pending : List Char} {ws : List (List Char)},
    pending = [] ∨ Operator.isSign pending = true → ['-'] ∈ ws →
      ∃ token ∈ attachSigns pending ws, readComparator? token = none
  | pending, word :: ws, hp, h => by
    simp only [attachSigns]
    split
    next hs =>
      rcases List.mem_cons.mp h with rfl | h
      · obtain ⟨w, hw, he⟩ := isSign_iff.mp hs
        have hmem : '-' ∈ w.1 := by simp [he]
        exact absurd (isSignChar_of_mem_signs hw hmem) (by decide)
      · exact exists_token_of_hyphen (.inr hs) h
    next hs =>
      rcases List.mem_cons.mp h with rfl | h
      · refine ⟨pending ++ ['-'], by simp, ?_⟩
        rcases hp with rfl | hp
        · exact readComparator?_hyphen
        · obtain ⟨w, hw, rfl⟩ := isSign_iff.mp hp
          exact (by decide : ∀ w ∈ Operator.signs, readComparator? (w.1 ++ ['-']) = none) w hw
      · obtain ⟨token, ht, hnone⟩ := exists_token_of_hyphen (.inl rfl) h
        exact ⟨token, List.mem_cons_of_mem _ ht, hnone⟩

/-- Words that are read, and are no hyphen range, are comparators with no lone
hyphen among them. -/
theorem comparators_of_readWords? {ws : List (List Char)} {alternative : Alternative}
    (h : readWords? ws = some alternative) (hno : ∀ low high, ws ≠ [low, ['-'], high]) :
    ['-'] ∉ ws ∧ ∃ parts,
      List.Forall₂ (fun token part => readComparator? token = some part) (attachSigns [] ws) parts ∧
      alternative = parts.flatten := by
  rcases readWords?_eq_some h with ⟨low, high, p, q, rfl, -⟩ | ⟨parts, hparts, rfl⟩
  · exact absurd rfl (hno low high)
  · refine ⟨fun hm => ?_, parts, hparts, rfl⟩
    obtain ⟨token, ht, hnone⟩ := exists_token_of_hyphen (.inl rfl) hm
    obtain ⟨part, -, hpart⟩ := exists_of_mem_left hparts ht
    simp [hnone] at hpart

/-- A hyphen with a word on one side at most is taken for a comparator, and is
none. -/
theorem readWords?_hyphen_alone {low high : List (List Char)} (hl : low.length ≤ 1) (hh : high.length ≤ 1)
    (h : low = [] ∨ high = []) : readWords? (low ++ ['-'] :: high) = none := by
  cases hread : readWords? (low ++ ['-'] :: high) with
  | none => rfl
  | some alternative =>
    have hno : ∀ l r, low ++ ['-'] :: high ≠ [l, ['-'], r] := by
      intro l r he
      have hlength := congrArg List.length he
      rcases h with rfl | rfl <;> simp at hlength <;> omega
    exact absurd (by simp) (comparators_of_readWords? hread hno).1

/-- What an operator leaves of a word that was put behind a pending operator
is the end of that word: no operator is taken for a shorter one. -/
theorem exists_signs_of_pending {pending word : List Char} (hp : pending = [] ∨ Operator.isSign pending = true) :
    ∃ lead, word = lead ++ (splitSign (pending ++ word)).2 ∧ ∀ c ∈ lead, isSignChar c = true := by
  by_cases hl : pending.length ≤ 1
  · rcases splitSign_cases (pending ++ word) with ⟨w, hw, he, -⟩ | ⟨hn, he⟩
    · have hwne : w.1 ≠ [] := (by decide : ∀ w ∈ Operator.signs, w.1 ≠ []) w hw
      obtain ⟨c, cs, hc⟩ := List.exists_cons_of_ne_nil hwne
      cases pending with
      | nil => exact ⟨w.1, he, fun c hc => isSignChar_of_mem_signs hw hc⟩
      | cons d ds =>
        have hds : ds = [] := List.eq_nil_of_length_eq_zero (by simpa using hl)
        subst hds
        simp only [hc, List.cons_append, List.nil_append, List.cons.injEq] at he
        exact ⟨cs, he.2, fun e hm => isSignChar_of_mem_signs hw (by simp [hc, hm])⟩
    · rcases hp with rfl | hp
      · exact ⟨[], by rw [he]; rfl, by simp⟩
      · obtain ⟨w, hw, rfl⟩ := isSign_iff.mp hp
        exact absurd (List.prefix_append _ _) (hn w hw)
  · -- The operators of two characters are looked for first.
    rcases hp with rfl | hp
    · simp at hl
    · obtain ⟨w, hw, rfl⟩ := isSign_iff.mp hp
      refine ⟨[], ?_, by simp⟩
      simp only [Operator.signs, List.mem_cons, List.not_mem_nil, or_false] at hw
      rcases hw with rfl | rfl | rfl | rfl | rfl | rfl | rfl | rfl
      all_goals first | rfl | simp at hl

/-- What an operator leaves of a word, with the operators put back, is the end
of a word of the text. -/
theorem exists_word_of_token : ∀ {ws : List (List Char)} {pending token : List Char},
    pending = [] ∨ Operator.isSign pending = true → token ∈ attachSigns pending ws → (splitSign token).2 ≠ [] →
      ∃ word ∈ ws, ∃ lead, word = lead ++ (splitSign token).2 ∧ ∀ c ∈ lead, isSignChar c = true
  | [], pending, token, hp, ht, hne => by
    have htoken : token = pending := by
      unfold attachSigns at ht
      split at ht
      · simp at ht
      · exact List.mem_singleton.mp ht
    subst htoken
    obtain ⟨lead, he, -⟩ : ∃ lead, ([] : List Char) = lead ++ (splitSign (token ++ [])).2 ∧ _ :=
      exists_signs_of_pending hp
    rw [List.append_nil] at he
    exact absurd (List.append_eq_nil_iff.mp he.symm).2 hne
  | word :: ws, pending, token, hp, ht, hne => by
    unfold attachSigns at ht
    split at ht
    next hs =>
      obtain ⟨w, hw, hlead⟩ := exists_word_of_token (.inr hs) ht hne
      exact ⟨w, List.mem_cons_of_mem _ hw, hlead⟩
    next =>
      rcases List.mem_cons.mp ht with rfl | ht
      · exact ⟨word, by simp, exists_signs_of_pending hp⟩
      · obtain ⟨w, hw, hlead⟩ := exists_word_of_token (.inl rfl) ht hne
        exact ⟨w, List.mem_cons_of_mem _ hw, hlead⟩

end VersionPick.Range
