/-
How cutting and joining texts go together, beyond what the library says of
`List.splitOn` and `List.intercalate`: a piece has no separator in it
(`not_mem_of_mem_splitOn`), every character stands in a piece (`mem_splitOn`),
and texts side by side share a piece (`exists_splitOnP_append`). Words come off
in front (`words_append`).

Doubled separators with a blank on either side separate whatever stands around
them (`words_splitOnPair_append`): a separator of the texts on the sides cannot
reach across a blank.
-/
import Mathlib.Data.List.Basic
import VersionPick.Text.Blank

namespace VersionPick.Text

/-! ## Pieces between separators -/

theorem intercalate_concat (sep last : List Char) (pieces : List (List Char)) :
    List.intercalate sep (pieces ++ [last]) = pieces.flatMap (· ++ sep) ++ last := by
  induction pieces with
  | nil => simp
  | cons piece pieces ih =>
    rw [List.cons_append, List.intercalate_cons_of_ne_nil (by simp), ih, List.flatMap_cons]
    simp only [List.append_assoc]

theorem mem_intercalate {sep : List Char} {c : Char} :
    ∀ {pieces : List (List Char)}, c ∈ List.intercalate sep pieces → c ∈ sep ∨ ∃ piece ∈ pieces, c ∈ piece
  | [], h => by simp at h
  | [piece], h => .inr ⟨piece, by simp, by simpa using h⟩
  | piece :: next :: pieces, h => by
    simp only [List.intercalate_cons_cons, List.mem_append] at h
    rcases h with (h | h) | h
    · exact .inr ⟨piece, by simp, h⟩
    · exact .inl h
    · rcases mem_intercalate h with h | ⟨p, hp, h⟩
      · exact .inl h
      · exact .inr ⟨p, List.mem_cons_of_mem _ hp, h⟩

/-- A character of a text is the separator or stands in a piece. -/
theorem mem_splitOn (sep : Char) {c : Char} {cs : List Char} (h : c ∈ cs) :
    c = sep ∨ ∃ piece ∈ List.splitOn sep cs, c ∈ piece := by
  have htext : List.intercalate [sep] (List.splitOn sep cs) = cs := List.intercalate_splitOn sep
  rw [← htext] at h
  simpa using mem_intercalate h

/-- A text without separator is put in front of the first piece. -/
theorem splitOnP_append_of_forall {sep : Char → Bool} {ds first : List Char} {more : List (List Char)}
    (hds : List.splitOnP sep ds = first :: more) : ∀ {cs : List Char}, (∀ c ∈ cs, sep c = false) →
      List.splitOnP sep (cs ++ ds) = (cs ++ first) :: more
  | [], _ => hds
  | c :: cs, h => by
    have hc : sep c = false := h c (by simp)
    have ih : List.splitOnP sep (cs ++ ds) = (cs ++ first) :: more :=
      splitOnP_append_of_forall hds fun d hd => h d (by simp [hd])
    simp [List.splitOnP_cons_eq_if_modifyHead, hc, ih]

/-- Side by side, the last piece of one text and the first of the other are
one. -/
theorem exists_splitOnP_append (sep : Char → Bool) : ∀ cs : List Char,
    ∃ front last, List.splitOnP sep cs = front ++ [last] ∧
      ∀ {ds first more}, List.splitOnP sep ds = first :: more →
        List.splitOnP sep (cs ++ ds) = front ++ (last ++ first) :: more
  | [] => ⟨[], [], List.splitOnP_nil, fun h => h⟩
  | c :: cs => by
    obtain ⟨front, last, hcs, hrest⟩ := exists_splitOnP_append sep cs
    simp only [List.cons_append, List.splitOnP_cons_eq_if_modifyHead]
    by_cases hc : sep c = true
    · exact ⟨[] :: front, last, by simp [hc, hcs], fun h => by simp [hc, hrest h]⟩
    · cases front with
      | nil => exact ⟨[], c :: last, by simp [hc, hcs], fun h => by simp [hc, hrest h]⟩
      | cons piece front =>
        exact ⟨(c :: piece) :: front, last, by simp [hc, hcs], fun h => by simp [hc, hrest h]⟩

theorem sep_of_mem_splitOnP {sep : Char → Bool} : ∀ {cs piece : List Char}, piece ∈ List.splitOnP sep cs →
    ∀ c ∈ piece, sep c = false ∧ c ∈ cs
  | [], piece, h => by
    obtain rfl : piece = [] := by simpa using h
    simp
  | d :: cs, piece, h => by
    have ih : ∀ {piece}, piece ∈ List.splitOnP sep cs → ∀ c ∈ piece, sep c = false ∧ c ∈ cs :=
      sep_of_mem_splitOnP
    have hcs : ∀ {piece}, piece ∈ List.splitOnP sep cs → ∀ c ∈ piece, sep c = false ∧ c ∈ d :: cs :=
      fun h c hc => (ih h c hc).imp_right (List.mem_cons_of_mem d)
    rw [List.splitOnP_cons_eq_if_modifyHead] at h
    split at h
    next =>
      rcases List.mem_cons.mp h with rfl | h
      · simp
      · exact hcs h
    next hd =>
      obtain ⟨first, rest, hsplit⟩ := List.exists_cons_of_ne_nil (List.splitOnP_ne_nil sep cs)
      rw [hsplit] at h hcs
      rcases List.mem_cons.mp h with rfl | h
      · intro c hc
        rcases List.mem_cons.mp hc with rfl | hc
        · exact ⟨by simpa using hd, by simp⟩
        · exact hcs (by simp) c hc
      · exact hcs (by simp [h])

theorem not_mem_of_mem_splitOn {sep : Char} {cs piece : List Char} (h : piece ∈ List.splitOn sep cs) :
    sep ∉ piece := by
  intro hsep
  exact absurd (sep_of_mem_splitOnP h sep hsep).1 (by simp)

theorem exists_mem_splitOnP {sep : Char → Bool} {c : Char} (hc : sep c = false) :
    ∀ {cs : List Char}, c ∈ cs → ∃ piece ∈ List.splitOnP sep cs, c ∈ piece
  | d :: cs, h => by
    obtain ⟨first, rest, hsplit⟩ := List.exists_cons_of_ne_nil (List.splitOnP_ne_nil sep cs)
    rw [List.splitOnP_cons_eq_if_modifyHead]
    rcases List.mem_cons.mp h with rfl | h
    · exact ⟨c :: first, by simp [hc, hsplit], by simp⟩
    · have ih : ∃ piece ∈ List.splitOnP sep cs, c ∈ piece := exists_mem_splitOnP hc h
      obtain ⟨piece, hp, hm⟩ := ih
      split
      · exact ⟨piece, by simp [hp], hm⟩
      · rw [hsplit] at hp ⊢
        rcases List.mem_cons.mp hp with rfl | hp
        · exact ⟨d :: piece, by simp, by simp [hm]⟩
        · exact ⟨piece, by simp [hp], hm⟩

/-! ## Pieces between doubled separators -/

theorem splitOnPair_of_not_mem {sep : Char} : ∀ {cs : List Char}, sep ∉ cs → splitOnPair sep cs = [cs]
  | [], _ => rfl
  | [_], _ => rfl
  | c :: d :: cs, h => by
    simp only [List.mem_cons, not_or] at h
    have hc : (c == sep) = false := by simpa using Ne.symm h.1
    have ih : splitOnPair sep (d :: cs) = [d :: cs] := splitOnPair_of_not_mem (by simpa using h.2)
    simp [splitOnPair, hc, ih]

theorem splitOnPair_of_not_infix {sep : Char} : ∀ {cs : List Char}, ¬ [sep, sep] <:+: cs → splitOnPair sep cs = [cs]
  | [], _ => rfl
  | [_], _ => rfl
  | c :: d :: cs, h => by
    have hpair : ¬ (c == sep && d == sep) = true := by
      intro he
      simp only [Bool.and_eq_true, beq_iff_eq] at he
      obtain ⟨rfl, rfl⟩ := he
      exact h ⟨[], cs, rfl⟩
    have ih : splitOnPair sep (d :: cs) = [d :: cs] :=
      splitOnPair_of_not_infix fun hi => h (hi.trans (List.suffix_cons c _).isInfix)
    rw [splitOnPair, if_neg hpair, ih, List.modifyHead_cons]

theorem pair_not_infix_cons {sep c : Char} (hc : c ≠ sep) {cs : List Char} (h : ¬ [sep, sep] <:+: cs) :
    ¬ [sep, sep] <:+: c :: cs := by
  rw [List.infix_cons_iff, not_or]
  exact ⟨fun hp => hc (List.cons_prefix_cons.mp hp).1.symm, h⟩

theorem pair_not_infix_of_not_mem {sep : Char} {ds : List Char} (hds : ¬ [sep, sep] <:+: ds) :
    ∀ {cs : List Char}, sep ∉ cs → ¬ [sep, sep] <:+: cs ++ ds
  | [], _ => hds
  | c :: cs, h => by
    rw [List.mem_cons, not_or] at h
    exact pair_not_infix_cons (Ne.symm h.1) (pair_not_infix_of_not_mem hds h.2)

/-- A doubled separator cannot reach across another character. -/
theorem pair_not_infix_append {sep b : Char} (hb : b ≠ sep) {ds : List Char} (hds : ¬ [sep, sep] <:+: ds) :
    ∀ {cs : List Char}, ¬ [sep, sep] <:+: cs → ¬ [sep, sep] <:+: cs ++ b :: ds
  | [], _ => pair_not_infix_cons hb hds
  | c :: cs, h => by
    rw [List.infix_cons_iff, not_or] at h
    have ih : ¬ [sep, sep] <:+: cs ++ b :: ds := pair_not_infix_append hb hds h.2
    rw [List.cons_append, List.infix_cons_iff, not_or]
    refine ⟨fun hp => h.1 ?_, ih⟩
    obtain ⟨rfl, hnext⟩ := List.cons_prefix_cons.mp hp
    cases cs with
    | nil => exact absurd (List.cons_prefix_cons.mp hnext).1.symm hb
    | cons d cs => simp [(List.cons_prefix_cons.mp hnext).1]

theorem splitOnPair_ne_nil (sep : Char) : ∀ cs, splitOnPair sep cs ≠ []
  | [] => by simp [splitOnPair]
  | [_] => by simp [splitOnPair]
  | c :: d :: cs => by
    simp only [splitOnPair]
    split
    · simp
    · exact mt List.modifyHead_eq_nil_iff.mp (splitOnPair_ne_nil sep _)

theorem splitOnPair_cons {sep c : Char} (h : c ≠ sep) (cs : List Char) :
    splitOnPair sep (c :: cs) = (splitOnPair sep cs).modifyHead (c :: ·) := by
  cases cs with
  | nil => rfl
  | cons d cs => simp [splitOnPair, h]

theorem modifyHead_append {f : List Char → List Char} {pieces : List (List Char)} (h : pieces ≠ [])
    (more : List (List Char)) : (pieces ++ more).modifyHead f = pieces.modifyHead f ++ more := by
  cases pieces with
  | nil => exact absurd rfl h
  | cons => rfl

/-- At a doubled separator the pieces in front and the pieces behind part, if
those in front have no separator left in them that could go with it. -/
theorem splitOnPair_append_sep {sep : Char} (ds : List Char) : ∀ {cs : List Char},
    (∀ piece ∈ splitOnPair sep cs, sep ∉ piece) →
      splitOnPair sep (cs ++ sep :: sep :: ds) = splitOnPair sep cs ++ splitOnPair sep ds
  | [], _ => by simp [splitOnPair]
  | [c], h => by
    have hc : c ≠ sep := by simpa [splitOnPair, eq_comm] using h
    simp [splitOnPair, hc]
  | c :: d :: cs, h => by
    simp only [splitOnPair, List.cons_append] at h ⊢
    split
    next hpair =>
      rw [if_pos hpair] at h
      rw [splitOnPair_append_sep ds fun piece hp => h piece (List.mem_cons_of_mem _ hp), List.cons_append]
    next hpair =>
      rw [if_neg hpair] at h
      have hrest : ∀ piece ∈ splitOnPair sep (d :: cs), sep ∉ piece := by
        obtain ⟨first, more, hsplit⟩ := List.exists_cons_of_ne_nil (splitOnPair_ne_nil sep (d :: cs))
        rw [hsplit, List.modifyHead_cons, List.forall_mem_cons] at h
        rw [hsplit, List.forall_mem_cons]
        exact ⟨fun hm => h.1 (List.mem_cons_of_mem c hm), h.2⟩
      rw [← List.cons_append, splitOnPair_append_sep ds hrest, modifyHead_append (splitOnPair_ne_nil sep _)]

/-- Pieces without the separator come back from the text that joins them with
doubled ones. -/
theorem splitOnPair_intercalate {sep : Char} : ∀ {pieces : List (List Char)}, pieces ≠ [] →
    (∀ piece ∈ pieces, sep ∉ piece) → splitOnPair sep (List.intercalate [sep, sep] pieces) = pieces
  | [], hne, _ => absurd rfl hne
  | [piece], _, h => by simpa using splitOnPair_of_not_mem (h piece (by simp))
  | piece :: next :: pieces, _, h => by
    have hpiece : splitOnPair sep piece = [piece] := splitOnPair_of_not_mem (h piece (by simp))
    have ih : splitOnPair sep (List.intercalate [sep, sep] (next :: pieces)) = next :: pieces :=
      splitOnPair_intercalate (by simp) fun p hp => h p (by simp [hp])
    rw [List.intercalate_cons_cons, List.append_assoc, List.cons_append, List.singleton_append,
      splitOnPair_append_sep _ (by simpa [hpiece] using h piece (by simp)), ih, hpiece, List.singleton_append]

/-- A character other than the separator joins the last piece in front of it
and the first piece behind it. -/
theorem splitOnPair_append {sep b : Char} (hb : b ≠ sep) : ∀ cs : List Char,
    ∃ front last, splitOnPair sep cs = front ++ [last] ∧
      ∀ rest first more, splitOnPair sep rest = first :: more →
        splitOnPair sep (cs ++ b :: rest) = front ++ (last ++ b :: first) :: more
  | [] => ⟨[], [], rfl, fun rest first more h => by simp [splitOnPair_cons hb, h]⟩
  | [c] => ⟨[], [c], rfl, fun rest first more h => by
      simp [splitOnPair, hb, splitOnPair_cons hb, h]⟩
  | c :: d :: cs => by
    by_cases hsep : (c == sep && d == sep) = true
    · obtain ⟨front, last, hcs, hrest⟩ := splitOnPair_append hb cs
      exact ⟨[] :: front, last, by simp [splitOnPair, hsep, hcs],
        fun rest first more h => by simp [splitOnPair, hsep, hrest rest first more h]⟩
    · obtain ⟨front, last, hcs, hrest⟩ := splitOnPair_append hb (d :: cs)
      cases front with
      | nil =>
        exact ⟨[], c :: last, by simp [splitOnPair, hsep, hcs], fun rest first more h => by
          have := hrest rest first more h
          simp only [List.cons_append] at this
          simp [splitOnPair, hsep, this]⟩
      | cons piece front =>
        exact ⟨(c :: piece) :: front, last, by simp [splitOnPair, hsep, hcs],
          fun rest first more h => by
            have := hrest rest first more h
            simp only [List.cons_append] at this
            simp [splitOnPair, hsep, this]⟩

theorem mem_of_mem_splitOnPair {sep : Char} : ∀ {cs piece : List Char}, piece ∈ splitOnPair sep cs →
    ∀ c ∈ piece, c ∈ cs
  | [], piece, h => by
    obtain rfl : piece = [] := by simpa [splitOnPair] using h
    simp
  | [d], piece, h => by
    obtain rfl : piece = [d] := by simpa [splitOnPair] using h
    simp
  | d :: e :: cs, piece, h => by
    simp only [splitOnPair] at h
    split at h
    next =>
      rcases List.mem_cons.mp h with rfl | h
      · simp
      · have ih : ∀ c ∈ piece, c ∈ cs := mem_of_mem_splitOnPair h
        exact fun c hc => List.mem_cons_of_mem d (List.mem_cons_of_mem e (ih c hc))
    next =>
      have ih : ∀ {piece}, piece ∈ splitOnPair sep (e :: cs) → ∀ c ∈ piece, c ∈ d :: e :: cs :=
        fun h c hc => List.mem_cons_of_mem d (mem_of_mem_splitOnPair h c hc)
      obtain ⟨first, rest, hsplit⟩ := List.exists_cons_of_ne_nil (splitOnPair_ne_nil sep (e :: cs))
      rw [hsplit] at h ih
      rcases List.mem_cons.mp h with rfl | h
      · intro c hc
        rcases List.mem_cons.mp hc with rfl | hc
        · simp
        · exact ih (by simp) c hc
      · exact ih (by simp [h])

/-- A text that is not cut is its only piece. -/
theorem splitOnPair_of_length {sep : Char} : ∀ {cs : List Char}, (splitOnPair sep cs).length = 1 →
    splitOnPair sep cs = [cs]
  | [], _ => rfl
  | [_], _ => rfl
  | c :: d :: cs, h => by
    simp only [splitOnPair] at h ⊢
    split at h
    next =>
      have := List.length_pos_iff.mpr (splitOnPair_ne_nil sep cs)
      rw [List.length_cons] at h
      omega
    next hc =>
      rw [List.length_modifyHead] at h
      have ih : splitOnPair sep (d :: cs) = [d :: cs] := splitOnPair_of_length h
      rw [if_neg hc, ih, List.modifyHead_cons]

/-! ## Cutting once -/

theorem cutAt_eq_none {sep : Char} : ∀ {cs : List Char}, cutAt sep cs = none ↔ sep ∉ cs
  | [] => by simp [cutAt]
  | c :: cs => by
    have ih : cutAt sep cs = none ↔ sep ∉ cs := cutAt_eq_none
    by_cases h : c = sep
    · simp [cutAt, h]
    · simp [cutAt, h, ih, Ne.symm h]

theorem cutAt_eq_some {sep : Char} {before behind : List Char} :
    ∀ {cs : List Char}, cutAt sep cs = some (before, behind) ↔ cs = before ++ sep :: behind ∧ sep ∉ before
  | [] => by simp [cutAt]
  | c :: cs => by
    by_cases h : c = sep
    · subst h
      cases before with
      | nil => simp [cutAt, eq_comm]
      | cons b before => simp +contextual [cutAt, eq_comm]
    · cases before with
      | nil => simp [cutAt, h]
      | cons b before =>
        have ih : cutAt sep cs = some (before, behind) ↔ cs = before ++ sep :: behind ∧ sep ∉ before :=
          cutAt_eq_some
        simp only [cutAt, beq_iff_eq, h, if_false, Option.map_eq_some_iff, Prod.exists,
          Prod.mk.injEq, List.cons.injEq, List.cons_append, List.mem_cons, not_or]
        constructor
        · intro h'
          obtain ⟨before', behind', hcut, ⟨rfl, rfl⟩, rfl⟩ := h'
          obtain ⟨rfl, hb⟩ := ih.mp hcut
          exact ⟨⟨rfl, rfl⟩, Ne.symm h, hb⟩
        · intro h'
          obtain ⟨⟨rfl, rfl⟩, -, hb⟩ := h'
          exact ⟨before, behind, ih.mpr ⟨rfl, hb⟩, ⟨rfl, rfl⟩, rfl⟩

theorem cutFirst_of_not_mem {sep : Char} {cs : List Char} (h : sep ∉ cs) : cutFirst sep cs = (cs, none) := by
  rw [cutFirst, cutAt_eq_none.mpr h]

/-- A text does not start with what has a character that it lacks. -/
theorem isPrefixOf?_eq_none_of_not_mem {lead text : List Char} {c : Char} (hc : c ∈ lead) (h : c ∉ text) :
    List.isPrefixOf? lead text = none := by
  rw [Option.eq_none_iff_forall_ne_some]
  intro rest hrest
  rw [← List.append_eq_of_isPrefixOf?_eq_some hrest] at h
  exact h (List.mem_append_left rest hc)

theorem isSuffixOf?_eq_none_of_not_mem {tail text : List Char} {c : Char} (hc : c ∈ tail) (h : c ∉ text) :
    List.isSuffixOf? tail text = none := by
  rw [List.isSuffixOf?, isPrefixOf?_eq_none_of_not_mem (List.mem_reverse.mpr hc) (mt List.mem_reverse.mp h),
    Option.map_none]

/-! ## Replacing a character -/

theorem mem_replace {a c : Char} {replacement cs : List Char} (hc : c ≠ a) (hr : c ∉ replacement) :
    c ∈ replace a replacement cs ↔ c ∈ cs := by
  simp only [replace, List.mem_flatMap, beq_iff_eq]
  constructor
  · intro h
    obtain ⟨d, hd, h⟩ := h
    split at h
    · exact absurd h hr
    · rwa [List.mem_singleton.mp h]
  · exact fun h => ⟨c, h, by simp [hc]⟩

theorem replace_of_not_mem {a : Char} (replacement : List Char) : ∀ {cs : List Char}, a ∉ cs →
    replace a replacement cs = cs
  | [], _ => rfl
  | c :: cs, h => by
    simp only [List.mem_cons, not_or] at h
    have ih : replace a replacement cs = cs := replace_of_not_mem replacement h.2
    have hc : (c == a) = false := by simpa using Ne.symm h.1
    rw [replace, List.flatMap_cons, hc, ← replace, ih]
    rfl

/-! ## Words -/

theorem words_of_no_blank {cs : List Char} (hne : cs ≠ []) (h : ∀ c ∈ cs, isBlank c = false) :
    words cs = [cs] := by
  rw [words, List.splitOnP_eq_singleton h]
  cases cs <;> simp_all

/-- A word comes off in front, with the blank behind it. -/
theorem words_append {word : List Char} {b : Char} (hne : word ≠ []) (h : ∀ c ∈ word, isBlank c = false)
    (hb : isBlank b = true) (cs : List Char) : words (word ++ b :: cs) = word :: words cs := by
  rw [words, List.splitOnP_append_cons_of_forall_mem h b hb, words]
  cases word <;> simp_all

/-- A text of one word. -/
def IsWord (word : List Char) : Prop := word ≠ [] ∧ ∀ c ∈ word, isBlank c = false

theorem isWord_of_mem_words {cs word : List Char} (h : word ∈ words cs) : IsWord word := by
  simp only [words, List.mem_filter, Bool.not_eq_true', List.isEmpty_eq_false_iff] at h
  exact ⟨h.2, fun c hc => (sep_of_mem_splitOnP h.1 c hc).1⟩

theorem words_of_isWord {word : List Char} (h : IsWord word) : words word = [word] :=
  words_of_no_blank h.1 h.2

theorem words_nil : words [] = [] := rfl

/-- A text without blanks is one word, if it is not empty. -/
theorem words_eq_of_no_blank {cs : List Char} (h : ∀ c ∈ cs, isBlank c = false) :
    words cs = [] ∨ IsWord cs ∧ words cs = [cs] := by
  by_cases hne : cs = []
  · exact .inl (by rw [hne, words_nil])
  · exact .inr ⟨⟨hne, h⟩, words_of_no_blank hne h⟩

theorem length_words_of_no_blank {cs : List Char} (h : ∀ c ∈ cs, isBlank c = false) : (words cs).length ≤ 1 := by
  rcases words_eq_of_no_blank h with h | ⟨-, h⟩ <;> simp [h]

/-- At a blank the words in front and the words behind part. -/
theorem words_append_blank {b : Char} (hb : isBlank b = true) (cs ds : List Char) :
    words (cs ++ b :: ds) = words cs ++ words ds := by
  simp only [words, List.splitOnP_append_cons cs ds hb, List.filter_append]

/-- A lone hyphen between blanks is a word of its own. -/
theorem words_hyphen (low high : List Char) :
    words (low ++ ' ' :: '-' :: ' ' :: high) = words low ++ ['-'] :: words high := by
  rw [words_append_blank (by decide), show '-' :: ' ' :: high = ['-'] ++ ' ' :: high from rfl,
    words_append_blank (by decide), show words ['-'] = [['-']] by decide, List.singleton_append]

theorem words_of_blank : ∀ {cs : List Char}, (∀ c ∈ cs, isBlank c = true) → words cs = []
  | [], _ => rfl
  | c :: cs, h => by
    have hc : isBlank c = true := h c (by simp)
    have ih : words cs = [] := words_of_blank fun d hd => h d (by simp [hd])
    simpa [ih, words_nil] using words_append_blank hc [] cs

/-- Blanks around a text make no difference to its words. -/
theorem words_pad {lead trail : List Char} (hl : ∀ c ∈ lead, isBlank c = true) (ht : ∀ c ∈ trail, isBlank c = true)
    (cs : List Char) : words (lead ++ cs ++ trail) = words cs := by
  have htrail : words (cs ++ trail) = words cs := by
    cases trail with
    | nil => rw [List.append_nil]
    | cons b bs =>
      have hbs : words bs = [] := words_of_blank fun c hc => ht c (by simp [hc])
      rw [words_append_blank (ht b (by simp)), hbs, List.append_nil]
  rw [List.append_assoc]
  induction lead with
  | nil => exact htrail
  | cons b bs ih =>
    have hb := words_append_blank (hl b (by simp)) [] (bs ++ (cs ++ trail))
    rw [words_nil, List.nil_append, List.nil_append] at hb
    rw [List.cons_append, hb, ih fun c hc => hl c (by simp [hc])]

/-- A run of blanks: at least one, and nothing else. -/
def IsBlankRun (run : List Char) : Prop := run ≠ [] ∧ ∀ c ∈ run, isBlank c = true

/-- A run of blanks parts words as one blank does. -/
theorem words_append_run {run : List Char} (h : IsBlankRun run) (cs ds : List Char) :
    words (cs ++ run ++ ds) = words cs ++ words ds := by
  obtain ⟨b, bs, rfl⟩ := List.exists_cons_of_ne_nil h.1
  have hbs : words (bs ++ ds ++ []) = words ds :=
    words_pad (fun c hc => h.2 c (List.mem_cons_of_mem b hc)) (by simp) ds
  rw [List.append_nil] at hbs
  rw [List.append_assoc, List.cons_append, words_append_blank (h.2 b (by simp)), hbs]

/-- Where no blank stands between two texts, the last word of the one and the
first of the other are one. -/
theorem exists_words_append {lead : List Char} (hne : lead ≠ []) (hlead : ∀ c ∈ lead, isBlank c = false) {d : Char}
    (hd : isBlank d = false) (cs ds : List Char) : ∃ front last first more,
      words (cs ++ lead) = front ++ [last ++ lead] ∧ words (d :: ds) = (d :: first) :: more ∧
        words (cs ++ lead ++ d :: ds) = front ++ (last ++ lead ++ d :: first) :: more := by
  obtain ⟨front, last, -, hrest⟩ := exists_splitOnP_append isBlank cs
  obtain ⟨first, more, hds⟩ := List.exists_cons_of_ne_nil (List.splitOnP_ne_nil isBlank ds)
  have hbehind : List.splitOnP isBlank (d :: ds) = (d :: first) :: more := by
    simp [List.splitOnP_cons_eq_if_modifyHead, hd, hds]
  have hboth := splitOnP_append_of_forall hbehind hlead
  refine ⟨front.filter (!·.isEmpty), last, first, more.filter (!·.isEmpty), ?_, ?_, ?_⟩
  · rw [words, hrest (List.splitOnP_eq_singleton hlead)]
    simp [hne]
  · simp [words, hbehind]
  · rw [words, List.append_assoc, hrest hboth]
    simp

/-- Words with a space between them come back from the text. -/
theorem words_intercalate : ∀ {ws : List (List Char)}, (∀ w ∈ ws, IsWord w) → words (List.intercalate [' '] ws) = ws
  | [], _ => rfl
  | [word], h => by simpa using words_of_isWord (h word (by simp))
  | word :: next :: ws, h => by
    have ih : words (List.intercalate [' '] (next :: ws)) = next :: ws :=
      words_intercalate fun w hw => h w (by simp [hw])
    rw [List.intercalate_cons_cons, List.append_assoc, List.singleton_append, words_append_blank (by decide), ih,
      words_of_isWord (h word (by simp)), List.singleton_append]

/-- A character other than a blank stands in a word. -/
theorem mem_words {cs : List Char} {c : Char} (hc : isBlank c = false) :
    c ∈ cs ↔ ∃ word ∈ words cs, c ∈ word := by
  constructor
  · intro h
    obtain ⟨piece, hp, h⟩ := exists_mem_splitOnP hc h
    have hne : piece.isEmpty = false := by simpa using List.ne_nil_of_mem h
    exact ⟨piece, List.mem_filter.mpr ⟨hp, by simp [hne]⟩, h⟩
  · intro h
    obtain ⟨word, hw, h⟩ := h
    exact (sep_of_mem_splitOnP (List.mem_filter.mp hw).1 c h).2

/-- A doubled separator between blanks: the words of the pieces on either side
are those of the texts there. -/
theorem words_splitOnPair_append {sep b : Char} (hsep : b ≠ sep) (hb : isBlank b = true) (cs ds : List Char) :
    (splitOnPair sep (cs ++ b :: sep :: sep :: b :: ds)).map words =
      (splitOnPair sep cs).map words ++ (splitOnPair sep ds).map words := by
  obtain ⟨front, last, hcs, hrest⟩ := splitOnPair_append hsep cs
  obtain ⟨first, more, hds⟩ := List.exists_cons_of_ne_nil (splitOnPair_ne_nil sep ds)
  have hbehind : splitOnPair sep (sep :: sep :: b :: ds) = [] :: (b :: first) :: more := by
    simp [splitOnPair, splitOnPair_cons hsep, hds]
  have hlast : words (last ++ [b]) = words last := by simp [words_append_blank hb, words_nil]
  have hfirst : words (b :: first) = words first := by
    simpa [words_nil] using words_append_blank hb [] first
  rw [hrest _ _ _ hbehind, hcs, hds]
  simp [hlast, hfirst]

/-! ## Blanks at the ends -/

theorem trim_of_no_blank {cs : List Char} (h : ∀ c ∈ cs, isBlank c = false) : trim cs = cs := by
  have hkeep : ∀ {ds : List Char}, (∀ d ∈ ds, isBlank d = false) → ds.dropWhile isBlank = ds := by
    intro ds hds
    cases ds with
    | nil => rfl
    | cons d ds => exact List.dropWhile_cons_of_neg (by simp [hds d (by simp)])
  have hreverse : ∀ c ∈ cs.reverse, isBlank c = false := fun c hc => h c (List.mem_reverse.mp hc)
  rw [trim, trimEnd, hkeep h, hkeep hreverse, List.reverse_reverse]

theorem trimEnd_cons {c : Char} (h : isBlank c = false) (cs : List Char) :
    trimEnd (c :: cs) = c :: trimEnd cs := by
  simp only [trimEnd, List.reverse_cons, List.dropWhile_append]
  split <;> simp_all

theorem trim_cons {c : Char} (h : isBlank c = false) (cs : List Char) : trim (c :: cs) = c :: trimEnd cs := by
  rw [trim, List.dropWhile_cons_of_neg (by simp [h]), trimEnd_cons h]

theorem trim_eq_trimEnd {c : Char} (h : isBlank c = false) (cs : List Char) : trim (c :: cs) = trimEnd (c :: cs) := by
  rw [trim_cons h, trimEnd_cons h]

/-- What stands in front of a character that is no blank stays. -/
theorem trimEnd_append_cons {c : Char} (h : isBlank c = false) (cs ds : List Char) :
    trimEnd (cs ++ c :: ds) = cs ++ c :: trimEnd ds := by
  simp only [trimEnd, List.reverse_append, List.reverse_cons, List.append_assoc, List.singleton_append]
  rw [List.dropWhile_append]
  split
  next hnil => simp_all
  next => simp

theorem trimEnd_append_blanks {cs blanks : List Char} (h : ∀ c ∈ blanks, isBlank c = true) :
    trimEnd (cs ++ blanks) = trimEnd cs := by
  rw [trimEnd, List.reverse_append, List.dropWhile_append_of_pos fun c hc => h c (List.mem_reverse.mp hc), trimEnd]

/-- A text that ends without a blank ends there. -/
theorem trimEnd_append {ds : List Char} (hne : ds ≠ []) (h : ∀ d ∈ ds, isBlank d = false) (cs : List Char) :
    trimEnd (cs ++ ds) = cs ++ ds := by
  have hlast : isBlank (ds.getLast hne) = false := h _ (List.getLast_mem hne)
  have hsplit : cs ++ ds = (cs ++ ds.dropLast) ++ ds.getLast hne :: [] := by
    rw [List.append_assoc, List.dropLast_concat_getLast]
  rw [hsplit, trimEnd_append_cons hlast]
  rfl

theorem trim_blanks_append {blanks cs : List Char} (h : ∀ c ∈ blanks, isBlank c = true) :
    trim (blanks ++ cs) = trim cs := by
  rw [trim, List.dropWhile_append_of_pos h, trim]

theorem trim_append_blanks {cs blanks : List Char} (h : ∀ c ∈ blanks, isBlank c = true) :
    trim (cs ++ blanks) = trim cs := by
  have hblanks : blanks.dropWhile isBlank = [] := by
    rw [← List.append_nil blanks, List.dropWhile_append_of_pos h, List.dropWhile_nil]
  rw [trim, trim, List.dropWhile_append]
  split
  next hnil => rw [hblanks, List.isEmpty_iff.mp hnil]
  next => exact trimEnd_append_blanks h

theorem trim_pad {before behind : List Char} (hbefore : ∀ c ∈ before, isBlank c = true)
    (hbehind : ∀ c ∈ behind, isBlank c = true) (cs : List Char) : trim (before ++ cs ++ behind) = trim cs := by
  rw [List.append_assoc, trim_blanks_append hbefore, trim_append_blanks hbehind]

end VersionPick.Text
