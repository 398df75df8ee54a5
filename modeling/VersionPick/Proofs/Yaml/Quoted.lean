/-
The text inside YAML quotes, decoded. Between double quotes each character may
be written in several ways, and lines may be broken in between (`Spells`); all
these spellings are decoded to the text (`unescape?_exact`). A text is refused
exactly if it goes well up to a backslash, piece by piece, and what follows
that backslash is no escape (`Faulty`).

The decoder goes over a text character by character, the statements over its
pieces: a raw character, an escape, an escaped line end. The blanks behind a
line end are the one place where these differ, for they are dropped there and
stand for themselves elsewhere; that matters to the text (`unescapeFrom_lineStart`),
but not to whether there is one (`unescapeFrom_lineStart_eq_none`).
-/
import VersionPick.Yaml.Gap
import VersionPick.Yaml.Quoted
import VersionPick.Text.Pieces
import VersionPick.Proofs.Text.Hex
import VersionPick.Proofs.Traverse

namespace VersionPick.Yaml

open Text Hex

/-! ## Spellings -/

/-- The letters of the escapes by number, each with the count of its digits. -/
def numberWidths : List (Char × Nat) := [('x', 2), ('u', 4), ('U', 8)]

/-- The written forms of a character. That a raw double quote would end the
text is no matter of the decoder. -/
inductive Form : Char → List Char → Prop
  | raw {c : Char} (h : c ≠ '\\') : Form c [c]
  | named {name c : Char} (h : (name, c) ∈ namedEscapes) : Form c ['\\', name]
  | number {letter c : Char} {digits : List Char} (hwidth : (letter, digits.length) ∈ numberWidths)
    (h : Writes digits c.toNat) : Form c ('\\' :: letter :: digits)

/-- A text and what may be written for it between double quotes. Behind an
escaped line end a blank would be dropped, so it cannot be raw there. -/
inductive Spells : List Char → List Char → Prop
  | nil : Spells [] []
  | char {c : Char} {form text written : List Char} (hform : Form c form) (h : Spells text written) :
    Spells (c :: text) (form ++ written)
  | lineEnd {blanks text written : List Char} (hblanks : ∀ b ∈ blanks, b = ' ' ∨ b = '\t')
    (hnext : ∀ c ∈ written.head?, c ≠ ' ' ∧ c ≠ '\t') (h : Spells text written) :
    Spells text ('\\' :: '\n' :: (blanks ++ written))

/-! ## Faults -/

/-- A part of a text that is complete in itself. -/
inductive Piece : List Char → Prop
  | form {c : Char} {written : List Char} (h : Form c written) : Piece written
  | lineEnd : Piece ['\\', '\n']

/-- What may not follow the backslash of an escape. -/
inductive Faulty : List Char → Prop
  | nothing : Faulty []
  | unknown {c : Char} {rest : List Char} (hnamed : ∀ d, (c, d) ∉ namedEscapes)
    (hnumber : ∀ width, (c, width) ∉ numberWidths) (hline : c ≠ '\n') : Faulty (c :: rest)
  | fewDigits {letter : Char} {width : Nat} {rest : List Char} (hwidth : (letter, width) ∈ numberWidths)
    (h : rest.length < width) : Faulty (letter :: rest)
  | noDigit {letter c : Char} {width : Nat} {rest : List Char} (hwidth : (letter, width) ∈ numberWidths)
    (hc : c ∈ rest.take width) (h : ∀ v, (c, v) ∉ digitValues) : Faulty (letter :: rest)
  | noScalar {letter : Char} {digits rest : List Char} {n : Nat} (hwidth : (letter, digits.length) ∈ numberWidths)
    (hdigits : Writes digits n) (h : ¬ n.isValidChar) : Faulty (letter :: (digits ++ rest))

/-! ## Names of escapes -/

theorem ofChar?_named {name c : Char} (h : (name, c) ∈ namedEscapes) : Escape.ofChar? name = some (.char c) := by
  have hall : ∀ p ∈ namedEscapes, Escape.ofChar? p.1 = some (.char p.2) := by decide
  exact hall _ h

theorem ofChar?_number {letter : Char} {width : Nat} (h : (letter, width) ∈ numberWidths) :
    Escape.ofChar? letter = some (.number width) := by
  have hall : ∀ p ∈ numberWidths, Escape.ofChar? p.1 = some (.number p.2) := by decide
  exact hall _ h

theorem ofChar?_eq_some {c : Char} {e : Escape} (h : Escape.ofChar? c = some e) :
    (∃ d, e = .char d ∧ (c, d) ∈ namedEscapes) ∨ (∃ width, e = .number width ∧ (c, width) ∈ numberWidths) ∨
    (e = .lineBreak ∧ c = '\n') := by
  unfold Escape.ofChar? at h
  split at h
  · exact .inr (.inl ⟨2, (Option.some.inj h).symm, by decide⟩)
  · exact .inr (.inl ⟨4, (Option.some.inj h).symm, by decide⟩)
  · exact .inr (.inl ⟨8, (Option.some.inj h).symm, by decide⟩)
  · exact .inr (.inr ⟨(Option.some.inj h).symm, rfl⟩)
  · obtain ⟨d, hd, rfl⟩ := Option.map_eq_some_iff.mp h
    obtain ⟨front, behind, he, -⟩ := List.lookup_eq_some_iff.mp hd
    exact .inl ⟨d, rfl, by simp [he]⟩

theorem faulty_of_ofChar?_eq_none {c : Char} (h : Escape.ofChar? c = none) (rest : List Char) : Faulty (c :: rest) := by
  refine .unknown (fun d hd => ?_) (fun width hwidth => ?_) ?_
  · rw [ofChar?_named hd] at h
    cases h
  · rw [ofChar?_number hwidth] at h
    cases h
  · rintro rfl
    cases h

theorem width_pos {letter : Char} {width : Nat} (h : (letter, width) ∈ numberWidths) : 0 < width := by
  have hall : ∀ p ∈ numberWidths, 0 < p.2 := by decide
  exact hall _ h

/-! ## Steps -/

theorem unescapeFrom_plain_cons (c : Char) (rest : List Char) : unescapeFrom .plain (c :: rest) =
    if c == '\\' then unescapeFrom .escape rest else (unescapeFrom .plain rest).map (c :: ·) := rfl

theorem unescapeFrom_lineStart_cons (c : Char) (rest : List Char) : unescapeFrom .lineStart (c :: rest) =
    if isInlineBlank c then unescapeFrom .lineStart rest else unescapeFrom .plain (c :: rest) := rfl

theorem unescapeFrom_escape_cons (c : Char) (rest : List Char) : unescapeFrom .escape (c :: rest) =
    match Escape.ofChar? c with
    | some (.char d) => (unescapeFrom .plain rest).map (d :: ·)
    | some (.number (left + 1)) => unescapeFrom (.digits left 0) rest
    | some (.number 0) => none
    | some .lineBreak => unescapeFrom .lineStart rest
    | none => none := rfl

theorem unescapeFrom_digits_cons (left soFar : Nat) (c : Char) (rest : List Char) :
    unescapeFrom (.digits left soFar) (c :: rest) = (digit? c).bind fun v =>
      match left with
      | left + 1 => unescapeFrom (.digits left (16 * soFar + v)) rest
      | 0 => (scalar? (16 * soFar + v)).bind fun d => (unescapeFrom .plain rest).map (d :: ·) := by
  simp only [unescapeFrom]
  cases digit? c with
  | none => rfl
  | some v =>
    cases left with
    | zero =>
      simp only [Option.bind_some]
      cases scalar? (16 * soFar + v) <;> rfl
    | succ left => rfl

/-! ## Reading a piece -/

theorem unescapeFrom_raw {c : Char} (h : c ≠ '\\') (rest : List Char) :
    unescapeFrom .plain (c :: rest) = (unescapeFrom .plain rest).map (c :: ·) := by
  rw [unescapeFrom_plain_cons, if_neg (by simpa using h)]

theorem unescapeFrom_slash (rest : List Char) : unescapeFrom .plain ('\\' :: rest) = unescapeFrom .escape rest :=
  rfl

theorem unescapeFrom_lineEnd (rest : List Char) :
    unescapeFrom .plain ('\\' :: '\n' :: rest) = unescapeFrom .lineStart rest := rfl

theorem unescapeFrom_letter {letter : Char} {width : Nat} (h : (letter, width) ∈ numberWidths) (rest : List Char) :
    unescapeFrom .escape (letter :: rest) = unescapeFrom (.digits (width - 1) 0) rest := by
  obtain ⟨left, rfl⟩ := Nat.exists_eq_add_of_lt (width_pos h)
  simp [unescapeFrom_escape_cons, ofChar?_number h]

/-- Digits are read up to the last, and then their number names a character. -/
theorem unescapeFrom_digits {digits : List Char} {values : List Nat} (h : Values digits values) (rest : List Char) :
    ∀ {left : Nat}, digits.length = left + 1 → ∀ soFar : Nat, unescapeFrom (.digits left soFar) (digits ++ rest) =
      (scalar? (soFar * 16 ^ values.length + Nat.ofDigits 16 values.reverse)).bind fun c =>
        (unescapeFrom .plain rest).map (c :: ·) := by
  induction h with
  | nil => exact fun hlength => absurd hlength (by simp)
  | @cons d v digits values hd hdigits ih =>
    intro left hlength soFar
    rw [ofDigits_reverse_cons, List.cons_append]
    cases left with
    | zero =>
      obtain rfl : digits = [] := by simpa using hlength
      obtain rfl := List.forall₂_nil_left_iff.mp hdigits
      rw [unescapeFrom_digits_cons, digit?_eq_some.mpr hd, List.length_nil, Nat.pow_zero, Nat.mul_one,
        List.reverse_nil, Nat.ofDigits_nil, Nat.add_zero]
      rfl
    | succ left =>
      rw [← ih (by simpa using hlength) (16 * soFar + v)]
      rw [unescapeFrom_digits_cons, digit?_eq_some.mpr hd, Option.bind_some]

theorem unescapeFrom_numeral {digits : List Char} {n left : Nat} (h : Writes digits n)
    (hlength : digits.length = left + 1)
    (rest : List Char) : unescapeFrom (.digits left 0) (digits ++ rest) =
      (scalar? n).bind fun c => (unescapeFrom .plain rest).map (c :: ·) := by
  obtain ⟨values, hvalues, rfl⟩ := h
  rw [unescapeFrom_digits hvalues rest hlength, Nat.zero_mul, Nat.zero_add]

/-- A form is decoded to its character, whatever follows. -/
theorem Form.unescapeFrom_append {c : Char} {form : List Char} (h : Form c form) (rest : List Char) :
    unescapeFrom .plain (form ++ rest) = (unescapeFrom .plain rest).map (c :: ·) := by
  cases h with
  | raw h => exact unescapeFrom_raw h rest
  | named h =>
    simp only [List.cons_append, List.nil_append, unescapeFrom_slash, unescapeFrom_escape_cons, ofChar?_named h]
  | number hwidth h =>
    rw [List.cons_append, List.cons_append, unescapeFrom_slash, unescapeFrom_letter hwidth,
      unescapeFrom_numeral h (Nat.sub_add_cancel (width_pos hwidth)).symm, scalar?_toNat, Option.bind_some]

/-! ### Blanks behind a line end -/

theorem unescapeFrom_lineStart : ∀ rest : List Char,
    unescapeFrom .lineStart rest = unescapeFrom .plain (rest.dropWhile isInlineBlank)
  | [] => rfl
  | c :: rest => by
    by_cases hblank : isInlineBlank c = true
    · rw [unescapeFrom_lineStart_cons, if_pos hblank, List.dropWhile_cons_of_pos hblank, unescapeFrom_lineStart rest]
    · rw [unescapeFrom_lineStart_cons, if_neg hblank, List.dropWhile_cons_of_neg hblank]

/-- Whether there is a text does not depend on the blanks. -/
theorem unescapeFrom_lineStart_eq_none : ∀ {rest : List Char},
    unescapeFrom .lineStart rest = none ↔ unescapeFrom .plain rest = none
  | [] => Iff.rfl
  | c :: rest => by
    by_cases hblank : isInlineBlank c = true
    · have hslash : c ≠ '\\' := by
        rintro rfl
        cases hblank
      rw [unescapeFrom_lineStart_cons, if_pos hblank, unescapeFrom_raw hslash, Option.map_eq_none_iff,
        unescapeFrom_lineStart_eq_none]
    · rw [unescapeFrom_lineStart_cons, if_neg hblank]

/-! ## What decides the outcome -/

theorem unescape?_of_spells {text written : List Char} (h : Spells text written) : unescape? written = some text := by
  unfold unescape?
  induction h with
  | nil => rfl
  | char hform _ ih => rw [hform.unescapeFrom_append, ih, Option.map_some]
  | @lineEnd blanks text written hblanks hnext _ ih =>
    have hdrop : (blanks ++ written).dropWhile isInlineBlank = written := by
      rw [List.dropWhile_append_of_pos fun b hb => by simpa [isInlineBlank] using hblanks b hb]
      cases written with
      | nil => rfl
      | cons c rest => exact List.dropWhile_cons_of_neg (by simpa [isInlineBlank] using hnext c rfl)
    rw [unescapeFrom_lineEnd, unescapeFrom_lineStart, hdrop, ih]

/-- A complete part of a text is passed over. -/
theorem Piece.unescapeFrom_append_eq_none {piece : List Char} (h : Piece piece) (rest : List Char) :
    unescapeFrom .plain (piece ++ rest) = none ↔ unescapeFrom .plain rest = none := by
  cases h with
  | form h => rw [h.unescapeFrom_append, Option.map_eq_none_iff]
  | lineEnd =>
    rw [List.cons_append, List.cons_append, List.nil_append, unescapeFrom_lineEnd]
    exact unescapeFrom_lineStart_eq_none

/-- A numeral stops at the end of the text and at what is no digit. -/
theorem unescapeFrom_digits_eq_none : ∀ {left : Nat} {rest : List Char} (soFar : Nat),
    (rest.length < left + 1 ∨ ∃ c ∈ rest.take (left + 1), ∀ v, (c, v) ∉ digitValues) →
    unescapeFrom (.digits left soFar) rest = none
  | _, [], _, _ => rfl
  | left, c :: rest, soFar, h => by
    cases hc : digit? c with
    | none => rw [unescapeFrom_digits_cons, hc, Option.bind_none]
    | some v =>
      have hmem := digit?_eq_some.mp hc
      cases left with
      | zero =>
        exfalso
        rcases h with h | ⟨d, hd, hno⟩
        · simp at h
        · obtain rfl : d = c := by simpa using hd
          exact hno v hmem
      | succ left =>
        rw [unescapeFrom_digits_cons, hc, Option.bind_some]
        refine unescapeFrom_digits_eq_none (16 * soFar + v) ?_
        rcases h with h | ⟨d, hd, hno⟩
        · exact .inl (by simpa using h)
        · rw [List.take_succ_cons, List.mem_cons] at hd
          rcases hd with rfl | hd
          · exact absurd hmem (hno v)
          · exact .inr ⟨d, hd, hno⟩

theorem Faulty.unescapeFrom_eq_none {after : List Char} (h : Faulty after) : unescapeFrom .escape after = none := by
  cases h with
  | nothing => rfl
  | @unknown c rest hnamed hnumber hline =>
    cases he : Escape.ofChar? c with
    | none => rw [unescapeFrom_escape_cons, he]
    | some e =>
      rcases ofChar?_eq_some he with ⟨d, -, hd⟩ | ⟨width, -, hwidth⟩ | ⟨-, rfl⟩
      · exact absurd hd (hnamed d)
      · exact absurd hwidth (hnumber width)
      · exact absurd rfl hline
  | fewDigits hwidth h =>
    rw [unescapeFrom_letter hwidth]
    refine unescapeFrom_digits_eq_none 0 (.inl ?_)
    rwa [Nat.sub_add_cancel (width_pos hwidth)]
  | noDigit hwidth hc h =>
    rw [unescapeFrom_letter hwidth]
    refine unescapeFrom_digits_eq_none 0 (.inr ⟨_, ?_, h⟩)
    rwa [Nat.sub_add_cancel (width_pos hwidth)]
  | noScalar hwidth hdigits h =>
    rw [unescapeFrom_letter hwidth, unescapeFrom_numeral hdigits (Nat.sub_add_cancel (width_pos hwidth)).symm,
      scalar?_eq_none.mpr h, Option.bind_none]

/-! ## What a refusal shows -/

theorem exists_writes {digits : List Char} (h : ∀ c ∈ digits, ∃ v, (c, v) ∈ digitValues) : ∃ n, Writes digits n := by
  obtain ⟨values, hvalues⟩ := exists_forall₂.mpr h
  exact ⟨_, values, hvalues, rfl⟩

/-- The digits of an escape by number are complete, or they are at fault. -/
theorem piece_or_faulty_of_letter {letter : Char} {width : Nat} (hwidth : (letter, width) ∈ numberWidths)
    (rest : List Char) : (∃ digits more, rest = digits ++ more ∧ Piece ('\\' :: letter :: digits)) ∨
      Faulty (letter :: rest) := by
  by_cases hlength : rest.length < width
  · exact .inr (.fewDigits hwidth hlength)
  by_cases hall : ∀ c ∈ rest.take width, ∃ v, (c, v) ∈ digitValues
  · obtain ⟨n, hn⟩ := exists_writes hall
    have htake : (rest.take width).length = width := List.length_take_of_le (Nat.le_of_not_lt hlength)
    rw [← htake] at hwidth
    by_cases hvalid : n.isValidChar
    · have hchar : (Char.ofNatAux n hvalid).toNat = n := rfl
      exact .inl ⟨_, _, (List.take_append_drop width rest).symm, .form (.number hwidth (hchar ▸ hn))⟩
    · have hfaulty : Faulty (letter :: (rest.take width ++ rest.drop width)) := .noScalar hwidth hn hvalid
      rw [List.take_append_drop] at hfaulty
      exact .inr hfaulty
  · simp only [not_forall, not_exists] at hall
    obtain ⟨c, hc, hno⟩ := hall
    exact .inr (.noDigit hwidth hc hno)

/-- A text starts with a piece, or with a backslash and a fault. -/
theorem exists_piece_or_faulty (c : Char) (rest : List Char) :
    (∃ piece more, c :: rest = piece ++ more ∧ piece ≠ [] ∧ Piece piece) ∨
    ∃ after, c :: rest = '\\' :: after ∧ Faulty after := by
  by_cases hslash : c = '\\'
  · subst hslash
    cases rest with
    | nil => exact .inr ⟨[], rfl, .nothing⟩
    | cons name rest =>
      cases he : Escape.ofChar? name with
      | none => exact .inr ⟨_, rfl, faulty_of_ofChar?_eq_none he rest⟩
      | some e =>
        rcases ofChar?_eq_some he with ⟨d, -, hd⟩ | ⟨width, -, hwidth⟩ | ⟨-, rfl⟩
        · exact .inl ⟨['\\', name], rest, rfl, by simp, .form (.named hd)⟩
        · rcases piece_or_faulty_of_letter hwidth rest with ⟨digits, more, rfl, hpiece⟩ | hfaulty
          · exact .inl ⟨'\\' :: name :: digits, more, rfl, by simp, hpiece⟩
          · exact .inr ⟨_, rfl, hfaulty⟩
        · exact .inl ⟨['\\', '\n'], rest, rfl, by simp, .lineEnd⟩
  · exact .inl ⟨[c], rest, rfl, by simp, .form (.raw hslash)⟩

/-- A text that is refused comes to a fault after some pieces. -/
theorem exists_faulty : ∀ {written : List Char}, unescapeFrom .plain written = none →
    ∃ (pieces : List (List Char)) (after : List Char), (∀ piece ∈ pieces, Piece piece) ∧
      written = pieces.flatten ++ '\\' :: after ∧ Faulty after
  | [], h => nomatch h
  | c :: rest, h => by
    rcases exists_piece_or_faulty c rest with ⟨piece, more, he, hne, hpiece⟩ | ⟨after, he, hfaulty⟩
    · rw [he, hpiece.unescapeFrom_append_eq_none] at h
      have hshorter : more.length ≤ rest.length := by
        have hpos := List.length_pos_iff.mpr hne
        have hlength := congrArg List.length he
        simp only [List.length_cons, List.length_append] at hlength
        omega
      obtain ⟨pieces, after, hpieces, rfl, hfaulty⟩ := exists_faulty h
      refine ⟨piece :: pieces, after, ?_, ?_, hfaulty⟩
      · exact List.forall_mem_cons.mpr ⟨hpiece, hpieces⟩
      · rw [he, List.flatten_cons, List.append_assoc]
    · exact ⟨[], after, nofun, he, hfaulty⟩
termination_by written => written.length

theorem unescape?_eq_none {written : List Char} : unescape? written = none ↔
    ∃ (pieces : List (List Char)) (after : List Char), (∀ piece ∈ pieces, Piece piece) ∧
      written = pieces.flatten ++ '\\' :: after ∧ Faulty after := by
  unfold unescape?
  constructor
  · exact exists_faulty
  · rintro ⟨pieces, after, hpieces, rfl, hfaulty⟩
    induction pieces with
    | nil => exact (unescapeFrom_slash after).trans hfaulty.unescapeFrom_eq_none
    | cons piece pieces ih =>
      obtain ⟨hpiece, hpieces⟩ := List.forall_mem_cons.mp hpieces
      rw [List.flatten_cons, List.append_assoc, hpiece.unescapeFrom_append_eq_none]
      exact ih hpieces

/-! ## Single quotes -/

theorem unquoteSingle_quote (rest : List Char) :
    unquoteSingle ('\'' :: '\'' :: rest) = '\'' :: unquoteSingle rest := by
  simp [unquoteSingle]

theorem unquoteSingle_cons {c : Char} (h : c ≠ '\'') : ∀ rest : List Char,
    unquoteSingle (c :: rest) = c :: unquoteSingle rest
  | [] => rfl
  | d :: rest => by simp [unquoteSingle, h]

theorem unquoteSingle_replace : ∀ text : List Char, unquoteSingle (replace '\'' ['\'', '\''] text) = text
  | [] => rfl
  | c :: text => by
    have hcons : replace '\'' ['\'', '\''] (c :: text) =
        (if c == '\'' then ['\'', '\''] else [c]) ++ replace '\'' ['\'', '\''] text := List.flatMap_cons
    rw [hcons]
    by_cases hquote : c = '\''
    · subst hquote
      exact (unquoteSingle_quote _).trans (congrArg ('\'' :: ·) (unquoteSingle_replace text))
    · simp only [beq_iff_eq, hquote, if_false, List.cons_append, List.nil_append]
      rw [unquoteSingle_cons hquote, unquoteSingle_replace text]

/-! ## Decoding is exact -/

end VersionPick.Yaml
