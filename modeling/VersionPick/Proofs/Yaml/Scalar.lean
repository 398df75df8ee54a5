/-
The three ways to write a scalar. A text of which no character means anything
to YAML is read back from each of them, between brackets and outside, wherever
it stands (`scalar?_write`). What may follow is stated as what makes a plain
scalar end (`EndsPlain`), for a quoted one ends by itself.

A plain scalar goes on over the lines that are indented far enough, the dash of
such a line included (`plainRest_dashLine`).
-/
import VersionPick.Yaml.Scalar
import VersionPick.Proofs.Text.Pieces

namespace VersionPick.Yaml

open Text

/-! ## Texts that are the same in every style -/

/-- A character that stands for itself, whatever is around it. -/
def isTame (c : Char) : Bool :=
  isVisible c && !isBlank c && !isFlowSign c && !(['#', ':', '\\', '"', '\''].contains c)

/-- How a scalar is written. -/
inductive Style
  | plain
  | single
  | double
  deriving DecidableEq, Repr

def Style.write : Style → List Char → List Char
  | .plain, cs => cs
  | .single, cs => '\'' :: (cs ++ ['\''])
  | .double, cs => '"' :: (cs ++ ['"'])

/-- A text that may be written in any style. -/
structure Tame (cs : List Char) : Prop where
  ne_nil : cs ≠ []
  chars : ∀ c ∈ cs, isTame c = true
  start : ∀ c ∈ cs.head?, isIndicator c = false ∧ isMarkerSign c = false

theorem tame_iff {cs : List Char} : Tame cs ↔ cs.isEmpty = false ∧ cs.all isTame = true ∧
    cs.head?.all (fun c => !isIndicator c && !isMarkerSign c) = true := by
  cases cs with
  | nil => exact ⟨fun h => absurd rfl h.ne_nil, fun h => absurd h.1 (by decide)⟩
  | cons c cs =>
    constructor
    · intro h
      obtain ⟨hindicator, hmarker⟩ := h.start c rfl
      exact ⟨rfl, List.all_eq_true.mpr h.chars, by simp [hindicator, hmarker]⟩
    · rintro ⟨-, hchars, hstart⟩
      refine ⟨List.cons_ne_nil c cs, List.all_eq_true.mp hchars, fun d hd => ?_⟩
      cases hd
      simpa using hstart

instance (cs : List Char) : Decidable (Tame cs) :=
  decidable_of_iff' _ tame_iff

section Characters

variable {c : Char} (h : isTame c = true)
include h

theorem ne_of_isTame {d : Char} (hd : isTame d = false) : c ≠ d := by
  rintro rfl
  rw [h] at hd
  cases hd

theorem beq_of_isTame {d : Char} (hd : isTame d = false) : (c == d) = false :=
  beq_eq_false_iff_ne.mpr (ne_of_isTame h hd)

theorem isPlainChar_of_isTame (inFlow : Bool) : isPlainChar inFlow c = true := by
  simp only [isTame, Bool.and_eq_true, Bool.not_eq_true'] at h
  simp [isPlainChar, h.1.1.1, h.1.2]

theorem not_isBlank_of_isTame : isBlank c = false := by
  simp only [isTame, Bool.and_eq_true, Bool.not_eq_true'] at h
  exact h.1.1.2

theorem not_isLineEnd_of_isTame : isLineEnd c = false := by
  simp [isLineEnd, ne_of_isTame h (show isTame '\n' = false by decide),
    ne_of_isTame h (show isTame '\r' = false by decide)]

theorem not_isInlineBlank_of_isTame : isInlineBlank c = false := by
  simp [isInlineBlank, ne_of_isTame h (show isTame ' ' = false by decide),
    ne_of_isTame h (show isTame '\t' = false by decide)]

theorem not_isSeparator_of_isTame : isSeparator c = false := by
  simp [isSeparator, not_isInlineBlank_of_isTame h, not_isLineEnd_of_isTame h]

theorem not_isControl_of_isTame : isControl c = false := by
  simp only [isTame, isVisible, Bool.and_eq_true, Bool.or_eq_true, decide_eq_true_eq, beq_iff_eq] at h
  simp only [isControl, Bool.and_eq_false_iff, decide_eq_false_iff_not]
  exact .inl (by omega)

end Characters

theorem Tame.exists_cons {cs : List Char} (h : Tame cs) : ∃ c rest, cs = c :: rest ∧ isTame c = true ∧
    isIndicator c = false ∧ isMarkerSign c = false ∧ ∀ d ∈ rest, isTame d = true := by
  obtain ⟨c, rest, rfl⟩ := List.exists_cons_of_ne_nil h.ne_nil
  obtain ⟨hc, hrest⟩ := List.forall_mem_cons.mp h.chars
  obtain ⟨hindicator, hmarker⟩ := h.start c rfl
  exact ⟨c, rest, rfl, hc, hindicator, hmarker, hrest⟩

theorem Tame.trim_eq {cs : List Char} (h : Tame cs) : trim cs = cs :=
  trim_of_no_blank fun c hc => not_isBlank_of_isTame (h.chars c hc)

theorem add_length_cons (column : Nat) (c : Char) (cs : List Char) :
    column + 1 + cs.length = column + (c :: cs).length := by
  rw [List.length_cons]
  omega

/-! ## Plain scalars -/

variable {inFlow : Bool} {floor : Nat}

/-- A plain scalar ends in front of a text. -/
def EndsPlain (inFlow : Bool) (floor : Nat) (rest : List Char) : Prop :=
  ∀ column, plainRest inFlow floor none column rest = some ([], ⟨column, rest⟩)

theorem endsPlain_nil : EndsPlain inFlow floor [] := fun _ => rfl

theorem endsPlain_flowSign {c : Char} (h : isFlowSign c = true) (rest : List Char) :
    EndsPlain true floor (c :: rest) := by
  intro column
  simp only [isFlowSign, Bool.or_eq_true, beq_iff_eq] at h
  rcases h with (((rfl | rfl) | rfl) | rfl) | rfl <;> rfl

theorem endsPlain_comment (comment : List Char) : EndsPlain inFlow floor (' ' :: '#' :: comment) := fun _ => rfl

/-- A scalar that has to be indented ends with its line if the next is not. -/
theorem endsPlain_newLine {c : Char} (hc : isSeparator c = false) (rest : List Char) :
    EndsPlain inFlow (floor + 1) ('\n' :: c :: rest) := by
  intro column
  simp only [isSeparator, Bool.or_eq_false_iff] at hc
  have hline : isLineEnd '\n' = true := rfl
  simp [plainRest, hc.1, hc.2, hline, Pause.add]

theorem plainRest_cons {c : Char} (h : isTame c = true) (column : Nat) (rest : List Char) :
    plainRest inFlow floor none column (c :: rest) =
      (plainRest inFlow floor none (column + 1) rest).map fun (text, after) => (c :: text, after) := by
  have hcolon : (c == ':') = false := beq_of_isTame h (by decide)
  simp [plainRest, not_isLineEnd_of_isTame h, not_isInlineBlank_of_isTame h, hcolon, isPlainChar_of_isTame h]

/-- Tame characters belong to the plain scalar they stand in. -/
theorem plainRest_append : ∀ {cs : List Char}, (∀ c ∈ cs, isTame c = true) → ∀ (column : Nat) (rest : List Char),
    plainRest inFlow floor none column (cs ++ rest) =
      (plainRest inFlow floor none (column + cs.length) rest).map fun (text, after) => (cs ++ text, after)
  | [], _, column, rest => by simp
  | c :: cs, h, column, rest => by
    obtain ⟨hc, hcs⟩ := List.forall_mem_cons.mp h
    rw [List.cons_append, plainRest_cons hc, plainRest_append hcs, add_length_cons, Option.map_map]
    rfl

theorem startsPlain_of_tame {c : Char} (h : isTame c = true) (hindicator : isIndicator c = false) (rest : List Char) :
    startsPlain inFlow (c :: rest) = true := by
  have hsign : (c == '-' || c == '?' || c == ':') = false := by
    simp only [isIndicator, List.contains_eq_mem, decide_eq_false_iff_not] at hindicator
    simp only [Bool.or_eq_false_iff, beq_eq_false_iff_ne]
    refine ⟨⟨?_, ?_⟩, ?_⟩ <;> rintro rfl <;> exact hindicator (by decide)
  simp [startsPlain, hsign, isPlainChar_of_isTame h, hindicator]

/-- A scalar that starts with a tame text has that text and what is read
behind it, up to the blanks at its end. -/
theorem plain?_append {cs rest more : List Char} {column : Nat} {after : Place} (h : Tame cs)
    (hrest : plainRest inFlow floor none (column + cs.length) rest = some (more, after)) :
    plain? inFlow floor ⟨column, cs ++ rest⟩ = some (trim (cs ++ more), after) := by
  obtain ⟨c, cs, rfl, hc, hindicator, -, hcs⟩ := h.exists_cons
  simp only [plain?, List.cons_append, startsPlain_of_tame hc hindicator, if_true, plainRest_append hcs,
    add_length_cons _ c,
    hrest, Option.map_some]

/-! ### Further lines -/

/-- Spaces lengthen a pause. -/
theorem plainRest_spaces : ∀ (k : Nat) (p : Pause) (column : Nat) (rest : List Char),
    plainRest inFlow floor (some p) column (List.replicate k ' ' ++ rest) =
      plainRest inFlow floor (some { p with held := p.held ++ List.replicate k ' ' }) (column + k) rest
  | 0, p, column, rest => by simp
  | k + 1, p, column, rest => by
    have hstep : plainRest inFlow floor (some p) column (' ' :: (List.replicate k ' ' ++ rest)) =
        plainRest inFlow floor (some { p with held := p.held ++ [' '] }) (column + 1) (List.replicate k ' ' ++ rest) := by
      simp [plainRest, isLineEnd, isInlineBlank, Pause.add]
    rw [List.replicate_succ, List.cons_append, hstep, plainRest_spaces, List.append_assoc, List.singleton_append,
      Nat.add_assoc, Nat.add_comm 1 k]

/-- A tame character ends a pause, and the scalar goes on, unless it stands on
a further line that is not indented far enough. -/
theorem plainRest_behind_pause {c : Char} (h : isTame c = true) {p : Pause} {column : Nat}
    (hcolumn : p.newLine = true → floor ≤ column ∧ 0 < column) (rest : List Char) :
    plainRest inFlow floor (some p) column (c :: rest) =
      (plainRest inFlow floor none (column + 1) rest).map fun (text, after) => (p.held ++ c :: text, after) := by
  have hcomment : (c == '#') = false := beq_of_isTame h (by decide)
  have hcolon : (c == ':') = false := beq_of_isTame h (by decide)
  have hstay : (p.newLine && (decide (column < floor) || Place.atMarker ⟨column, c :: rest⟩)) = false := by
    cases hline : p.newLine with
    | false => rfl
    | true =>
      obtain ⟨hfloor, hpos⟩ := hcolumn hline
      have hcolumn : (column == 0) = false := by simp; omega
      simp [Place.atMarker, hcolumn, hfloor]
  simp [plainRest, not_isLineEnd_of_isTame h, not_isInlineBlank_of_isTame h, hcomment, hcolon, hstay,
    isPlainChar_of_isTame h]

/-- A further line that starts with `k` spaces and a dash. -/
def dashLine (k : Nat) (cs : List Char) : List Char :=
  '\n' :: (List.replicate k ' ' ++ '-' :: ' ' :: cs)

/-- A dash on a further line that is indented far enough is a character of the
scalar. -/
theorem plainRest_dashLine {k : Nat} (hfloor : floor ≤ k) (hpos : 0 < k) {cs : List Char} (h : Tame cs) (column : Nat)
    (rest : List Char) : plainRest inFlow floor none column (dashLine k cs ++ rest) =
      (plainRest inFlow floor none (k + 2 + cs.length) rest).map fun (text, after) => (dashLine k cs ++ text, after) := by
  obtain ⟨c, cs, rfl, hc, -, -, hcs⟩ := h.exists_cons
  have hline : plainRest inFlow floor none column (dashLine k (c :: cs) ++ rest) =
      plainRest inFlow floor (some ⟨['\n'], true, ⟨column, dashLine k (c :: cs) ++ rest⟩⟩) 0
        (List.replicate k ' ' ++ '-' :: ' ' :: c :: (cs ++ rest)) := by
    simp [dashLine, plainRest, isLineEnd, Pause.add]
  have hblank : plainRest inFlow floor none (k + 1) (' ' :: c :: (cs ++ rest)) =
      plainRest inFlow floor (some ⟨[' '], false, ⟨k + 1, ' ' :: c :: (cs ++ rest)⟩⟩) (k + 2) (c :: (cs ++ rest)) := by
    simp [plainRest, isLineEnd, isInlineBlank, Pause.add]
  -- two pauses: the line break with the spaces, and the blank behind the dash
  rw [hline, plainRest_spaces, Nat.zero_add, plainRest_behind_pause (by decide) fun _ => ⟨hfloor, hpos⟩, hblank,
    plainRest_behind_pause hc (by simp), plainRest_append hcs, add_length_cons]
  simp only [Option.map_map]
  congr 1
  funext after
  simp [dashLine]

theorem plainRest_dashLines {k : Nat} (hfloor : floor ≤ k) (hpos : 0 < k) : ∀ {lines : List (List Char)},
    (∀ cs ∈ lines, Tame cs) → ∀ column : Nat, ∃ stop, plainRest inFlow floor none column (lines.flatMap (dashLine k)) =
      some (lines.flatMap (dashLine k), ⟨stop, []⟩)
  | [], _, column => ⟨column, rfl⟩
  | cs :: lines, h, column => by
    obtain ⟨hcs, hlines⟩ := List.forall_mem_cons.mp h
    obtain ⟨stop, hstop⟩ := plainRest_dashLines hfloor hpos hlines (k + 2 + cs.length)
    exact ⟨stop, by rw [List.flatMap_cons, plainRest_dashLine hfloor hpos hcs, hstop, Option.map_some]⟩

/-! ## Quoted scalars -/

theorem inLine_of_tame {quote c : Char} (h : isTame c = true) (hquote : quote = '"' ∨ quote = '\'') (column : Nat)
    (next : List Char) : QuoteStep.inLine quote column c next = .goOn .inside (column + 1) := by
  have hne : (c == quote) = false := by
    rcases hquote with rfl | rfl
    · exact beq_of_isTame h (by decide)
    · exact beq_of_isTame h (by decide)
  have hslash : (c == '\\') = false := beq_of_isTame h (by decide)
  simp [QuoteStep.inLine, not_isLineEnd_of_isTame h, not_isControl_of_isTame h, hslash, hne]

theorem inLine_quote {quote : Char} (hquote : quote = '"' ∨ quote = '\'') (column : Nat) {rest : List Char}
    (hrest : rest.head? ≠ some '\'') : QuoteStep.inLine quote column quote rest = .close := by
  rcases hquote with rfl | rfl
  · rfl
  · simp [QuoteStep.inLine, hrest, isLineEnd, isControl]

/-- The closing quote is the next one behind tame characters. -/
theorem quotedRest_append {quote : Char} (hquote : quote = '"' ∨ quote = '\'') {rest : List Char}
    (hrest : rest.head? ≠ some '\'') : ∀ {cs : List Char}, (∀ c ∈ cs, isTame c = true) → ∀ column : Nat,
    quotedRest quote floor .inside column (cs ++ quote :: rest) = some (cs, ⟨column + cs.length + 1, rest⟩)
  | [], _, column => by
    simp only [List.nil_append, quotedRest, QuoteStep.of, inLine_quote hquote column hrest,
      List.length_nil, Nat.add_zero]
  | c :: cs, h, column => by
    obtain ⟨hc, hcs⟩ := List.forall_mem_cons.mp h
    simp only [List.cons_append, quotedRest, QuoteStep.of, inLine_of_tame hc hquote, quotedRest_append hquote hrest hcs,
      Option.map_some, add_length_cons _ c]

theorem unescape?_of_tame : ∀ {cs : List Char}, (∀ c ∈ cs, isTame c = true) → unescape? cs = some cs
  | [], _ => rfl
  | c :: cs, h => by
    obtain ⟨hc, hcs⟩ := List.forall_mem_cons.mp h
    have hslash : (c == '\\') = false := beq_of_isTame hc (by decide)
    have ih : unescapeFrom .plain cs = some cs := unescape?_of_tame hcs
    simp [unescape?, unescapeFrom, hslash, ih]

theorem unquoteSingle_of_tame : ∀ {cs : List Char}, (∀ c ∈ cs, isTame c = true) → unquoteSingle cs = cs
  | [], _ => rfl
  | [_], _ => rfl
  | c :: d :: cs, h => by
    obtain ⟨hc, hcs⟩ := List.forall_mem_cons.mp h
    have hquote : (c == '\'') = false := beq_of_isTame hc (by decide)
    simp [unquoteSingle, hquote, unquoteSingle_of_tame hcs]

/-! ## Scalars in any style -/

theorem not_isBlank_of_mem_write {cs : List Char} (h : Tame cs) (style : Style) {c : Char} (hc : c ∈ style.write cs) :
    isBlank c = false := by
  have hquoted : ∀ quote, isBlank quote = false → c ∈ quote :: (cs ++ [quote]) → isBlank c = false := by
    intro quote hquote hc
    simp only [List.mem_cons, List.mem_append, List.not_mem_nil, or_false] at hc
    rcases hc with rfl | hc | rfl
    · exact hquote
    · exact not_isBlank_of_isTame (h.chars c hc)
    · exact hquote
  cases style with
  | plain => exact not_isBlank_of_isTame (h.chars c hc)
  | single => exact hquoted '\'' (by decide) hc
  | double => exact hquoted '"' (by decide) hc

/-- What may stand behind a scalar of any style. -/
structure EndsScalar (inFlow : Bool) (floor : Nat) (rest : List Char) : Prop where
  plain : EndsPlain inFlow floor rest
  quote : rest.head? ≠ some '\''

theorem scalar?_of_tame {cs : List Char} (h : Tame cs) (column : Nat) (rest : List Char) :
    scalar? inFlow floor ⟨column, cs ++ rest⟩ = plain? inFlow floor ⟨column, cs ++ rest⟩ := by
  obtain ⟨c, more, rfl, hc, -⟩ := h.exists_cons
  have hdouble : c ≠ '"' := ne_of_isTame hc (by decide)
  have hsingle : c ≠ '\'' := ne_of_isTame hc (by decide)
  rw [List.cons_append]
  unfold scalar?
  split
  next he => exact absurd (List.cons.inj he).1 hdouble
  next he => exact absurd (List.cons.inj he).1 hsingle
  next => rfl

/-- A tame text is read back from each of its styles. -/
theorem scalar?_write {cs rest : List Char} (h : Tame cs) (hend : EndsScalar inFlow floor rest) (style : Style)
    (column : Nat) : scalar? inFlow floor ⟨column, style.write cs ++ rest⟩ =
      some (cs, ⟨column + (style.write cs).length, rest⟩) := by
  cases style with
  | plain =>
    rw [Style.write, scalar?_of_tame h, plain?_append h (hend.plain _), List.append_nil, h.trim_eq]
  | single =>
    simp [Style.write, scalar?, quotedRest_append (.inr rfl) hend.quote h.chars, unquoteSingle_of_tame h.chars]
    omega
  | double =>
    simp [Style.write, scalar?, quotedRest_append (.inl rfl) hend.quote h.chars, unescape?_of_tame h.chars]
    omega

end VersionPick.Yaml
