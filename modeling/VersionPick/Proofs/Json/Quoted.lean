/-
What is written between quotes is read back. A character is written as itself,
by an escape of one letter or by its number (`Written`); each of these forms
decodes to the character, is passed over in the search for the closing quote,
and holds no control character. So a written text ends with its quote
(`closeQuote_encode`), gives the text back (`decode?_encode`) and stays on one
line (`not_isControl_of_mem_encode`).
-/
import VersionPick.Json.Quoted
import VersionPick.Proofs.Text.Hex

namespace VersionPick.Json

open Text

/-- The forms in which a character is written. -/
inductive Written : Char → List Char → Prop
  | named {c letter : Char} (hu : letter ≠ 'u') (hcontrol : isControl letter = false)
    (h : namedEscapes.lookup letter = some c) : Written c ['\\', letter]
  | number {c : Char} (h : isControl c = true) :
    Written c ['\\', 'u', '0', '0', Hex.digit (c.toNat / 16), Hex.digit (c.toNat % 16)]
  | plain {c : Char} (hquote : c ≠ '"') (hslash : c ≠ '\\') (h : isControl c = false) : Written c [c]

theorem written_encodeChar (c : Char) : Written c (encodeChar c) := by
  unfold encodeChar
  -- The characters with an escape of one letter.
  repeat
    split
    next h => rw [beq_iff_eq.mp h]; exact .named (by decide) (by decide) rfl
  split
  next h => exact .number h
  next hquote hslash _ _ _ _ _ h => exact .plain (by simpa using hquote) (by simpa using hslash) (by simpa using h)

theorem digit?_digit {n : Nat} (h : n < 16) : Hex.digit? (Hex.digit n) = some n := by
  have hall : ∀ n < 16, Hex.digit? (Hex.digit n) = some n := by decide
  exact hall n h

theorem not_isControl_digit {n : Nat} (h : n < 16) : isControl (Hex.digit n) = false := by
  have hall : ∀ n < 16, isControl (Hex.digit n) = false := by decide
  exact hall n h

theorem toNat_lt_of_isControl {c : Char} (h : isControl c = true) : c.toNat < 32 :=
  of_decide_eq_true h

theorem not_isControl_slash : isControl '\\' = false := rfl

namespace Written

variable {c : Char} {written : List Char}

theorem decodeFrom_append (h : Written c written) (cs : List Char) :
    decodeFrom .plain (written ++ cs) = (decodeFrom .plain cs).map (c :: ·) := by
  cases h with
  | named hu hcontrol h => simp [decodeFrom, hu, h]
  | number h =>
    have hlt := toNat_lt_of_isControl h
    have hzero : Hex.digit? '0' = some 0 := rfl
    have hhigh := digit?_digit (show c.toNat / 16 < 16 by omega)
    have hlow := digit?_digit (show c.toNat % 16 < 16 by omega)
    have hsum : 16 * (c.toNat / 16) + c.toNat % 16 = c.toNat := by omega
    have hunit : unit? none c.toNat = some (.inl c) := by
      have hsurrogate : isHighSurrogate c.toNat = false := by simp [isHighSurrogate]; omega
      simp [unit?, hsurrogate, Hex.scalar?_toNat]
    simp [decodeFrom, hzero, hhigh, hlow, hsum, hunit]
  | plain hquote hslash h => simp [decodeFrom, hslash]

theorem closeQuote_append (h : Written c written) (cs : List Char) :
    closeQuote .plain (written ++ cs) = (closeQuote .plain cs).map fun p => (written ++ p.1, p.2) := by
  cases h with
  | named hu hcontrol h => simp [closeQuote, hu, h, not_isControl_slash, Function.comp_def]
  | number h =>
    have hlt := toNat_lt_of_isControl h
    have hzero : Hex.digit? '0' = some 0 := rfl
    have hhigh := digit?_digit (show c.toNat / 16 < 16 by omega)
    have hlow := digit?_digit (show c.toNat % 16 < 16 by omega)
    simp [closeQuote, not_isControl_slash, hzero, hhigh, hlow, Function.comp_def]
  | plain hquote hslash h => simp [closeQuote, hquote, hslash, h]

theorem not_isControl (h : Written c written) : ∀ d ∈ written, isControl d = false := by
  cases h with
  | named hu hcontrol h => simp [hcontrol, not_isControl_slash]
  | number h =>
    have hlt := toNat_lt_of_isControl h
    have hhigh := not_isControl_digit (show c.toNat / 16 < 16 by omega)
    have hlow := not_isControl_digit (show c.toNat % 16 < 16 by omega)
    have hu : isControl 'u' = false := rfl
    have hzero : isControl '0' = false := rfl
    simp [hhigh, hlow, hu, hzero, not_isControl_slash]
  | plain hquote hslash h => simpa using h

end Written

theorem encode_cons (c : Char) (cs : List Char) : encode (c :: cs) = encodeChar c ++ encode cs :=
  List.flatMap_cons

/-- A written text gives the text back. -/
theorem decode?_encode : ∀ cs : List Char, decode? (encode cs) = some cs
  | [] => rfl
  | c :: cs => by
    have ih : decodeFrom .plain (encode cs) = some cs := decode?_encode cs
    rw [decode?, encode_cons, (written_encodeChar c).decodeFrom_append, ih, Option.map_some]

/-- A written text goes up to the quote behind it. -/
theorem closeQuote_encode (rest : List Char) : ∀ cs : List Char,
    closeQuote .plain (encode cs ++ '"' :: rest) = some (encode cs, rest)
  | [] => rfl
  | c :: cs => by
    rw [encode_cons, List.append_assoc, (written_encodeChar c).closeQuote_append, closeQuote_encode rest cs,
      Option.map_some]

theorem not_isControl_of_mem_encode {cs : List Char} {d : Char} (h : d ∈ encode cs) : isControl d = false := by
  obtain ⟨c, -, hd⟩ := List.mem_flatMap.mp h
  exact (written_encodeChar c).not_isControl d hd

end VersionPick.Json
