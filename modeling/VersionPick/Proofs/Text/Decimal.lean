/-
A plain numeral is the one that is written for its number, so reading and
writing words undo each other (`word?_eq_some`): a number read from a text
fixes the text.
-/
import Mathlib
import VersionPick.Text.Decimal

namespace VersionPick.Text.Decimal

theorem digit_toNat {c : Char} (h : c.isDigit = true) : 48 ≤ c.toNat ∧ c.toNat ≤ 57 :=
  Char.isDigit_iff_toNat.mp h

theorem digitChar_sub {c : Char} (h : c.isDigit = true) : Nat.digitChar (c.toNat - 48) = c := by
  have := digit_toNat h
  rw [← Char.toNat_inj, Nat.toNat_digitChar_of_lt_ten (by omega)]
  omega

/-- Digits behind a numeral without leading zero continue it. -/
theorem toDigits_append {n : Nat} (hn : 0 < n) :
    ∀ {cs : List Char}, (∀ c ∈ cs, c.isDigit = true) →
      Nat.toDigits 10 (Nat.ofDigitChars 10 cs n) = Nat.toDigits 10 n ++ cs
  | [], _ => by simp
  | c :: cs, h => by
    have hc : c.isDigit = true := h c (by simp)
    have hr := digit_toNat hc
    have ih : Nat.toDigits 10 (Nat.ofDigitChars 10 cs (10 * n + (c.toNat - 48))) =
        Nat.toDigits 10 (10 * n + (c.toNat - 48)) ++ cs :=
      toDigits_append (by omega) fun d hd => h d (by simp [hd])
    rw [← Nat.toDigits_append_toDigits (by decide) hn (by omega),
      Nat.toDigits_of_lt_base (n := c.toNat - 48) (by omega), digitChar_sub hc] at ih
    simpa [Nat.ofDigitChars_cons] using ih

theorem isNumeral_iff {cs : List Char} : isNumeral cs = true ↔ cs ≠ [] ∧ ∀ c ∈ cs, c.isDigit = true := by
  cases cs <;> simp [isNumeral]

theorem isNumeral_write (n : Nat) : isNumeral (write n) = true :=
  isNumeral_iff.mpr ⟨Nat.toDigits_ne_nil, fun _ h => Nat.isDigit_of_mem_toDigits (by decide) (by decide) h⟩

theorem value_write (n : Nat) : value (write n) = n :=
  Nat.ofDigitChars_ten_toDigits

theorem write_value {cs : List Char} (h : isPlain cs = true) : write (value cs) = cs := by
  simp only [isPlain, Bool.and_eq_true, Bool.or_eq_true, beq_iff_eq, bne_iff_ne] at h
  obtain ⟨hn, rfl | h0⟩ := h
  · rfl
  obtain ⟨hne, hd⟩ := isNumeral_iff.mp hn
  cases cs with
  | nil => exact absurd rfl hne
  | cons c cs =>
    have hc : c.isDigit = true := hd c (by simp)
    have hr := digit_toNat hc
    have h48 : c.toNat ≠ 48 := fun he => h0 (by
      rw [List.head?_cons, Option.some.injEq, ← Char.toNat_inj]; exact he)
    simp only [write, value, Nat.ofDigitChars_cons, Nat.mul_zero, Nat.zero_add]
    rw [toDigits_append (by simp; omega) fun d hd' => hd d (by simp [hd'])]
    rw [Nat.toDigits_of_lt_base (by simp; omega)]
    simp [digitChar_sub hc]

theorem isPlain_write (n : Nat) : isPlain (write n) = true := by
  simp only [isPlain, isNumeral_write, Bool.true_and, Bool.or_eq_true, beq_iff_eq, bne_iff_ne]
  induction n using Nat.strongRecOn with
  | ind n ih =>
    rcases Nat.lt_or_ge n 10 with h | h
    · rw [write, Nat.toDigits_of_lt_base h]
      by_cases h0 : n = 0
      · exact .inl (by simp [h0])
      · exact .inr (by simpa using h0)
    · rw [write, Nat.toDigits_of_base_le (by decide) h]
      rcases ih (n / 10) (by omega) with h0 | h0
      · have := congrArg value h0
        rw [value_write] at this
        have : n / 10 = 0 := this
        omega
      · refine .inr ?_
        simp only [write] at h0
        rw [List.head?_append]
        cases hd : (Nat.toDigits 10 (n / 10)).head? with
        | none => simp [Nat.toDigits_ne_nil] at hd
        | some c => rw [hd] at h0; simpa using h0

theorem toWord?_eq_some {n : Nat} {word : UInt64} : toWord? n = some word ↔ n = word.toNat := by
  unfold toWord?
  constructor
  · intro h
    split at h
    next hfits =>
      rw [← Option.some.inj h, UInt64.toNat_ofNat_of_lt' hfits]
    next => cases h
  · rintro rfl
    rw [if_pos word.toNat_lt_size, UInt64.ofNat_toNat]

/-- **Words and their numerals.** A text reads as a word exactly when it is
the text written for it. -/
theorem word?_eq_some {cs : List Char} {n : UInt64} : word? cs = some n ↔ cs = writeWord n := by
  simp only [word?, plain?, writeWord, Option.bind_eq_some_iff, toWord?_eq_some]
  constructor
  · intro h
    obtain ⟨m, hm, rfl⟩ := h
    split at hm
    next hp => rw [← Option.some.inj hm, write_value hp]
    next => cases hm
  · rintro rfl
    exact ⟨n.toNat, by simp [isPlain_write, value_write], rfl⟩

theorem word?_writeWord (n : UInt64) : word? (writeWord n) = some n := word?_eq_some.mpr rfl

/-- Numerals that are read as words, leading zeros or none. -/
theorem read?_bind_eq_some {cs : List Char} {n : UInt64} :
    (read? cs).bind toWord? = some n ↔ isNumeral cs = true ∧ value cs = n.toNat := by
  by_cases h : isNumeral cs = true <;> simp [read?, h, toWord?_eq_some]

/-- The texts that are read as words. -/
theorem exists_word?_iff {cs : List Char} :
    (∃ n, word? cs = some n) ↔ isPlain cs = true ∧ value cs < UInt64.size := by
  rw [word?, plain?]
  by_cases hplain : isPlain cs = true
  · by_cases hvalue : value cs < UInt64.size <;> simp [hplain, toWord?, hvalue]
  · simp [hplain]

theorem isDigit_of_mem_writeWord {n : UInt64} {c : Char} (h : c ∈ writeWord n) : c.isDigit = true :=
  (isNumeral_iff.mp (isNumeral_write n.toNat)).2 c h

theorem writeWord_ne_nil (n : UInt64) : writeWord n ≠ [] :=
  (isNumeral_iff.mp (isNumeral_write n.toNat)).1

/-! ## Numerals as texts -/

theorem value_cons (c : Char) (cs : List Char) :
    value (c :: cs) = (c.toNat - 48) * 10 ^ cs.length + value cs := by
  have h : Nat.ofDigitChars 10 cs (c.toNat - 48) =
      10 ^ cs.length * (c.toNat - 48) + Nat.ofDigitChars 10 cs 0 := Nat.ofDigitChars_eq_ofDigitChars_zero
  simp only [value, Nat.ofDigitChars_cons, Nat.mul_zero, Nat.zero_add]
  rw [show '0'.toNat = 48 from rfl, h, Nat.mul_comm]

theorem value_lt_pow : ∀ {cs : List Char}, (∀ c ∈ cs, c.isDigit = true) → value cs < 10 ^ cs.length
  | [], _ => by simp [value]
  | c :: cs, h => by
    have ih : value cs < 10 ^ cs.length := value_lt_pow fun d hd => h d (by simp [hd])
    have hc := digit_toNat (h c (by simp))
    have hm : (c.toNat - 48) * 10 ^ cs.length ≤ 9 * 10 ^ cs.length := Nat.mul_le_mul_right _ (by omega)
    rw [value_cons, List.length_cons, Nat.pow_succ]
    omega

theorem pow_le_value {c : Char} {cs : List Char} (hc : c.isDigit = true) (h0 : c ≠ '0') :
    10 ^ cs.length ≤ value (c :: cs) := by
  have hr := digit_toNat hc
  have h48 : c.toNat ≠ 48 := fun he => h0 (Char.toNat_inj.mp he)
  have hm : 1 * 10 ^ cs.length ≤ (c.toNat - 48) * 10 ^ cs.length := Nat.mul_le_mul_right _ (by omega)
  rw [value_cons]
  omega

theorem compare_char (c d : Char) : compare c d = compare c.toNat d.toNat := by
  rcases Nat.lt_trichotomy c.toNat d.toNat with h | h | h
  · rw [Nat.compare_eq_lt.mpr h]
    exact compareOfLessAndEq_eq_lt.mpr h
  · rw [Char.toNat_inj.mp h]
    simp
  · rw [Nat.compare_eq_gt.mpr h, Std.OrientedOrd.eq_swap, Ordering.swap_eq_gt]
    exact compareOfLessAndEq_eq_lt.mpr h

theorem compare_digit {c d : Char} (hc : c.isDigit = true) (hd : d.isDigit = true) :
    compare c d = compare (c.toNat - 48) (d.toNat - 48) := by
  have hc := digit_toNat hc
  have hd := digit_toNat hd
  rw [compare_char]
  rcases Nat.lt_trichotomy c.toNat d.toNat with h | h | h
  · rw [Nat.compare_eq_lt.mpr h, Nat.compare_eq_lt.mpr (by omega)]
  · rw [h]
    simp
  · rw [Nat.compare_eq_gt.mpr h, Nat.compare_eq_gt.mpr (by omega)]

/-- What follows a leading digit matters only if that is the same. -/
theorem compare_leading {a b t m n : Nat} (hm : m < t) (hn : n < t) :
    compare (a * t + m) (b * t + n) = (compare a b).then (compare m n) := by
  rcases Nat.lt_trichotomy a b with h | h | h
  · have hle : (a + 1) * t ≤ b * t := Nat.mul_le_mul_right _ h
    rw [Nat.succ_mul] at hle
    have : compare (a * t + m) (b * t + n) = .lt := Nat.compare_eq_lt.mpr (by omega)
    rw [this, Nat.compare_eq_lt.mpr h, Ordering.lt_then]
  · subst h
    simp [Nat.compare_eq_ite_lt]
  · have hle : (b + 1) * t ≤ a * t := Nat.mul_le_mul_right _ h
    rw [Nat.succ_mul] at hle
    have : compare (a * t + m) (b * t + n) = .gt := Nat.compare_eq_gt.mpr (by omega)
    rw [this, Nat.compare_eq_gt.mpr h, Ordering.gt_then]

/-- Digit runs of one length compare as texts as their numbers do. -/
theorem compare_of_length_eq : ∀ {cs ds : List Char}, cs.length = ds.length →
    (∀ c ∈ cs, c.isDigit = true) → (∀ d ∈ ds, d.isDigit = true) → compare cs ds = compare (value cs) (value ds)
  | [], [], _, _, _ => by simp
  | c :: cs, d :: ds, hl, hc, hd => by
    simp only [List.length_cons, Nat.add_right_cancel_iff] at hl
    have hcs : ∀ e ∈ cs, e.isDigit = true := fun e he => hc e (by simp [he])
    have hds : ∀ e ∈ ds, e.isDigit = true := fun e he => hd e (by simp [he])
    have ih : compare cs ds = compare (value cs) (value ds) := compare_of_length_eq hl hcs hds
    have hlt := value_lt_pow hcs
    have hlt' := value_lt_pow hds
    rw [List.compare_cons_cons, compare_digit (hc c (by simp)) (hd d (by simp)), ih, value_cons,
      value_cons, hl]
    exact (compare_leading (hl ▸ hlt) hlt').symm

/-- A longer numeral without leading zero is a larger number. -/
theorem value_lt_of_length_lt {cs ds : List Char} (hc : ∀ c ∈ cs, c.isDigit = true)
    (hd : ∀ d ∈ ds, d.isDigit = true) (h0 : ds.head? ≠ some '0') (h : cs.length < ds.length) :
    value cs < value ds := by
  cases ds with
  | nil => simp at h
  | cons d ds =>
    have hle : 10 ^ cs.length ≤ 10 ^ ds.length :=
      Nat.pow_le_pow_right (by decide) (by simpa [Nat.lt_succ_iff] using h)
    have hlt := value_lt_pow hc
    have hge : 10 ^ ds.length ≤ value (d :: ds) :=
      pow_le_value (hd d (by simp)) (by simpa using h0)
    omega

end VersionPick.Text.Decimal
