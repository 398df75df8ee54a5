/-
Hexadecimal numerals. The digits are a table here, each in both letter cases,
and a numeral is its digits' values in base sixteen (`Writes`), whatever cases
they are mixed of; `digit?` finds what the table says (`digit?_eq_some`).
-/
import Mathlib.Data.Nat.Digits.Lemmas
import VersionPick.Text.Hex

namespace VersionPick.Text.Hex

/-! ## Digits -/

/-- The hexadecimal digits and their values. -/
def digitValues : List (Char × Nat) := [
  ('0', 0), ('1', 1), ('2', 2), ('3', 3), ('4', 4), ('5', 5), ('6', 6), ('7', 7), ('8', 8), ('9', 9),
  ('a', 10), ('b', 11), ('c', 12), ('d', 13), ('e', 14), ('f', 15),
  ('A', 10), ('B', 11), ('C', 12), ('D', 13), ('E', 14), ('F', 15)]

theorem toNat_lt_of_digit? {c : Char} {v : Nat} (h : digit? c = some v) : c.toNat < 128 := by
  have hle : ∀ {d : Char}, c ≤ d → d.toNat < 128 → c.toNat < 128 := fun hc hd => Nat.lt_of_le_of_lt hc hd
  unfold digit? at h
  split at h
  next hc => exact hle hc.2 (by decide)
  split at h
  next hc => exact hle hc.2 (by decide)
  split at h
  next hc => exact hle hc.2 (by decide)
  next => cases h

theorem digit?_eq_some {c : Char} {v : Nat} : digit? c = some v ↔ (c, v) ∈ digitValues := by
  constructor
  · intro h
    have hall : ∀ n < 128, ∀ v ∈ digit? (Char.ofNat n), (Char.ofNat n, v) ∈ digitValues := by decide
    have hc := hall c.toNat (toNat_lt_of_digit? h) v
    rw [Char.ofNat_toNat] at hc
    exact hc h
  · have hall : ∀ p ∈ digitValues, digit? p.1 = some p.2 := by decide
    exact hall (c, v)

/-! ## Numbers -/

/-- Some digits have these values. -/
def Values (digits : List Char) (values : List Nat) : Prop :=
  List.Forall₂ (fun d v => (d, v) ∈ digitValues) digits values

instance (digits : List Char) (values : List Nat) : Decidable (Values digits values) :=
  inferInstanceAs (Decidable (List.Forall₂ _ digits values))

/-- Digits that write a number, the one that counts most in front. -/
def Writes (digits : List Char) (n : Nat) : Prop :=
  ∃ values, Values digits values ∧ Nat.ofDigits 16 values.reverse = n

/-- The first digit of a numeral counts most. -/
theorem ofDigits_reverse_cons (soFar v : Nat) (values : List Nat) :
    soFar * 16 ^ (v :: values).length + Nat.ofDigits 16 (v :: values).reverse =
      (16 * soFar + v) * 16 ^ values.length + Nat.ofDigits 16 values.reverse := by
  rw [List.reverse_cons, Nat.ofDigits_append, Nat.ofDigits_singleton, List.length_cons, List.length_reverse]
  ring

/-! ## Characters -/

theorem scalar?_toNat (c : Char) : scalar? c.toNat = some c := by
  have hvalid : c.toNat.isValidChar := c.valid
  rw [scalar?, dif_pos hvalid]
  exact congrArg some (Char.ext rfl)

theorem scalar?_eq_none {n : Nat} : scalar? n = none ↔ ¬ n.isValidChar := by
  by_cases h : n.isValidChar
  · rw [scalar?, dif_pos h]
    exact iff_of_false (Option.some_ne_none _) (not_not_intro h)
  · rw [scalar?, dif_neg h]
    exact iff_of_true rfl h

end VersionPick.Text.Hex
