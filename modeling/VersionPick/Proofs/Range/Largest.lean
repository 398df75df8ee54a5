/-
Ranges at the largest number. Where a version leaves numbers open, an operator
puts a bound one past the last number that has to stay (`Operator.counted`).
The largest number has no next one, so its bound is the number itself.

Below it all is as it should be: the version, with zeros for the numbers it
leaves open, is in its own range, and no release that has its numbers is above
it. At the largest number it is the other way round: the range is empty, and
all these releases are above the version (`admits_lower_unless_largest`).
-/
import VersionPick.Proofs.Range.Desugaring

namespace VersionPick

open Version

/-- The largest number; there is no next one. -/
def largestNumber : UInt64 := 18446744073709551615

theorem toNat_lt_nextNumber {n : UInt64} : n.toNat < (nextNumber n).toNat ↔ n ≠ largestNumber := by
  by_cases h : n = largestNumber
  · simp [h, nextNumber, largestNumber]
  · have hne : n.toNat ≠ largestNumber.toNat := fun he => h (UInt64.toNat_inj.mp he)
    have hlt : n.toNat < 2 ^ 64 - 1 := by
      have := n.toNat_lt
      have : largestNumber.toNat = 2 ^ 64 - 1 := rfl
      omega
    simp [h, nextNumber_toNat hlt]

/-- The number of a version that an operator puts its bound one past: the last
one of those that have to stay as they are. There is none if no number is
given, or if the operator compares with a full version. -/
def Operator.counted : Operator → Partial → Option UInt64
  | .tilde, p => (p.given.take 2).getLast?
  | .caret, p => (throughNonzero p.given).getLast?
  | .compare _, .full _ => none
  | .compare _, p => p.given.getLast?

/-! ## Bounds -/

namespace Core

variable {c : Core} {a b d : UInt64}

theorem before_next_major (h : [a] <+: c.numbers) : c.Before ⟨nextNumber a, 0, 0⟩ ↔ a ≠ largestNumber := by
  obtain ⟨rfl, -⟩ := List.cons_prefix_cons.mp h
  simp only [← toNat_lt_nextNumber, Before, UInt64.toNat_zero]
  omega

theorem before_next_minor (h : [a, b] <+: c.numbers) : c.Before ⟨a, nextNumber b, 0⟩ ↔ b ≠ largestNumber := by
  simp only [numbers, List.cons_prefix_cons, List.nil_prefix, and_true] at h
  obtain ⟨rfl, rfl⟩ := h
  simp only [← toNat_lt_nextNumber, Before, UInt64.toNat_zero, true_and]
  omega

theorem before_next_patch (h : [a, b, d] <+: c.numbers) : c.Before ⟨a, b, nextNumber d⟩ ↔ d ≠ largestNumber := by
  simp only [numbers, List.cons_prefix_cons, List.nil_prefix, and_true] at h
  obtain ⟨rfl, rfl, rfl⟩ := h
  simp only [← toNat_lt_nextNumber, Before, true_and]
  omega

end Core

namespace Partial

variable {p : Partial} {v : Version}

/-- Bounds that lie the wrong way round shut everything out. -/
theorem between_admits_nothing {low : Version} (hlow : low.isRelease = true) {a b c : UInt64}
    (h : ¬ low.core.Before ⟨a, b, c⟩) (v : Version) : Alternative.admits (between low a b c) v = false := by
  rw [Bool.eq_false_iff]
  intro hv
  simp only [Alternative.admits, between, List.all_cons, List.all_nil, Bool.and_eq_true, Comparator.admits,
    Relation.holds, Ordering.isLT_iff_eq_lt] at hv
  obtain ⟨⟨hge, hlt, -⟩, -⟩ := hv
  refine h ((compare_lowest hlow a b c).mp ?_)
  have hle : (Ord.compare low v).isLE = true := by
    rwa [Std.OrientedOrd.eq_swap, Ordering.isLE_swap]
  exact Std.TransCmp.lt_of_isLE_of_lt hle hlt

/-- The alternative admits a version, unless a number is counted on from that
is the largest: then it admits nothing. -/
def HoldsBelowLargest (cs : Alternative) (v : Version) (counted : Option UInt64) : Prop :=
  (counted ≠ some largestNumber → Alternative.admits cs v = true) ∧
  (counted = some largestNumber → ∀ w, Alternative.admits cs w = false)

theorem holdsBelowLargest_none {cs : Alternative} (h : Alternative.admits cs v = true) :
    HoldsBelowLargest cs v none :=
  ⟨fun _ => h, fun h' => by cases h'⟩

/-- The bound one past a number leaves room for the version that a range starts
with, unless the number is the largest. -/
theorem holdsBelowLargest_between {low : Version} (hlow : low.isRelease = true) (next : Core) {n : UInt64}
    (hnext : low.core.Before next ↔ n ≠ largestNumber) :
    HoldsBelowLargest (between low next.major next.minor next.patch) low (some n) := by
  simp only [HoldsBelowLargest, ne_eq, Option.some.injEq]
  refine ⟨fun h => ?_, fun h => between_admits_nothing hlow fun hb => hnext.mp hb h⟩
  rw [between_admits hlow]
  exact ⟨by simp, hnext.mpr h⟩

section

variable {low : Version} (hlow : low.isRelease = true) {a b d : UInt64}
include hlow

theorem between_next_major (h : [a] <+: low.core.numbers) :
    HoldsBelowLargest (between low (nextNumber a) 0 0) low (some a) :=
  holdsBelowLargest_between hlow ⟨nextNumber a, 0, 0⟩ (Core.before_next_major h)

theorem between_next_minor (h : [a, b] <+: low.core.numbers) :
    HoldsBelowLargest (between low a (nextNumber b) 0) low (some b) :=
  holdsBelowLargest_between hlow ⟨a, nextNumber b, 0⟩ (Core.before_next_minor h)

theorem between_next_patch (h : [a, b, d] <+: low.core.numbers) :
    HoldsBelowLargest (between low a b (nextNumber d)) low (some d) :=
  holdsBelowLargest_between hlow ⟨a, b, nextNumber d⟩ (Core.before_next_patch h)

end

theorem within_lower (hp : p.lower.isRelease = true) :
    HoldsBelowLargest p.within p.lower ((Operator.compare .eq).counted p) := by
  cases p with
  | any => exact holdsBelowLargest_none rfl
  | major a => exact between_next_major hp ⟨[0, 0], rfl⟩
  | minor a b => exact between_next_minor hp ⟨[0], rfl⟩
  | full w =>
    refine holdsBelowLargest_none ?_
    simp only [lower] at hp ⊢
    simp [within, Alternative.admits_single hp, Comparator.admits, Relation.holds]

theorem tilde_lower (hp : p.lower.isRelease = true) :
    HoldsBelowLargest p.tilde p.lower (Operator.tilde.counted p) := by
  cases p with
  | any => exact within_lower hp
  | major a => exact within_lower hp
  | minor a b => exact within_lower hp
  | full w => exact between_next_minor hp ⟨[w.core.patch], rfl⟩

theorem caret_lower (hp : p.lower.isRelease = true) :
    HoldsBelowLargest p.caret p.lower (Operator.caret.counted p) := by
  cases p with
  | any => exact holdsBelowLargest_none rfl
  | major a =>
    have hc : Operator.caret.counted (.major a) = some a := by simp [Operator.counted, given, throughNonzero]
    rw [hc]
    exact between_next_major hp ⟨[0, 0], rfl⟩
  | minor a b =>
    by_cases ha : a = 0
    · subst ha
      have hc : Operator.caret.counted (.minor 0 b) = some b := by simp [Operator.counted, given, throughNonzero]
      rw [hc, caret, if_pos rfl]
      exact between_next_minor hp ⟨[0], rfl⟩
    · have hc : Operator.caret.counted (.minor a b) = some a := by simp [Operator.counted, given, throughNonzero, ha]
      rw [hc, caret, if_neg ha]
      exact between_next_major hp ⟨[b, 0], rfl⟩
  | full w =>
    obtain ⟨⟨a, b, d⟩, pre⟩ := w
    by_cases ha : a = 0
    · subst ha
      by_cases hb : b = 0
      · subst hb
        have hc : Operator.caret.counted (.full ⟨⟨0, 0, d⟩, pre⟩) = some d := by
          simp [Operator.counted, given, Core.numbers, throughNonzero]
        rw [hc, caret, if_neg (by simp), if_neg (by simp)]
        exact between_next_patch hp ⟨[], rfl⟩
      · have hc : Operator.caret.counted (.full ⟨⟨0, b, d⟩, pre⟩) = some b := by
          simp [Operator.counted, given, Core.numbers, throughNonzero, hb]
        rw [hc, caret, if_neg (by simp), if_pos hb]
        exact between_next_minor hp ⟨[d], rfl⟩
    · have hc : Operator.caret.counted (.full ⟨⟨a, b, d⟩, pre⟩) = some a := by
        simp [Operator.counted, given, Core.numbers, throughNonzero, ha]
      rw [hc, caret, if_pos ha]
      exact between_next_major hp ⟨[b, d], rfl⟩

/-- Above a version are none of the releases that have its numbers, unless the
bound is one past the largest number: then they all are. -/
theorem above_admits_iff_counted (hp : p.lower.isRelease = true) (hv : v.isRelease = true)
    (h : p.given <+: v.core.numbers) :
    Alternative.admits p.above v = true ↔ (Operator.compare .gt).counted p = some largestNumber := by
  cases p with
  | any => simp [above, Alternative.admits_single hv, Comparator.admits_lt_lowest hv, Core.not_before_zero,
      Operator.counted, given]
  | major a =>
    rw [above, Alternative.admits_single hv, Comparator.admits_ge_release hv, Core.before_next_major h]
    simp [Operator.counted, given]
  | minor a b =>
    rw [above, Alternative.admits_single hv, Comparator.admits_ge_release hv, Core.before_next_minor h]
    simp [Operator.counted, given]
  | full w =>
    have hvw : v = w := by
      obtain ⟨⟨a, b, d⟩, pre⟩ := v
      obtain ⟨⟨a', b', d'⟩, pre'⟩ := w
      simp_all [lower, isRelease_iff, given, Core.numbers]
    subst hvw
    rw [above, Alternative.admits_single hv]
    simp [Comparator.admits, Relation.holds, Operator.counted]

end Partial

namespace Range

/-- **Ranges at the largest number.** A version, alone or behind a caret or a
tilde, is a range that holds the version with zeros for its missing numbers,
and above a version are none of the releases that have its numbers. Only if
the number counted on from is the largest, the range holds nothing, and above
the version are all of these releases. -/
theorem admits_lower_unless_largest {p : Partial} (hp : p.lower.isRelease = true) :
    (Partial.read? p.text = some p ∧ p.text.head? ≠ some '=') ∧
    ∀ t : String, Partial.read? t.toList = some p →
      (∀ w ∈ [("", .compare .eq), ("^", .caret), ("~", .tilde)], ∃ r, parse (w.1 ++ t) = .ok r ∧
        (Operator.counted w.2 p ≠ some largestNumber → r.admits p.lower = true) ∧
        (Operator.counted w.2 p = some largestNumber → ∀ v, r.admits v = false)) ∧
      (t.toList.head? ≠ some '=' → ∃ r, parse (">" ++ t) = .ok r ∧
        ∀ v : Version, v.isRelease = true → p.given <+: v.core.numbers →
          (r.admits v = true ↔ (Operator.compare .gt).counted p = some largestNumber)) := by
  refine ⟨⟨Partial.read?_text p, Partial.head?_text p⟩, fun t ht => ⟨fun w hw => ?_, fun he => ?_⟩⟩
  · have hsingle {cs : Alternative} {counted : Option UInt64} (h : Partial.HoldsBelowLargest cs p.lower counted) :
        (counted ≠ some largestNumber → admits ⟨[cs]⟩ p.lower = true) ∧
        (counted = some largestNumber → ∀ v, admits ⟨[cs]⟩ v = false) := by
      simpa [Partial.HoldsBelowLargest, admits] using h
    simp only [List.mem_cons, List.not_mem_nil, or_false] at hw
    rcases hw with rfl | rfl | rfl
    · exact ⟨_, parse_operator_append (show ([], .compare .eq) ∈ written by decide) ht (by simp),
        hsingle (Partial.within_lower hp)⟩
    · exact ⟨_, parse_operator_append (show (['^'], .caret) ∈ written by decide) ht (by simp),
        hsingle (Partial.caret_lower hp)⟩
    · exact ⟨_, parse_operator_append (show (['~'], .tilde) ∈ written by decide) ht (by simp),
        hsingle (Partial.tilde_lower hp)⟩
  · refine ⟨_, parse_operator_append (show (['>'], .compare .gt) ∈ written by decide) ht fun h => absurd h he,
      fun v hv hgiven => ?_⟩
    rw [admits_single]
    exact Partial.above_admits_iff_counted hp hv hgiven

/-- A caret counts on from the first number, a tilde from the largest. -/
theorem admits_lower_largest_minor :
    (Partial.minor 1 largestNumber).lower.isRelease = true ∧
    Partial.read? "1.18446744073709551615".toList = some (.minor 1 largestNumber) ∧
    (∃ r, parse ("^" ++ "1.18446744073709551615") = .ok r ∧ r.admits (.release 1 largestNumber 0) = true) ∧
    ∃ r, parse ("~" ++ "1.18446744073709551615") = .ok r ∧ ∀ v, r.admits v = false := by
  have hp : (Partial.minor 1 largestNumber).lower.isRelease = true := rfl
  have ht : Partial.read? "1.18446744073709551615".toList = some (.minor 1 largestNumber) := by decide
  have h := ((admits_lower_unless_largest hp).2 "1.18446744073709551615" ht).1
  obtain ⟨r, hr, hholds, -⟩ := h ("^", .caret) (by simp)
  obtain ⟨s, hs, -, hnothing⟩ := h ("~", .tilde) (by simp)
  exact ⟨hp, ht, ⟨r, hr, hholds (by decide)⟩, s, hs, hnothing (by decide)⟩

/-- The largest major number is not in its own range, and its first release is
above it. -/
theorem not_admits_largest_major :
    (∃ r, parse "18446744073709551615" = .ok r ∧ r.admits (.release 18446744073709551615 0 0) = false) ∧
    ∃ r, parse ">18446744073709551615" = .ok r ∧ r.admits (.release 18446744073709551615 0 0) = true := by
  refine ⟨⟨⟨[[⟨.ge, .release 18446744073709551615 0 0⟩, ⟨.lt, .lowest 18446744073709551615 0 0⟩]]⟩, ?_, ?_⟩,
    ⟨[[⟨.ge, .release 18446744073709551615 0 0⟩]]⟩, ?_, ?_⟩ <;> decide

end Range

end VersionPick
