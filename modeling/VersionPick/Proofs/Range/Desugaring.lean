/-
What ranges mean, said without their comparators. `Operator.Asks` is the
meaning of an operator in front of a version text, in terms of the numbers
that the text gives and the version they start with: agreement with them, or a
comparison of as many numbers as there are. `Operator.apply_admits` shows that
the comparators which an operator makes of a partial version admit exactly the
releases it asks for, and `Range.admits_iff_asks` says so of range texts,
whatever wildcards they hold.

The bounds of the comparators are one past the numbers given, so a number has
to have a next one (`Partial.BelowTop`).
-/
import VersionPick.Proofs.Range.Components
import VersionPick.Proofs.Range.Reading

namespace VersionPick

open Version

/-- Every number given has a next one. -/
def Partial.BelowTop (p : Partial) : Prop := ∀ n ∈ p.given, n.toNat < 2 ^ 64 - 1

/-- The numbers up to the first that is not zero. -/
def throughNonzero : List UInt64 → List UInt64
  | [] => []
  | n :: ns => if n = 0 then n :: throughNonzero ns else [n]

/-- What a relation says of how two things compare. -/
def Relation.Says : Relation → Ordering → Prop
  | .lt, o => o = .lt
  | .le, o => o ≠ .gt
  | .eq, o => o = .eq
  | .ge, o => o ≠ .lt
  | .gt, o => o = .gt

instance Relation.decidableSays (o : Ordering) : ∀ r : Relation, Decidable (r.Says o)
  | .lt => inferInstanceAs (Decidable (o = .lt))
  | .le => inferInstanceAs (Decidable (o ≠ .gt))
  | .eq => inferInstanceAs (Decidable (o = .eq))
  | .ge => inferInstanceAs (Decidable (o ≠ .lt))
  | .gt => inferInstanceAs (Decidable (o = .gt))

theorem Relation.holds_iff_says {o : Ordering} : ∀ r : Relation, r.holds o = true ↔ r.Says o
  | .lt | .le | .eq | .ge | .gt => by cases o <;> simp [holds, Says]

/-- What an operator asks of a release `v`, where the text behind the operator
gives the numbers `ns` and `low` is the version they start with. Three numbers
are compared as the version itself. -/
def Operator.Asks : Operator → List UInt64 → Version → Version → Prop
  | .tilde, ns, low, v => (Ord.compare v low).isGE ∧ ns.take 2 <+: v.core.numbers
  | .caret, ns, low, v => (Ord.compare v low).isGE ∧ throughNonzero ns <+: v.core.numbers
  | .compare .eq, ns, low, v => if ns.length = 3 then Ord.compare v low = .eq else ns <+: v.core.numbers
  | .compare r, ns, low, v =>
    r.Says (if ns.length = 3 then Ord.compare v low else Ord.compare (v.core.numbers.take ns.length) ns)

instance Operator.decidableAsks (ns : List UInt64) (low v : Version) : ∀ op : Operator, Decidable (op.Asks ns low v)
  | .tilde => inferInstanceAs (Decidable (_ ∧ _))
  | .caret => inferInstanceAs (Decidable (_ ∧ _))
  | .compare .eq =>
    inferInstanceAs (Decidable (if ns.length = 3 then Ord.compare v low = .eq else ns <+: v.core.numbers))
  | .compare .lt => Relation.decidableSays _ .lt
  | .compare .le => Relation.decidableSays _ .le
  | .compare .ge => Relation.decidableSays _ .ge
  | .compare .gt => Relation.decidableSays _ .gt

/-- How operators are written, and what they mean; one is no sign at all. -/
def Operator.forms : List (List Char × Operator) := [
  ([], .compare .eq),
  (['='], .compare .eq),
  (['<'], .compare .lt),
  (['<', '='], .compare .le),
  (['>'], .compare .gt),
  (['>', '='], .compare .ge),
  (['~'], .tilde),
  (['~', '>'], .tilde),
  (['^'], .caret)]

theorem Operator.written_of_forms : ∀ w ∈ forms, w ∈ Range.written := by decide

/-! ## Bounds -/

theorem nextNumber_toNat {n : UInt64} (h : n.toNat < 2 ^ 64 - 1) : (nextNumber n).toNat = n.toNat + 1 := by
  have hne : n ≠ 18446744073709551615 := by
    rintro rfl
    exact absurd h (by decide)
  simp only [nextNumber, hne, if_false, UInt64.toNat_add]
  have : (1 : UInt64).toNat = 1 := rfl
  omega

/-- Releases need no comparator that asks for them. -/
theorem Alternative.admits_release {cs : Alternative} {v : Version} (hv : v.isRelease = true) :
    Alternative.admits cs v = true ↔ ∀ c ∈ cs, c.admits v = true := by
  simp [Alternative.admits, hv]

/-- Of releases, an alternative behind another admits what both admit. -/
theorem Alternative.admits_append {cs ds : Alternative} {v : Version} (hv : v.isRelease = true) :
    Alternative.admits (cs ++ ds) v = (Alternative.admits cs v && Alternative.admits ds v) := by
  simp [Alternative.admits, hv]

theorem Alternative.admits_single {c : Comparator} {v : Version} (hv : v.isRelease = true) :
    Alternative.admits [c] v = true ↔ c.admits v = true := by
  simp [Alternative.admits_release hv]

theorem Comparator.admits_ge_release {v : Version} (hv : v.isRelease = true) (a b c : UInt64) :
    (Comparator.admits ⟨.ge, .release a b c⟩ v = true) ↔ ¬ v.core.Before ⟨a, b, c⟩ := by
  simp only [Comparator.admits, Relation.holds, compare_release hv, Ordering.isGE_iff_ne_lt,
    Core.compare_eq_lt]

theorem Comparator.admits_lt_lowest {v : Version} (hv : v.isRelease = true) (a b c : UInt64) :
    (Comparator.admits ⟨.lt, .lowest a b c⟩ v = true) ↔ v.core.Before ⟨a, b, c⟩ := by
  simp only [Comparator.admits, Relation.holds, Ordering.isLT_iff_eq_lt, compare_lowest hv]

theorem isGE_compare_release {v : Version} (hv : v.isRelease = true) (a b c : UInt64) :
    (Ord.compare v (.release a b c)).isGE = true ↔ ¬ v.core.Before ⟨a, b, c⟩ :=
  Comparator.admits_ge_release hv a b c

theorem Partial.between_admits {v : Version} (hv : v.isRelease = true) (low : Version) (a b c : UInt64) :
    Alternative.admits (between low a b c) v = true ↔
      (Ord.compare v low).isGE = true ∧ v.core.Before ⟨a, b, c⟩ := by
  simp only [Alternative.admits_release hv, between, List.forall_mem_cons, List.not_mem_nil,
    false_implies, implies_true, and_true, Comparator.admits_lt_lowest hv]
  simp [Comparator.admits, Relation.holds]

/-! ## Numbers and bounds

A core begins with given numbers when it is not before them, filled up with
zeros, and before the next ones. -/

namespace Core

variable {c : Core} {a b d : UInt64}

theorem not_before_self (c : Core) : ¬ c.Before c := by
  simp [Before]

theorem not_before_zero (c : Core) : ¬ c.Before ⟨0, 0, 0⟩ := by
  simp [Before]

theorem not_before_trans {c' c'' : Core} (h : ¬ c.Before c') (h' : ¬ c'.Before c'') : ¬ c.Before c'' := by
  simp only [Before] at *
  omega

theorem take_lt_major : Ord.compare (c.numbers.take 1) [a] = .lt ↔ c.Before ⟨a, 0, 0⟩ := by
  simp only [numbers, List.take, List.compare_cons_cons, List.compare_nil_nil, Ordering.then_eq,
    compare_word_eq_lt, Before, UInt64.toNat_zero]
  omega

theorem take_le_major (ha : a.toNat < 2 ^ 64 - 1) :
    (Ord.compare (c.numbers.take 1) [a]).isLE = true ↔ c.Before ⟨nextNumber a, 0, 0⟩ := by
  simp only [Ordering.isLE_iff_ne_gt, numbers, List.take, List.compare_cons_cons, List.compare_nil_nil,
    Ordering.then_eq, compare_word_eq_gt, Before, UInt64.toNat_zero, nextNumber_toNat ha]
  omega

theorem take_lt_minor : Ord.compare (c.numbers.take 2) [a, b] = .lt ↔ c.Before ⟨a, b, 0⟩ := by
  simp only [numbers, List.take, List.compare_cons_cons, List.compare_nil_nil, Ordering.then_eq,
    Ordering.then_eq_lt, compare_word_eq_lt, compare_word_eq_eq, Before, UInt64.toNat_zero]
  omega

theorem take_le_minor (hb : b.toNat < 2 ^ 64 - 1) :
    (Ord.compare (c.numbers.take 2) [a, b]).isLE = true ↔ c.Before ⟨a, nextNumber b, 0⟩ := by
  simp only [Ordering.isLE_iff_ne_gt, numbers, List.take, List.compare_cons_cons, List.compare_nil_nil,
    Ordering.then_eq, Ordering.then_eq_gt, compare_word_eq_gt, compare_word_eq_eq, Before, UInt64.toNat_zero,
    nextNumber_toNat hb]
  omega

theorem prefix_iff_compare {ns ms : List UInt64} : ns <+: ms ↔ Ord.compare (ms.take ns.length) ns = .eq := by
  rw [Std.LawfulEqOrd.compare_eq_iff_eq, List.prefix_iff_eq_take, eq_comm]

theorem eq_iff_ne_lt_isLE {o : Ordering} : o = .eq ↔ ¬ o = .lt ∧ o.isLE = true := by
  cases o <;> simp

theorem prefix_major (ha : a.toNat < 2 ^ 64 - 1) :
    [a] <+: c.numbers ↔ ¬ c.Before ⟨a, 0, 0⟩ ∧ c.Before ⟨nextNumber a, 0, 0⟩ := by
  rw [prefix_iff_compare, eq_iff_ne_lt_isLE, List.length_singleton, take_lt_major, take_le_major ha]

theorem prefix_minor (hb : b.toNat < 2 ^ 64 - 1) :
    [a, b] <+: c.numbers ↔ ¬ c.Before ⟨a, b, 0⟩ ∧ c.Before ⟨a, nextNumber b, 0⟩ := by
  rw [prefix_iff_compare, eq_iff_ne_lt_isLE]
  simp only [List.length_cons, List.length_nil]
  rw [take_lt_minor, take_le_minor hb]

theorem prefix_patch (hd : d.toNat < 2 ^ 64 - 1) :
    [a, b, d] <+: c.numbers ↔ ¬ c.Before ⟨a, b, d⟩ ∧ c.Before ⟨a, b, nextNumber d⟩ := by
  simp only [numbers, List.cons_prefix_cons, List.nil_prefix, and_true, ← UInt64.toNat_inj, Before,
    nextNumber_toNat hd]
  omega

end Core

/-! ## Operators -/

namespace Partial

variable {v : Version} {p : Partial}

theorem within_admits (hv : v.isRelease = true) (hp : p.BelowTop) :
    Alternative.admits p.within v = true ↔ (Operator.compare .eq).Asks p.given p.lower v := by
  cases p with
  | any => simp [within, Operator.Asks, given, Alternative.admits, hv]
  | major a =>
    have ha := hp a (by simp [given])
    simp only [within, between_admits hv, isGE_compare_release hv, ← Core.prefix_major ha]
    simp [Operator.Asks, given]
  | minor a b =>
    have hb := hp b (by simp [given])
    simp only [within, between_admits hv, isGE_compare_release hv, ← Core.prefix_minor hb]
    simp [Operator.Asks, given]
  | full w =>
    simp only [within, Alternative.admits_single hv, Comparator.admits, Relation.holds_iff_says]
    simp [Operator.Asks, given, Core.numbers, lower, Relation.Says]

theorem above_admits (hv : v.isRelease = true) (hp : p.BelowTop) :
    Alternative.admits p.above v = true ↔ (Operator.compare .gt).Asks p.given p.lower v := by
  cases p with
  | any =>
    simp only [above, Alternative.admits_single hv, Comparator.admits_lt_lowest hv, Core.not_before_zero]
    simp [Operator.Asks, given, Relation.Says]
  | major a =>
    have ha := hp a (by simp [given])
    simp only [above, Alternative.admits_single hv, Comparator.admits_ge_release hv, ← Core.take_le_major ha]
    simp [Operator.Asks, given, Relation.Says]
  | minor a b =>
    have hb := hp b (by simp [given])
    simp only [above, Alternative.admits_single hv, Comparator.admits_ge_release hv, ← Core.take_le_minor hb]
    simp [Operator.Asks, given, Relation.Says]
  | full w =>
    simp only [above, Alternative.admits_single hv, Comparator.admits, Relation.holds_iff_says]
    simp [Operator.Asks, given, Core.numbers, lower]

theorem atLeast_admits (hv : v.isRelease = true) :
    Alternative.admits p.atLeast v = true ↔ (Operator.compare .ge).Asks p.given p.lower v := by
  cases p with
  | any => simp [atLeast, Alternative.admits, hv, Operator.Asks, given, Relation.Says]
  | major a =>
    simp only [atLeast, Alternative.admits_single hv, Comparator.admits_ge_release hv, ← Core.take_lt_major]
    simp [Operator.Asks, given, Relation.Says]
  | minor a b =>
    simp only [atLeast, Alternative.admits_single hv, Comparator.admits_ge_release hv, ← Core.take_lt_minor]
    simp [Operator.Asks, given, Relation.Says]
  | full w =>
    simp only [atLeast, Alternative.admits_single hv, Comparator.admits, Relation.holds_iff_says]
    simp [Operator.Asks, given, Core.numbers, lower]

theorem below_admits (hv : v.isRelease = true) :
    Alternative.admits p.below v = true ↔ (Operator.compare .lt).Asks p.given p.lower v := by
  cases p with
  | any =>
    simp only [below, Alternative.admits_single hv, Comparator.admits_lt_lowest hv, Core.not_before_zero]
    simp [Operator.Asks, given, Relation.Says]
  | major a =>
    simp only [below, Alternative.admits_single hv, Comparator.admits_lt_lowest hv, ← Core.take_lt_major]
    simp [Operator.Asks, given, Relation.Says]
  | minor a b =>
    simp only [below, Alternative.admits_single hv, Comparator.admits_lt_lowest hv, ← Core.take_lt_minor]
    simp [Operator.Asks, given, Relation.Says]
  | full w =>
    simp only [below, Alternative.admits_single hv, Comparator.admits, Relation.holds_iff_says]
    simp [Operator.Asks, given, Core.numbers, lower]

theorem atMost_admits (hv : v.isRelease = true) (hp : p.BelowTop) :
    Alternative.admits p.atMost v = true ↔ (Operator.compare .le).Asks p.given p.lower v := by
  cases p with
  | any => simp [atMost, Alternative.admits, hv, Operator.Asks, given, Relation.Says]
  | major a =>
    have ha := hp a (by simp [given])
    simp only [atMost, Alternative.admits_single hv, Comparator.admits_lt_lowest hv, ← Core.take_le_major ha,
      Ordering.isLE_iff_ne_gt]
    simp [Operator.Asks, given, Relation.Says]
  | minor a b =>
    have hb := hp b (by simp [given])
    simp only [atMost, Alternative.admits_single hv, Comparator.admits_lt_lowest hv, ← Core.take_le_minor hb,
      Ordering.isLE_iff_ne_gt]
    simp [Operator.Asks, given, Relation.Says]
  | full w =>
    simp only [atMost, Alternative.admits_single hv, Comparator.admits, Relation.holds_iff_says]
    simp [Operator.Asks, given, Core.numbers, lower]

/-- The bounds of a range that begins at a version and keeps some of its
numbers: of the two lower bounds only the version's is needed. -/
theorem between_asks (hv : v.isRelease = true) {low : Version} {ns : List UInt64} {first : Core} (next : Core)
    (hfirst : ¬ low.core.Before first)
    (hns : ns <+: v.core.numbers ↔ ¬ v.core.Before first ∧ v.core.Before next) :
    Alternative.admits (between low next.major next.minor next.patch) v = true ↔
      (Ord.compare v low).isGE = true ∧ ns <+: v.core.numbers := by
  rw [between_admits hv, hns]
  refine and_congr_right fun hge => ⟨fun h => ⟨?_, h⟩, fun h => h.2⟩
  exact Core.not_before_trans (not_before_of_not_lt (Ordering.isGE_iff_ne_lt.mp hge)) hfirst

/-- At least a version, and before the next of its first two numbers. -/
theorem tilde_admits (hv : v.isRelease = true) (hp : p.BelowTop) :
    Alternative.admits p.tilde v = true ↔ Operator.tilde.Asks p.given p.lower v := by
  cases p with
  | any =>
    simp [tilde, within, Alternative.admits, hv, Operator.Asks, given, lower, isGE_compare_release hv,
      Core.not_before_zero]
  | major a =>
    have ha := hp a (by simp [given])
    exact between_asks hv ⟨nextNumber a, 0, 0⟩ (Core.not_before_self _) (Core.prefix_major ha)
  | minor a b =>
    have hb := hp b (by simp [given])
    exact between_asks hv ⟨a, nextNumber b, 0⟩ (Core.not_before_self _) (Core.prefix_minor hb)
  | full w =>
    have hb := hp w.core.minor (by simp [given, Core.numbers])
    exact between_asks hv ⟨w.core.major, nextNumber w.core.minor, 0⟩ (by simp [Core.Before])
      (Core.prefix_minor hb)

/-- At least a version, and before the next of its first number that is not
zero. -/
theorem caret_admits (hv : v.isRelease = true) (hp : p.BelowTop) :
    Alternative.admits p.caret v = true ↔ Operator.caret.Asks p.given p.lower v := by
  cases p with
  | any =>
    simp [caret, Alternative.admits, hv, Operator.Asks, given, lower, throughNonzero,
      isGE_compare_release hv, Core.not_before_zero]
  | major a =>
    have ha := hp a (by simp [given])
    have ht : throughNonzero [a] = [a] := by simp [throughNonzero]
    simp only [caret, Operator.Asks, given, lower, ht]
    exact between_asks hv ⟨nextNumber a, 0, 0⟩ (Core.not_before_self _) (Core.prefix_major ha)
  | minor a b =>
    have ha := hp a (by simp [given])
    have hb := hp b (by simp [given])
    by_cases h0 : a = 0
    · subst h0
      have ht : throughNonzero [0, b] = [0, b] := by simp [throughNonzero]
      simp only [caret, if_true, Operator.Asks, given, lower, ht]
      exact between_asks hv ⟨0, nextNumber b, 0⟩ (Core.not_before_self _) (Core.prefix_minor hb)
    · have ht : throughNonzero [a, b] = [a] := by simp [throughNonzero, h0]
      simp only [caret, h0, if_false, Operator.Asks, given, lower, ht]
      exact between_asks hv ⟨nextNumber a, 0, 0⟩ (by simp [Core.Before, release]) (Core.prefix_major ha)
  | full w =>
    obtain ⟨⟨a, b, d⟩, pre⟩ := w
    have ha := hp a (by simp [given, Core.numbers])
    have hb := hp b (by simp [given, Core.numbers])
    have hd := hp d (by simp [given, Core.numbers])
    by_cases h0 : a = 0
    · subst h0
      by_cases h0 : b = 0
      · subst h0
        have ht : throughNonzero [0, 0, d] = [0, 0, d] := by simp [throughNonzero]
        simp only [caret, ne_eq, not_true, if_false, Operator.Asks, given, Core.numbers, lower, ht]
        exact between_asks hv ⟨0, 0, nextNumber d⟩ (Core.not_before_self _) (Core.prefix_patch hd)
      · have ht : throughNonzero [0, b, d] = [0, b] := by simp [throughNonzero, h0]
        simp only [caret, ne_eq, not_true, if_false, h0, not_false_iff, if_true, Operator.Asks, given,
          Core.numbers, lower, ht]
        exact between_asks hv ⟨0, nextNumber b, 0⟩ (by simp [Core.Before]) (Core.prefix_minor hb)
    · have ht : throughNonzero [a, b, d] = [a] := by simp [throughNonzero, h0]
      simp only [caret, ne_eq, h0, not_false_iff, if_true, Operator.Asks, given, Core.numbers, lower, ht]
      exact between_asks hv ⟨nextNumber a, 0, 0⟩ (by simp [Core.Before]) (Core.prefix_major ha)

/-- Both ends of a hyphen range are asked for. -/
theorem upTo_admits (hv : v.isRelease = true) {q : Partial} (hq : q.BelowTop) :
    Alternative.admits (p.upTo q) v = true ↔
      (Operator.compare .ge).Asks p.given p.lower v ∧ (Operator.compare .le).Asks q.given q.lower v := by
  rw [← atLeast_admits hv, ← atMost_admits hv hq, upTo, Alternative.admits_append hv, Bool.and_eq_true]

end Partial

/-- The comparators that an operator makes admit the releases it asks for. -/
theorem Operator.apply_admits {v : Version} (hv : v.isRelease = true) {p : Partial} (hp : p.BelowTop) :
    ∀ op : Operator, Alternative.admits (op.apply p) v = true ↔ op.Asks p.given p.lower v
  | .compare .eq => Partial.within_admits hv hp
  | .compare .gt => Partial.above_admits hv hp
  | .compare .ge => Partial.atLeast_admits hv
  | .compare .lt => Partial.below_admits hv
  | .compare .le => Partial.atMost_admits hv hp
  | .tilde => Partial.tilde_admits hv hp
  | .caret => Partial.caret_admits hv hp

/-! ## Range texts -/

namespace Range

theorem admits_alternative (alternative : Alternative) (v : Version) :
    admits ⟨[alternative]⟩ v = Alternative.admits alternative v := by
  simp [admits]

theorem admits_single {alternative : Alternative} {v : Version} :
    admits ⟨[alternative]⟩ v = true ↔ Alternative.admits alternative v = true := by
  rw [admits_alternative]

/-- **What ranges mean.** An operator in front of a version text, or none, is a
range that admits the releases it asks for, in terms of the numbers before the
first wildcard; a hyphen range admits the releases from its first version to its
second. An equals sign in front of the version is no part of it, but continues
the operators `<` and `>`. -/
theorem admits_iff_asks :
    (∀ t, (∃ p, Partial.read? t = some p) ↔ ∃ s : Partial.Spelling, s.text = t) ∧
    ∀ s : Partial.Spelling, (∀ n ∈ s.given, n.toNat < 2 ^ 64 - 1) →
      (∀ w ∈ Operator.forms, (s.lead.head? = some '=' → w.1 ≠ ['<'] ∧ w.1 ≠ ['>']) →
        ∃ r, read? (w.1 ++ s.text) = some r ∧
          ∀ v : Version, v.isRelease = true → (r.admits v = true ↔ w.2.Asks s.given s.lower v)) ∧
      (∀ low : Partial.Spelling, ∃ r, read? (low.text ++ ' ' :: '-' :: ' ' :: s.text) = some r ∧
        ∀ v : Version, v.isRelease = true → (r.admits v = true ↔
          (Operator.compare .ge).Asks low.given low.lower v ∧ (Operator.compare .le).Asks s.given s.lower v)) := by
  refine ⟨fun t => Partial.exists_read?_iff, fun s hs => ?_⟩
  obtain ⟨p, hread, hgiven, hlower⟩ := s.exists_read?_text
  have hp : p.BelowTop := fun n hn => hs n (hgiven ▸ hn)
  rw [← hgiven, ← hlower]
  refine ⟨fun w hw he => ?_, fun low => ?_⟩
  · have hwritten := Operator.written_of_forms w hw
    refine ⟨_, read?_operator_append hwritten hread fun h => he (s.head?_lead h), fun v hv => ?_⟩
    rw [admits_single, Operator.apply_admits hv hp]
  · obtain ⟨q, hq, hqgiven, hqlower⟩ := low.exists_read?_text
    refine ⟨_, read?_hyphen hq hread, fun v hv => ?_⟩
    rw [admits_single, Partial.upTo_admits hv hp, hqgiven, hqlower]

/-- The number and the pre-release behind a wildcard do not count. -/
theorem wildcard_texts_admit : ∃ low high : Partial.Spelling,
    (low.text = "0.2.X".toList ∧ low.given = [0, 2] ∧ low.lower = .release 0 2 0 ∧
      ∀ n ∈ low.given, n.toNat < 2 ^ 64 - 1) ∧
    (high.text = "1.x.3-rc".toList ∧ high.given = [1] ∧ high.lower = .release 1 0 0 ∧
      ∀ n ∈ high.given, n.toNat < 2 ^ 64 - 1) ∧
    (∃ r, read? "^0.2.X".toList = some r ∧ r.admits (.release 0 2 7) = true ∧
      r.admits (.release 0 3 0) = false) ∧
    (∃ r, read? "~1.x.3-rc".toList = some r ∧ r.admits (.release 1 0 0) = true ∧
      r.admits (.release 2 0 0) = false) ∧
    ∃ r, read? "0.2.X - 1.x.3-rc".toList = some r ∧ r.admits (.release 1 9 0) = true ∧
      r.admits (.release 0 1 9) = false ∧ r.admits (.release 2 0 0) = false := by
  let low : Partial.Spelling := { components := [.number 0, .number 2, .wildcard 'X' (by decide)] }
  let high : Partial.Spelling :=
    { components := [.number 1, .wildcard 'x' (by decide), .number 3]
      pre := some [⟨['r', 'c'], by decide⟩] }
  have hlow : ∀ n ∈ low.given, n.toNat < 2 ^ 64 - 1 := by
    simp [low, Partial.Spelling.given, Partial.Component.given]
  have hhigh : ∀ n ∈ high.given, n.toNat < 2 ^ 64 - 1 := by
    simp [high, Partial.Spelling.given, Partial.Component.given]
  refine ⟨low, high, ⟨by decide, by decide, by decide, hlow⟩, ⟨by decide, by decide, by decide, hhigh⟩, ?_, ?_, ?_⟩
  · obtain ⟨r, hr, h⟩ := (admits_iff_asks.2 low hlow).1 (['^'], .caret) (by decide) (by decide)
    refine ⟨r, hr, (h _ rfl).mpr (by decide), Bool.eq_false_iff.mpr fun ha => ?_⟩
    exact absurd ((h _ rfl).mp ha) (by decide)
  · obtain ⟨r, hr, h⟩ := (admits_iff_asks.2 high hhigh).1 (['~'], .tilde) (by decide) (by decide)
    refine ⟨r, hr, (h _ rfl).mpr (by decide), Bool.eq_false_iff.mpr fun ha => ?_⟩
    exact absurd ((h _ rfl).mp ha) (by decide)
  · obtain ⟨r, hr, h⟩ := (admits_iff_asks.2 high hhigh).2 low
    refine ⟨r, hr, (h _ rfl).mpr (by decide), Bool.eq_false_iff.mpr fun ha => ?_,
      Bool.eq_false_iff.mpr fun ha => ?_⟩
    · exact absurd ((h _ rfl).mp ha) (by decide)
    · exact absurd ((h _ rfl).mp ha) (by decide)

end Range

end VersionPick
