/-
The precedence of versions is a linear order, and `X.Y.Z-0` is the least of
the pre-releases of `X.Y.Z`.

Each comparison of the model is a lexicographic one in disguise
(`Identifier.compare_eq`, `comparePre_eq`), so the order laws come from those
of numbers and texts. `Core.compare_eq_lt` says the order of cores in plain
arithmetic, which is what the bounds of ranges are reasoned with.
-/
import VersionPick.Version
import VersionPick.Proofs.Text.Decimal

namespace VersionPick

open Text Version

/-! ## Cores -/

instance : Std.TransOrd Core :=
  inferInstanceAs (Std.TransCmp (compareLex (compareOn Core.major)
    (compareLex (compareOn Core.minor) (compareOn Core.patch))))

theorem Core.compare_def (a b : Core) : Ord.compare a b =
    (Ord.compare a.major b.major).then
      ((Ord.compare a.minor b.minor).then (Ord.compare a.patch b.patch)) := rfl

instance : Std.LawfulEqOrd Core where
  eq_of_compare {a b} h := by
    simp only [Core.compare_def, Ordering.then_eq_eq, Std.LawfulEqOrd.compare_eq_iff_eq] at h
    obtain ⟨h₁, h₂, h₃⟩ := h
    cases a; cases b; cases h₁; cases h₂; cases h₃; rfl

/-- The numbers of one core come before those of another. -/
def Core.Before (a b : Core) : Prop :=
  a.major.toNat < b.major.toNat ∨ a.major.toNat = b.major.toNat ∧
    (a.minor.toNat < b.minor.toNat ∨ a.minor.toNat = b.minor.toNat ∧
      a.patch.toNat < b.patch.toNat)

theorem compare_word_eq_lt {a b : UInt64} : compare a b = .lt ↔ a.toNat < b.toNat := by
  rw [Std.compare_eq_lt, UInt64.lt_iff_toNat_lt]

theorem compare_word_eq_eq {a b : UInt64} : compare a b = .eq ↔ a.toNat = b.toNat := by
  rw [Std.LawfulEqOrd.compare_eq_iff_eq, UInt64.toNat_inj]

theorem compare_word_eq_gt {a b : UInt64} : compare a b = .gt ↔ b.toNat < a.toNat := by
  rw [Std.compare_eq_gt, UInt64.lt_iff_toNat_lt]

theorem Core.compare_eq_lt {a b : Core} : Ord.compare a b = .lt ↔ a.Before b := by
  simp only [Core.compare_def, Core.Before, Ordering.then_eq_lt, compare_word_eq_lt,
    compare_word_eq_eq]

theorem Core.compare_eq_gt {a b : Core} : Ord.compare a b = .gt ↔ b.Before a := by
  rw [Std.OrientedOrd.eq_swap, Ordering.swap_eq_gt, Core.compare_eq_lt]

/-! ## Identifiers -/

namespace Version.Identifier

/-- Numbers stand before all other identifiers. -/
def rank (i : Identifier) : Nat := if i.isNumeric then 0 else 1

/-- The number of digits of a number; it says nothing about other identifiers. -/
def width (i : Identifier) : Nat := if i.isNumeric then i.text.length else 0

theorem compare_eq (i j : Identifier) : Ord.compare i j =
    compareLex (compareOn rank) (compareLex (compareOn width) (compareOn text)) i j := by
  change Identifier.compare i j = _
  unfold Identifier.compare compareLex compareOn rank width
  cases hi : i.isNumeric <;> cases hj : j.isNumeric <;> simp <;> rfl

instance : Std.TransOrd Identifier where
  eq_swap {i j} := by rw [compare_eq, compare_eq]; exact Std.OrientedCmp.eq_swap
  isLE_trans {i j k} h₁ h₂ := by
    rw [compare_eq] at h₁ h₂ ⊢
    exact Std.TransCmp.isLE_trans h₁ h₂

instance : Std.LawfulEqOrd Identifier where
  eq_of_compare {i j} h := by
    rw [compare_eq] at h
    simp only [compareLex_eq_eq, compareOn, Std.LawfulEqOrd.compare_eq_iff_eq] at h
    cases i; cases j; cases h.2.2; rfl

theorem text_ne_nil (i : Identifier) : i.text ≠ [] := by
  have h := i.isText
  intro he
  simp [isIdentifierText, he] at h

/-- No identifier stands before `0`. -/
theorem isLE_compare_lowest (i : Identifier) : (Ord.compare lowest i).isLE := by
  change (Identifier.compare lowest i).isLE
  unfold Identifier.compare
  have hl : lowest.isNumeric = true := by decide
  cases hi : i.isNumeric with
  | false => simp [hl]
  | true =>
    simp only [hl]
    obtain ⟨c, cs, hc⟩ := List.exists_cons_of_ne_nil i.text_ne_nil
    have hd : c.isDigit = true := by
      have := hi
      simp only [isNumeric, isNumericText, hc, List.all_cons, Bool.and_eq_true] at this
      exact this.1
    have hle : (Ord.compare '0' c).isLE := by
      rw [show Ord.compare '0' c = compareOfLessAndEq '0' c from rfl]
      refine (isLE_compareOfLessAndEq Char.le_antisymm Char.not_le Char.le_total).mpr ?_
      simp only [Char.isDigit, Bool.and_eq_true, decide_eq_true_eq] at hd
      exact hd.1
    rw [hc]
    cases cs with
    | nil =>
      simp only [lowest, List.length_cons, List.length_nil, List.compare_cons_cons,
        List.compare_nil_nil, Ordering.then_eq, Ordering.isLE_then_iff_and]
      exact ⟨by simp, .inr hle⟩
    | cons d ds =>
      have : Ord.compare lowest.text.length (c :: d :: ds).length = .lt := by
        rw [Nat.compare_eq_lt]; simp [lowest]
      rw [this]; rfl

/-- A number has no leading zero, unless it is `0`. -/
theorem head?_ne_zero {i : Identifier} (hi : i.isNumeric = true) (h : 1 < i.text.length) :
    i.text.head? ≠ some '0' := by
  have ht := i.isText
  simp only [isNumeric] at hi
  simp only [isIdentifierText, hi, Bool.true_and, Bool.and_eq_true, Bool.not_eq_true',
    Bool.and_eq_false_iff, beq_eq_false_iff_ne, bne_eq_false_iff_eq] at ht
  rcases ht.2 with h0 | h0
  · exact h0
  · simp [h0] at h

/-- Identifiers that are numbers compare by value. -/
theorem compare_numeric {i j : Identifier} (hi : i.isNumeric = true) (hj : j.isNumeric = true) :
    Ord.compare i j = Ord.compare (Decimal.value i.text) (Decimal.value j.text) := by
  have hdi : ∀ c ∈ i.text, c.isDigit = true := List.all_eq_true.mp hi
  have hdj : ∀ c ∈ j.text, c.isDigit = true := List.all_eq_true.mp hj
  have hpi := List.length_pos_iff.mpr i.text_ne_nil
  have hpj := List.length_pos_iff.mpr j.text_ne_nil
  change Identifier.compare i j = _
  simp only [Identifier.compare, hi, hj]
  rcases Nat.lt_trichotomy i.text.length j.text.length with h | h | h
  · rw [Nat.compare_eq_lt.mpr h, Nat.compare_eq_lt.mpr]
    · rfl
    · exact Decimal.value_lt_of_length_lt hdi hdj (head?_ne_zero hj (by omega)) h
  · rw [Nat.compare_eq_eq.mpr h, Ordering.eq_then, Decimal.compare_of_length_eq h hdi hdj]
  · rw [Nat.compare_eq_gt.mpr h, Nat.compare_eq_gt.mpr]
    · rfl
    · exact Decimal.value_lt_of_length_lt hdj hdi (head?_ne_zero hi (by omega)) h

/-- How identifiers stand to each other by the rule: numbers by value and
before the others, which go by their characters. -/
def byRule (i j : Identifier) : Ordering :=
  if i.isNumeric then
    if j.isNumeric then Ord.compare (Decimal.value i.text) (Decimal.value j.text) else .lt
  else if j.isNumeric then .gt
  else Ord.compare i.text j.text

theorem compare_eq_byRule (i j : Identifier) : Ord.compare i j = byRule i j := by
  unfold byRule
  split
  next hi =>
    split
    next hj => exact compare_numeric hi hj
    next hj =>
      change Identifier.compare i j = _
      simp [Identifier.compare, hi, hj]
  next hi =>
    change Identifier.compare i j = _
    split
    next hj => simp [Identifier.compare, hi, hj]
    next hj => simp [Identifier.compare, hi, hj]

end Version.Identifier

/-! ## Versions -/

namespace Version

/-- The list without identifiers stands after all others. -/
def finality (ids : List Identifier) : Nat := if ids.isEmpty then 1 else 0

theorem comparePre_eq (is js : List Identifier) : comparePre is js =
    compareLex (compareOn finality) Ord.compare is js := by
  cases is <;> cases js <;> simp [comparePre, compareLex, compareOn, finality] <;> rfl

theorem compare_def (v w : Version) : Ord.compare v w =
    (Ord.compare v.core w.core).then (comparePre v.pre w.pre) := rfl

theorem compare_eq (v w : Version) : Ord.compare v w =
    compareLex (compareOn core) (compareLex (compareOn fun v => finality v.pre) (compareOn pre)) v w := by
  rw [compare_def, comparePre_eq]; rfl

instance : Std.TransOrd Version where
  eq_swap {v w} := by rw [compare_eq, compare_eq]; exact Std.OrientedCmp.eq_swap
  isLE_trans {u v w} h₁ h₂ := by
    rw [compare_eq] at h₁ h₂ ⊢
    exact Std.TransCmp.isLE_trans h₁ h₂

instance : Std.LawfulEqOrd Version where
  eq_of_compare {v w} h := by
    rw [compare_eq] at h
    simp only [compareLex_eq_eq, compareOn, Std.LawfulEqOrd.compare_eq_iff_eq] at h
    cases v; cases w; cases h.1; cases h.2.2; rfl

/-- Versions of equal precedence are the same. -/
theorem compare_eq_eq {v w : Version} : Ord.compare v w = .eq ↔ v = w :=
  Std.LawfulEqOrd.compare_eq_iff_eq

theorem isRelease_iff {v : Version} : v.isRelease = true ↔ v.pre = [] := by
  simp [isRelease]

/-- A release stands to another as their cores do. -/
theorem compare_release {v : Version} (hv : v.isRelease = true) (a b c : UInt64) :
    Ord.compare v (release a b c) = Ord.compare v.core ⟨a, b, c⟩ := by
  rw [compare_def, isRelease_iff.mp hv]
  simp [release, comparePre]

/-- A release is below the pre-releases of a core when it is below the core. -/
theorem compare_lowest {v : Version} (hv : v.isRelease = true) (a b c : UInt64) :
    Ord.compare v (lowest a b c) = .lt ↔ v.core.Before ⟨a, b, c⟩ := by
  rw [compare_def, isRelease_iff.mp hv, Ordering.then_eq_lt, Core.compare_eq_lt]
  simp [lowest, comparePre]

/-- A version that is not below another has no smaller core. -/
theorem not_before_of_not_lt {v w : Version} (h : Ord.compare v w ≠ .lt) : ¬ v.core.Before w.core := by
  intro hb
  apply h
  rw [compare_def, Core.compare_eq_lt.mpr hb]
  rfl

/-- Pre-releases of one core go by their identifiers, from left to right. -/
theorem compare_of_core_eq {v w : Version} (hv : v.isRelease = false) (hw : w.isRelease = false)
    (h : v.core = w.core) : Ord.compare v w = List.compareLex Identifier.byRule v.pre w.pre := by
  have hrule : (Ord.compare : Identifier → Identifier → Ordering) = Identifier.byRule :=
    funext fun i => funext fun j => Identifier.compare_eq_byRule i j
  rw [compare_def, h, Std.LawfulEqOrd.compare_eq_iff_eq.mpr rfl, Ordering.eq_then, ← hrule]
  obtain ⟨vcore, vpre⟩ := v
  obtain ⟨wcore, wpre⟩ := w
  cases vpre with
  | nil => simp [isRelease] at hv
  | cons i is =>
    cases wpre with
    | nil => simp [isRelease] at hw
    | cons j js => rfl

/-- No pre-release of a core is below its `-0`. -/
theorem compare_lowest_ne_lt {v : Version} (hv : v.isRelease = false) :
    Ord.compare v (lowest v.core.major v.core.minor v.core.patch) ≠ .lt := by
  rw [compare_def]
  obtain ⟨core, pre⟩ := v
  cases pre with
  | nil => simp [isRelease] at hv
  | cons i is =>
    have hi := Identifier.isLE_compare_lowest i
    rw [Std.OrientedOrd.eq_swap, Ordering.isLE_swap, Ordering.isGE_iff_ne_lt] at hi
    simp only [lowest, comparePre, Std.LawfulEqOrd.compare_eq_iff_eq.mpr, Ordering.eq_then, ne_eq,
      List.compare_cons_cons, Ordering.then_eq_lt, not_or, not_and]
    refine ⟨hi, fun _ => ?_⟩
    cases is <;> simp [List.compare_cons_nil]

end Version

end VersionPick
