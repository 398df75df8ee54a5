/-
The natural order is total on all texts. To compare two texts neither chunks nor
numbers are needed: one walk over both is enough (`naturalCompare_eq_walk`). It
goes character by character, and where both texts are at a digit it takes a run
of digits from each, however long. Runs compare by what is left of them without
leading zeros, first by its length and then as texts (`compareRuns_eq`).

The laws of an order come from the chunks. With them a list of texts has only
one sorted arrangement, so every sort comes to the same (`naturalCompare_total`).
-/
import VersionPick.Proofs.Text.Natural

namespace VersionPick.Text

/-! ## Runs of digits without their numbers -/

namespace Decimal

/-- A run of digits without its leading zeros. -/
def significant (ds : List Char) : List Char :=
  ds.dropWhile (· == '0')

theorem value_significant : ∀ ds : List Char, value (significant ds) = value ds
  | [] => rfl
  | d :: ds => by
    by_cases h : d = '0'
    · subst h
      rw [significant, List.dropWhile_cons_of_pos rfl, ← significant, value_significant ds, value_cons]
      simp
    · rw [significant, List.dropWhile_cons_of_neg (by simpa using h)]

theorem head?_significant (ds : List Char) : (significant ds).head? ≠ some '0' := by
  intro h
  have hnot := List.head?_dropWhile_not (· == '0') ds
  rw [← significant, h] at hnot
  simp at hnot

theorem isDigit_significant {ds : List Char} (h : ∀ c ∈ ds, c.isDigit = true) :
    ∀ c ∈ significant ds, c.isDigit = true :=
  fun c hc => h c ((List.dropWhile_sublist _).mem hc)

/-- Of two numbers that with more significant digits is larger, and where they
have as many, these compare as texts. -/
theorem compare_value {ds es : List Char} (hd : ∀ c ∈ ds, c.isDigit = true) (he : ∀ c ∈ es, c.isDigit = true) :
    compare (value ds) (value es) = (compare (significant ds).length (significant es).length).then
      (compare (significant ds) (significant es)) := by
  have hd := isDigit_significant hd
  have he := isDigit_significant he
  rw [← value_significant ds, ← value_significant es]
  rcases Nat.lt_trichotomy (significant ds).length (significant es).length with h | h | h
  · have hlt := value_lt_of_length_lt hd he (head?_significant es) h
    rw [Nat.compare_eq_lt.mpr hlt, Nat.compare_eq_lt.mpr h, Ordering.lt_then]
  · rw [Nat.compare_eq_eq.mpr h, Ordering.eq_then, compare_of_length_eq h hd he]
  · have hlt := value_lt_of_length_lt he hd (head?_significant ds) h
    rw [Nat.compare_eq_gt.mpr hlt, Nat.compare_eq_gt.mpr h, Ordering.gt_then]

end Decimal

open Decimal

/-- The order of two runs of digits, by their significant digits and then by
their leading zeros. -/
def compareRuns (run run' : List Char) : Ordering :=
  (compare (significant run).length (significant run').length).then
    ((compare (significant run) (significant run')).then (compare run.length run'.length))

theorem compareRuns_eq {run run' : List Char} (h : ∀ c ∈ run, c.isDigit = true)
    (h' : ∀ c ∈ run', c.isDigit = true) :
    compareRuns run run' = (compare (value run) (value run')).then (compare run.length run'.length) := by
  rw [compareRuns, compare_value h h', Ordering.then_assoc]

/-! ## The walk over both texts -/

/-- Compares two texts from the left, two runs of digits as a whole and other
characters one by one. -/
def walk : List Char → List Char → Ordering
  | [], [] => .eq
  | [], _ :: _ => .lt
  | _ :: _, [] => .gt
  | c :: cs, d :: ds =>
    if c.isDigit && d.isDigit then
      (compareRuns (c :: cs.takeWhile Char.isDigit) (d :: ds.takeWhile Char.isDigit)).then
        (walk (cs.dropWhile Char.isDigit) (ds.dropWhile Char.isDigit))
    else (compare c d).then (walk cs ds)
  termination_by cs => cs.length
  decreasing_by
    · exact Nat.lt_succ_of_le (List.length_dropWhile_le Char.isDigit cs)
    · exact Nat.lt_succ_self _

theorem naturalCompare_eq_walk (cs ds : List Char) : naturalCompare cs ds = walk cs ds := by
  fun_induction walk cs ds with
  | case1 => rfl
  | case2 d ds => exact naturalCompare_nil_cons d ds
  | case3 c cs => exact naturalCompare_cons_nil c cs
  | case4 c cs d ds hdigit ih =>
    -- The runs taken are as long as they can be, so they are the first chunks.
    rw [Bool.and_eq_true] at hdigit
    have hrun := isRun_takeWhile hdigit.1 cs
    have hrun' := isRun_takeWhile hdigit.2 ds
    rw [cons_eq_run_append c cs, cons_eq_run_append d ds, naturalCompare_run hrun hrun', ih,
      compareRuns_eq hrun.isDigit hrun'.isDigit]
  | case5 c cs d ds hdigit ih =>
    rw [Bool.and_eq_true] at hdigit
    rw [naturalCompare_cons hdigit, ih]

/-! ## The order -/

instance : Std.TransCmp naturalCompare where
  eq_swap := naturalCompare_swap _ _
  isLE_trans := isLE_naturalCompare_trans

/-- Texts that are sorted are what the sort makes of them. -/
theorem eq_naturalSort {sorted texts : List String} (hperm : sorted.Perm texts)
    (hsorted : sorted.Pairwise fun a b => (naturalCompare a.toList b.toList).isLE = true) :
    sorted = naturalSort texts := by
  have hperm' : sorted.Perm (naturalSort texts) := hperm.trans (perm_naturalSort texts).symm
  refine hperm'.eq_of_pairwise (fun a b _ _ hle hle' => ?_) hsorted (pairwise_isLE_naturalSort texts)
  have heq := Std.OrientedCmp.isLE_antisymm hle hle'
  exact String.toList_inj.mp (eq_of_naturalCompare heq)

/-- **The natural order is total.** Two texts compare by one walk over both. They
are equal in it only if they are the same text, swapped they compare the other
way round, and a text in front of a second is in front of all that come behind
that. So a sort keeps all texts and puts them in order, and there is no other
way to do so. -/
theorem naturalCompare_total :
    (∀ cs ds : List Char, naturalCompare cs ds = walk cs ds) ∧
    (∀ cs ds : List Char, naturalCompare cs ds = .eq ↔ cs = ds) ∧
    (∀ cs ds : List Char, naturalCompare ds cs = (naturalCompare cs ds).swap) ∧
    (∀ cs ds es : List Char, naturalCompare cs ds = .lt → naturalCompare ds es = .lt →
      naturalCompare cs es = .lt) ∧
    ∀ texts : List String, (naturalSort texts).Perm texts ∧
      ((naturalSort texts).Pairwise fun a b => (naturalCompare a.toList b.toList).isLE = true) ∧
      ∀ sorted : List String, sorted.Perm texts →
        (sorted.Pairwise fun a b => (naturalCompare a.toList b.toList).isLE = true) → sorted = naturalSort texts := by
  refine ⟨naturalCompare_eq_walk, fun _ _ => naturalCompare_eq_eq, fun cs ds => naturalCompare_swap ds cs,
    fun _ _ _ => Std.TransCmp.lt_trans, fun texts => ?_⟩
  exact ⟨perm_naturalSort texts, pairwise_isLE_naturalSort texts, fun _ => eq_naturalSort⟩

/-- Leading zeros count before what follows the number, and every number comes
before a colon, for that stands behind the digits. -/
theorem naturalCompare_total_of_zeros :
    naturalCompare "é7b".toList "é007a".toList = .lt ∧ naturalCompare "é007a".toList "é:".toList = .lt ∧
    naturalCompare "é7b".toList "é:".toList = .lt ∧
    naturalSort ["é:", "é007a", "é", "é7b"] = ["é", "é7b", "é007a", "é:"] := by
  obtain ⟨-, -, -, htrans, hsort⟩ := naturalCompare_total
  have h : naturalCompare "é7b".toList "é007a".toList = .lt := by decide
  have h' : naturalCompare "é007a".toList "é:".toList = .lt := by decide
  refine ⟨h, h', htrans _ _ _ h h', Eq.symm ?_⟩
  exact (hsort ["é:", "é007a", "é", "é7b"]).2.2 _ (by decide) (by decide)

end VersionPick.Text
