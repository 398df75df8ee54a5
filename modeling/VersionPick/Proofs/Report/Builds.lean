/-
The natural order on what a report lists: releases and nightly builds. Numerals
without leading zeros compare by their numbers, and where the numbers agree, the
next character decides: the hyphen of a nightly build comes before the dot of a
release (`compare_nightly_release`). So the order on the texts is that of the
numbers, with the nightly build of a branch before its releases, and the one
without branch behind everything (`naturalSort_builds`).
-/
import VersionPick.Specifier
import VersionPick.Proofs.Precedence
import VersionPick.Proofs.Text.Natural

namespace VersionPick

open Text

namespace Text

theorem isRun_write (n : Nat) {rest : List Char} (h : ∀ c ∈ rest.head?, c.isDigit = false) :
    IsRun (Decimal.write n) rest where
  ne_nil := (Decimal.isNumeral_iff.mp (Decimal.isNumeral_write n)).1
  isDigit := (Decimal.isNumeral_iff.mp (Decimal.isNumeral_write n)).2
  ends := h

/-- Numerals compare by their numbers, and then the texts behind them count. -/
theorem naturalCompare_write {m n : Nat} {cs ds : List Char} (hcs : ∀ c ∈ cs.head?, c.isDigit = false)
    (hds : ∀ d ∈ ds.head?, d.isDigit = false) :
    naturalCompare (Decimal.write m ++ cs) (Decimal.write n ++ ds) = (compare m n).then (naturalCompare cs ds) := by
  rw [naturalCompare_run (isRun_write m hcs) (isRun_write n hds), Decimal.value_write, Decimal.value_write]
  by_cases h : m = n
  · subst h
    simp
  · rw [then_of_ne_eq (mt Nat.compare_eq_eq.mp h)]

end Text

/-- What is sorted by the natural order: releases, nightly builds of a release
branch, and the nightly build without branch. Their numbers have any size. -/
inductive Build
  | release (major minor patch : Nat)
  | nightly (major minor : Nat)
  | latest

namespace Build

def text : Build → String
  | .release major minor patch =>
    String.ofList (List.intercalate ['.'] [Decimal.write major, Decimal.write minor, Decimal.write patch])
  | .nightly major minor =>
    (Specifier.nightly (some (String.ofList (List.intercalate ['.'] [Decimal.write major, Decimal.write minor])))).text
  | .latest => (Specifier.nightly none).text

/-- The order of builds: by major and minor number, then the nightly build of a
branch before its releases, and these by patch number. The nightly build without
branch comes last. -/
def NotAfter : Build → Build → Prop
  | .release a b c, .release a' b' c' => a < a' ∨ a = a' ∧ (b < b' ∨ b = b' ∧ c ≤ c')
  | .nightly a b, .release a' b' _ => a < a' ∨ a = a' ∧ b ≤ b'
  | .release a b _, .nightly a' b' => a < a' ∨ a = a' ∧ b < b'
  | .nightly a b, .nightly a' b' => a < a' ∨ a = a' ∧ b ≤ b'
  | _, .latest => True
  | .latest, _ => False

theorem toList_release (a b c : Nat) :
    (release a b c).text.toList = Decimal.write a ++ '.' :: (Decimal.write b ++ '.' :: (Decimal.write c ++ [])) := by
  simp [text]

theorem toList_nightly (a b : Nat) :
    (nightly a b).text.toList = Decimal.write a ++ '.' :: (Decimal.write b ++ "-nightly".toList) := by
  simp [text, Specifier.text]

theorem naturalCompare_dot (cs ds : List Char) : naturalCompare ('.' :: cs) ('.' :: ds) = naturalCompare cs ds := by
  rw [naturalCompare_cons (by decide), Std.LawfulEqOrd.compare_eq_iff_eq.mpr rfl, Ordering.eq_then]

variable (a b c a' b' c' : Nat)

theorem compare_release_release : naturalCompare (release a b c).text.toList (release a' b' c').text.toList =
    (compare a a').then ((compare b b').then (compare c c')) := by
  rw [toList_release, toList_release, naturalCompare_write (by simp) (by simp), naturalCompare_dot,
    naturalCompare_write (by simp) (by simp), naturalCompare_dot,
    naturalCompare_write (by simp) (by simp), naturalCompare_eq_eq.mpr rfl, Ordering.then_eq]

/-- A hyphen comes before a dot. -/
theorem compare_nightly_release : naturalCompare (nightly a b).text.toList (release a' b' c').text.toList =
    (compare a a').then ((compare b b').then .lt) := by
  have hhyphen : ∀ cs, naturalCompare "-nightly".toList ('.' :: cs) = .lt := by
    intro cs
    have hlt : compare '-' '.' = .lt := by decide
    rw [show "-nightly".toList = '-' :: "nightly".toList from rfl, naturalCompare_cons (by decide), hlt,
      Ordering.lt_then]
  rw [toList_nightly, toList_release, naturalCompare_write (by simp) (by simp), naturalCompare_dot,
    naturalCompare_write (by simp) (by simp), hhyphen]

theorem compare_nightly_nightly : naturalCompare (nightly a b).text.toList (nightly a' b').text.toList =
    (compare a a').then (compare b b') := by
  rw [toList_nightly, toList_nightly, naturalCompare_write (by simp) (by simp), naturalCompare_dot,
    naturalCompare_write (by simp) (by simp), naturalCompare_eq_eq.mpr rfl, Ordering.then_eq]

/-- Every digit comes before the letters. -/
theorem compare_numeral_latest (rest : List Char) :
    naturalCompare (Decimal.write a ++ rest) latest.text.toList = .lt := by
  obtain ⟨hne, hdigit⟩ := Decimal.isNumeral_iff.mp (Decimal.isNumeral_write a)
  obtain ⟨d, ds, hds⟩ := List.exists_cons_of_ne_nil hne
  have hd : d.isDigit = true := hdigit d (by simp [hds])
  have hrange := Decimal.digit_toNat hd
  have hletter : 'n'.toNat = 110 := rfl
  rw [hds, List.cons_append, show latest.text.toList = 'n' :: "ightly".toList from rfl,
    naturalCompare_digit_letter hd (by decide), Decimal.compare_char, Nat.compare_eq_lt]
  omega

theorem compare_release_latest : naturalCompare (release a b c).text.toList latest.text.toList = .lt := by
  rw [toList_release, compare_numeral_latest]

theorem compare_nightly_latest : naturalCompare (nightly a b).text.toList latest.text.toList = .lt := by
  rw [toList_nightly, compare_numeral_latest]

theorem compare_release_nightly : naturalCompare (release a b c).text.toList (nightly a' b').text.toList =
    (compare a a').then ((compare b b').then .gt) := by
  rw [naturalCompare_swap, compare_nightly_release, Ordering.swap_then, Ordering.swap_then, ← Std.OrientedOrd.eq_swap,
    ← Std.OrientedOrd.eq_swap]
  rfl

theorem isLE_then_iff {m n : Nat} {o : Ordering} :
    ((compare m n).then o).isLE = true ↔ m < n ∨ m = n ∧ o.isLE = true := by
  rcases Nat.lt_trichotomy m n with h | h | h
  · simp [Nat.compare_eq_lt.mpr h, h]
  · simp [h]
  · rw [Nat.compare_eq_gt.mpr h]
    simp
    omega

/-- The natural order on the texts of builds is the order of builds. -/
theorem isLE_compare_iff : ∀ x y : Build,
    (naturalCompare x.text.toList y.text.toList).isLE = true ↔ x.NotAfter y
  | .release .., .release .. => by rw [compare_release_release]; simp only [isLE_then_iff, NotAfter, Nat.isLE_compare]
  | .nightly .., .release .. => by
    rw [compare_nightly_release]
    simp only [isLE_then_iff, NotAfter]
    simp [Nat.le_iff_lt_or_eq]
  | .release .., .nightly .. => by
    rw [compare_release_nightly]
    simp [isLE_then_iff, NotAfter]
  | .nightly .., .nightly .. => by
    rw [compare_nightly_nightly]
    simp [isLE_then_iff, NotAfter, Nat.isLE_compare]
  | .release .., .latest => by
    rw [compare_release_latest]
    simp [NotAfter]
  | .nightly .., .latest => by
    rw [compare_nightly_latest]
    simp [NotAfter]
  | .latest, .latest => by
    rw [naturalCompare_eq_eq.mpr rfl]
    simp [NotAfter]
  | .latest, .release .. => by
    rw [naturalCompare_swap, compare_release_latest]
    simp [NotAfter]
  | .latest, .nightly .. => by
    rw [naturalCompare_swap, compare_nightly_latest]
    simp [NotAfter]

/-- The text of a release is that of its numbers. -/
theorem toList_text_release (a b c : UInt64) :
    (release a.toNat b.toNat c.toNat).text.toList = (Version.release a b c).text := by
  simp [text, Version.text, Version.release, Core.text, Decimal.writeWord]

theorem compare_toNat (m n : UInt64) : compare m.toNat n.toNat = compare m n := by
  rcases Nat.lt_trichotomy m.toNat n.toNat with h | h | h
  · rw [Nat.compare_eq_lt.mpr h, compare_word_eq_lt.mpr h]
  · rw [Nat.compare_eq_eq.mpr h, compare_word_eq_eq.mpr h]
  · rw [Nat.compare_eq_gt.mpr h, compare_word_eq_gt.mpr h]

/-- Releases stand in the natural order as in precedence. -/
theorem naturalCompare_text_release (a b c a' b' c' : UInt64) :
    naturalCompare (Version.release a b c).text (Version.release a' b' c').text =
      compare (Version.release a b c) (Version.release a' b' c') := by
  have hpre : Version.comparePre [] [] = .eq := rfl
  rw [← toList_text_release, ← toList_text_release, compare_release_release, compare_toNat, compare_toNat,
    compare_toNat, Version.compare_def, Core.compare_def, Version.release, Version.release, hpre, Ordering.then_eq]

/-- The texts of builds are sorted as the builds are. -/
theorem exists_naturalSort (builds : List Build) : ∃ sorted : List Build, sorted.Perm builds ∧
    sorted.Pairwise NotAfter ∧ naturalSort (builds.map text) = sorted.map text := by
  let sorted := builds.mergeSort fun x y => (naturalCompare x.text.toList y.text.toList).isLE
  have hmap : sorted.map text = naturalSort (builds.map text) := List.map_mergeSort fun _ _ _ _ => rfl
  have hpairwise := pairwise_isLE_naturalSort (builds.map text)
  rw [← hmap, List.pairwise_map] at hpairwise
  exact ⟨sorted, List.mergeSort_perm _ _, hpairwise.imp fun h => (isLE_compare_iff _ _).mp h, hmap.symm⟩

/-- **Builds are sorted by their numbers.** The texts of releases stand to each
other in the natural order as the releases do in precedence, and so they would
with numbers of any size. The nightly build of a branch comes before a release
exactly if the branch is not behind that of the release. Two nightly builds go
by their branches, and the one without branch comes last. So whatever builds are
listed, their texts are sorted in this order. -/
theorem naturalSort_builds :
    (∀ a b c a' b' c' : UInt64, naturalCompare (Version.release a b c).text (Version.release a' b' c').text =
      compare (Version.release a b c) (Version.release a' b' c')) ∧
    (∀ a b c a' b' c' : Nat, naturalCompare (release a b c).text.toList (release a' b' c').text.toList =
      (compare a a').then ((compare b b').then (compare c c'))) ∧
    (∀ a b c d e : Nat, naturalCompare (nightly a b).text.toList (release c d e).text.toList = .lt ↔
      a < c ∨ a = c ∧ b ≤ d) ∧
    (∀ a b a' b' : Nat, naturalCompare (nightly a b).text.toList (nightly a' b').text.toList =
      (compare a a').then (compare b b')) ∧
    (∀ a b c : Nat, naturalCompare (release a b c).text.toList latest.text.toList = .lt) ∧
    (∀ a b : Nat, naturalCompare (nightly a b).text.toList latest.text.toList = .lt) ∧
    ∀ builds : List Build, ∃ sorted : List Build, sorted.Perm builds ∧ sorted.Pairwise NotAfter ∧
      naturalSort (builds.map text) = sorted.map text := by
  refine ⟨naturalCompare_text_release, compare_release_release, fun a b c d e => ?_, compare_nightly_nightly,
    compare_release_latest, compare_nightly_latest, exists_naturalSort⟩
  rw [compare_nightly_release, Ordering.then_eq_lt, Ordering.then_eq_lt]
  simp [Nat.compare_eq_lt, Nat.le_iff_lt_or_eq]

end Build

end VersionPick
