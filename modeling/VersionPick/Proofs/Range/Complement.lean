/-
The operators that compare, in front of one and the same version. Two opposite
operators make comparators with one bound between them, so that a release is
on one side of it: below a version or at least it, at most it or above it. The
releases equal to it are those on the inner side of both bounds
(`compare_complement`).

Nothing is asked of the bounds. Where a number has no next one, both operators
have the same bound in its place.
-/
import VersionPick.Proofs.Range.Desugaring

namespace VersionPick

open Version

theorem Relation.holds_lt (o : Ordering) : Relation.holds .lt o = !Relation.holds .ge o := by
  cases o <;> rfl

theorem Relation.holds_gt (o : Ordering) : Relation.holds .gt o = !Relation.holds .le o := by
  cases o <;> rfl

theorem Relation.holds_eq (o : Ordering) :
    Relation.holds .eq o = (Relation.holds .ge o && Relation.holds .le o) := by
  cases o <;> rfl

section

variable {v : Version} (hv : v.isRelease = true)
include hv

theorem Alternative.admits_nil : Alternative.admits [] v = true := by
  simp [Alternative.admits, hv]

/-- A release is below the pre-releases of a core, or at least its release. -/
theorem Alternative.admits_lt_lowest (a b c : UInt64) :
    Alternative.admits [⟨.lt, .lowest a b c⟩] v = !Alternative.admits [⟨.ge, .release a b c⟩] v := by
  have hlt := (admits_single hv).trans (Comparator.admits_lt_lowest hv a b c)
  have hge := (admits_single hv).trans (Comparator.admits_ge_release hv a b c)
  rw [Bool.eq_iff_iff, Bool.not_eq_true', ← Bool.not_eq_true, hlt, hge, not_not]

theorem Alternative.admits_lt_lowest_zero : Alternative.admits [⟨.lt, .lowest 0 0 0⟩] v = false := by
  rw [Bool.eq_false_iff, ne_eq, admits_single hv, Comparator.admits_lt_lowest hv]
  exact Core.not_before_zero v.core

namespace Partial

theorem below_admits_eq_not (p : Partial) :
    Alternative.admits p.below v = !Alternative.admits p.atLeast v := by
  cases p with
  | any => rw [below, atLeast, Alternative.admits_lt_lowest_zero hv, Alternative.admits_nil hv, Bool.not_true]
  | major a => exact Alternative.admits_lt_lowest hv a 0 0
  | minor a b => exact Alternative.admits_lt_lowest hv a b 0
  | full w => simp [below, atLeast, Alternative.admits, hv, Comparator.admits, Relation.holds_lt]

theorem above_admits_eq_not (p : Partial) :
    Alternative.admits p.above v = !Alternative.admits p.atMost v := by
  cases p with
  | any => rw [above, atMost, Alternative.admits_lt_lowest_zero hv, Alternative.admits_nil hv, Bool.not_true]
  | major a => rw [above, atMost, Alternative.admits_lt_lowest hv, Bool.not_not]
  | minor a b => rw [above, atMost, Alternative.admits_lt_lowest hv, Bool.not_not]
  | full w => simp [above, atMost, Alternative.admits, hv, Comparator.admits, Relation.holds_gt]

theorem within_admits_eq_and (p : Partial) : Alternative.admits p.within v =
    (Alternative.admits p.atLeast v && Alternative.admits p.atMost v) := by
  rw [← Alternative.admits_append hv]
  cases p with
  | any => rfl
  | major a => rfl
  | minor a b => rfl
  | full w =>
    simp [within, atLeast, atMost, Alternative.admits, hv, Comparator.admits, Relation.holds_eq]

end Partial

end

namespace Range

/-- **Opposite operators part the releases.** In front of any version, a
release is in the range of just one of `<` and `>=`, and of just one of `>` and
`<=`; in that of `=` it is when it is in those of both `>=` and `<=`. -/
theorem compare_complement {t : String} {p : Partial} (ht : Partial.read? t.toList = some p)
    (he : t.toList.head? ≠ some '=') :
    ∃ lt ge gt le eq, parse ("<" ++ t) = .ok lt ∧ parse (">=" ++ t) = .ok ge ∧ parse (">" ++ t) = .ok gt ∧
      parse ("<=" ++ t) = .ok le ∧ parse ("=" ++ t) = .ok eq ∧
      ∀ v : Version, v.isRelease = true →
        (lt.admits v = !ge.admits v) ∧ (gt.admits v = !le.admits v) ∧
        (eq.admits v = (ge.admits v && le.admits v)) := by
  have hparse : ∀ w ∈ written, parse (String.ofList w.1 ++ t) = .ok ⟨[w.2.apply p]⟩ :=
    fun w hw => parse_operator_append hw ht fun h => absurd h he
  refine ⟨_, _, _, _, _, hparse (['<'], .compare .lt) (by decide), hparse (['>', '='], .compare .ge) (by decide),
    hparse (['>'], .compare .gt) (by decide), hparse (['<', '='], .compare .le) (by decide),
    hparse (['='], .compare .eq) (by decide), fun v hv => ?_⟩
  simp only [admits_alternative]
  exact ⟨p.below_admits_eq_not hv, p.above_admits_eq_not hv, p.within_admits_eq_and hv⟩

/-- The largest minor number there is: its releases are above the version, and
not at most it. -/
theorem compare_complement_largest :
    Partial.read? "v0.18446744073709551615".toList = some (.minor 0 18446744073709551615) ∧
    "v0.18446744073709551615".toList.head? ≠ some '=' ∧
    ∃ gt le, parse (">" ++ "v0.18446744073709551615") = .ok gt ∧ parse ("<=" ++ "v0.18446744073709551615") = .ok le ∧
      gt.admits (.release 0 18446744073709551615 7) = !le.admits (.release 0 18446744073709551615 7) := by
  have ht : Partial.read? "v0.18446744073709551615".toList = some (.minor 0 18446744073709551615) := by decide
  have he : "v0.18446744073709551615".toList.head? ≠ some '=' := by decide
  obtain ⟨_, _, gt, le, _, _, _, hgt, hle, _, h⟩ := compare_complement ht he
  exact ⟨ht, he, gt, le, hgt, hle, (h _ rfl).2.1⟩

end Range

end VersionPick
