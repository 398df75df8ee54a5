/-
Pre-releases have to be asked for. An alternative lets a pre-release in when
one of its comparators is of the same core and of a pre-release itself, and
the bounds that operators put in for numbers not given look just so: they are
`X.Y.Z-0`. They let nothing in, because they stand under `<` only and `X.Y.Z-0`
is the least of the pre-releases of its core (`Comparator.IsBound`). So the
comparator that lets a pre-release in is one whose version the text spells
out, in the alternative that admits the pre-release.
-/
import VersionPick.Proofs.Precedence
import VersionPick.Proofs.Range.Reading

namespace VersionPick

open Text Version

/-! ## Bounds -/

namespace Comparator

/-- A comparator that asks for no pre-release: of a release, or below the
lowest pre-release of a core. -/
def IsBound (c : Comparator) : Prop :=
  c.version.isRelease = true ∨ ∃ a b d, c = ⟨.lt, .lowest a b d⟩

/-- A bound does not ask for the pre-releases that it admits. -/
theorem IsBound.not_opensTo {c : Comparator} (hc : c.IsBound) {v : Version} (hv : v.isRelease = false)
    (ha : c.admits v = true) : c.opensTo v = false := by
  rcases hc with hc | ⟨a, b, d, rfl⟩
  · simp [opensTo, hc]
  · simp only [admits, Relation.holds, Ordering.isLT_iff_eq_lt] at ha
    rw [Bool.eq_false_iff]
    intro ho
    simp only [opensTo, Bool.and_eq_true, beq_iff_eq] at ho
    have hcore : v.core = ⟨a, b, d⟩ := ho.2.symm
    have := compare_lowest_ne_lt hv
    rw [hcore] at this
    exact this ha

end Comparator

namespace Partial

variable {p q : Partial} {c : Comparator}

theorem isBound_of_between {low : Version} {a b d : UInt64} (h : c ∈ between low a b d) :
    c.IsBound ∨ c.version = low := by
  simp only [between, List.mem_cons, List.not_mem_nil, or_false] at h
  rcases h with rfl | rfl
  · exact .inr rfl
  · exact .inl (.inr ⟨a, b, d, rfl⟩)

theorem isBound_of_between_release {a b d a' b' d' : UInt64} (h : c ∈ between (.release a' b' d') a b d) :
    c.IsBound := by
  rcases isBound_of_between h with h | h
  · exact h
  · exact .inl (h ▸ rfl)

theorem isBound_of_within (h : c ∈ p.within) : c.IsBound ∨ p = .full c.version := by
  cases p with
  | any => simp [within] at h
  | major a => exact .inl (isBound_of_between_release h)
  | minor a b => exact .inl (isBound_of_between_release h)
  | full v => exact .inr (by rw [List.mem_singleton.mp h])

theorem isBound_of_above (h : c ∈ p.above) : c.IsBound ∨ p = .full c.version := by
  cases p with
  | any => exact .inl (.inr ⟨0, 0, 0, List.mem_singleton.mp h⟩)
  | major a => exact .inl (.inl (by rw [List.mem_singleton.mp h]; rfl))
  | minor a b => exact .inl (.inl (by rw [List.mem_singleton.mp h]; rfl))
  | full v => exact .inr (by rw [List.mem_singleton.mp h])

theorem isBound_of_atLeast (h : c ∈ p.atLeast) : c.IsBound ∨ p = .full c.version := by
  cases p with
  | any => simp [atLeast] at h
  | major a => exact .inl (.inl (by rw [List.mem_singleton.mp h]; rfl))
  | minor a b => exact .inl (.inl (by rw [List.mem_singleton.mp h]; rfl))
  | full v => exact .inr (by rw [List.mem_singleton.mp h])

theorem isBound_of_below (h : c ∈ p.below) : c.IsBound ∨ p = .full c.version := by
  cases p with
  | any => exact .inl (.inr ⟨0, 0, 0, List.mem_singleton.mp h⟩)
  | major a => exact .inl (.inr ⟨a, 0, 0, List.mem_singleton.mp h⟩)
  | minor a b => exact .inl (.inr ⟨a, b, 0, List.mem_singleton.mp h⟩)
  | full v => exact .inr (by rw [List.mem_singleton.mp h])

theorem isBound_of_atMost (h : c ∈ p.atMost) : c.IsBound ∨ p = .full c.version := by
  cases p with
  | any => simp [atMost] at h
  | major a => exact .inl (.inr ⟨nextNumber a, 0, 0, List.mem_singleton.mp h⟩)
  | minor a b => exact .inl (.inr ⟨a, nextNumber b, 0, List.mem_singleton.mp h⟩)
  | full v => exact .inr (by rw [List.mem_singleton.mp h])

theorem isBound_of_tilde (h : c ∈ p.tilde) : c.IsBound ∨ p = .full c.version := by
  cases p with
  | any => exact isBound_of_within h
  | major a => exact isBound_of_within h
  | minor a b => exact isBound_of_within h
  | full v => exact (isBound_of_between h).imp_right fun he => by rw [he]

theorem isBound_of_caret (h : c ∈ p.caret) : c.IsBound ∨ p = .full c.version := by
  cases p with
  | any => simp [caret] at h
  | major a => exact .inl (isBound_of_between_release h)
  | minor a b =>
    simp only [caret] at h
    split at h <;> exact .inl (isBound_of_between_release h)
  | full v =>
    have hv : c.IsBound ∨ c.version = v := by
      simp only [caret] at h
      split at h
      · exact isBound_of_between h
      · split at h <;> exact isBound_of_between h
    exact hv.imp_right fun he => by rw [he]

theorem isBound_of_upTo (h : c ∈ p.upTo q) : c.IsBound ∨ p = .full c.version ∨ q = .full c.version := by
  rcases List.mem_append.mp h with h | h
  · exact (isBound_of_atLeast h).imp_right .inl
  · exact (isBound_of_atMost h).imp_right .inr

end Partial

/-- A comparator that an operator makes is a bound, or of the version that the
operator stands before. -/
theorem Operator.isBound_of_apply {p : Partial} {c : Comparator} :
    ∀ {op : Operator}, c ∈ op.apply p → c.IsBound ∨ p = .full c.version
  | .compare .eq, h => Partial.isBound_of_within h
  | .compare .gt, h => Partial.isBound_of_above h
  | .compare .ge, h => Partial.isBound_of_atLeast h
  | .compare .lt, h => Partial.isBound_of_below h
  | .compare .le, h => Partial.isBound_of_atMost h
  | .tilde, h => Partial.isBound_of_tilde h
  | .caret, h => Partial.isBound_of_caret h

/-! ## Written versions -/

namespace Range

theorem writes_append {lead t : List Char} {w : Version} (hlead : ∀ c ∈ lead, isSignChar c = true)
    (h : Partial.Writes t w) : Partial.Writes (lead ++ t) w := by
  obtain ⟨lead', build, rfl, hlead', hbuild⟩ := h
  refine ⟨lead ++ lead', build, by simp, fun c hc => ?_, hbuild⟩
  rcases List.mem_append.mp hc with hc | hc
  · have hs := hlead c hc
    simp only [isSignChar, List.contains_eq_mem, List.mem_cons, List.not_mem_nil, or_false,
      decide_eq_true_eq] at hs
    rcases hs with rfl | rfl | rfl | rfl | rfl <;> decide
  · exact hlead' c hc

/-- Every comparator of an alternative is a bound, or a word of the
alternative spells its version out. -/
theorem isBound_or_writes {ws : List (List Char)} {alternative : Alternative}
    (h : readWords? ws = some alternative) {c : Comparator} (hc : c ∈ alternative) :
    c.IsBound ∨ ∃ word ∈ ws, Partial.Writes word c.version := by
  by_cases hr : c.version.isRelease = true
  · exact .inl (.inl hr)
  have hpre : c.version.pre ≠ [] := fun he => hr (isRelease_iff.mpr he)
  rcases readWords?_eq_some h with ⟨low, high, p, q, rfl, hp, hq, rfl⟩ | ⟨parts, hparts, rfl⟩
  · rcases Partial.isBound_of_upTo hc with hb | rfl | rfl
    · exact .inl hb
    · exact .inr ⟨low, by simp, Partial.writes_of_read? hp hpre⟩
    · exact .inr ⟨high, by simp, Partial.writes_of_read? hq hpre⟩
  · obtain ⟨part, hpart, hc⟩ := List.mem_flatten.mp hc
    obtain ⟨token, htoken, ht⟩ := exists_of_mem_right hparts hpart
    obtain ⟨p, hp, rfl⟩ := readComparator?_eq_some ht
    rcases Operator.isBound_of_apply hc with hb | rfl
    · exact .inl hb
    · obtain ⟨word, hword, lead, he, hlead⟩ :=
        exists_word_of_token (.inl rfl) htoken (Partial.ne_nil_of_read? hp)
      rw [he] at hword
      exact .inr ⟨_, hword, writes_append hlead (Partial.writes_of_read? hp hpre)⟩

/-- In an alternative that admits a pre-release, a comparator is a bound that
does not ask for it, or a word of the alternative spells its version out. -/
theorem not_opensTo_or_writes {ws : List (List Char)} {alternative : Alternative}
    (h : readWords? ws = some alternative) {v : Version} (hv : v.isRelease = false)
    (ha : Alternative.admits alternative v = true) {c : Comparator} (hc : c ∈ alternative) :
    (c.IsBound ∧ c.opensTo v = false) ∨ ∃ word ∈ ws, Partial.Writes word c.version := by
  have hall : ∀ c ∈ alternative, c.admits v = true := by
    simp only [Alternative.admits, Bool.and_eq_true, List.all_eq_true] at ha
    exact ha.1
  rcases isBound_or_writes h hc with hb | hw
  · exact .inl ⟨hb, hb.not_opensTo hv (hall c hc)⟩
  · exact .inr hw

/-- **Pre-releases are admitted on request only.** An alternative that admits
a pre-release spells out a pre-release of the same core; its comparators that
are not spelled out are bounds, and do not open it to the pre-release.
Pre-releases of one core go by their identifiers. -/
theorem writes_of_admits {text : String} {r : Range} (h : parse text = .ok r) {v : Version}
    (hv : v.isRelease = false) (hr : r.admits v = true) :
    (∃ alternative ∈ r.alternatives, Alternative.admits alternative v = true) ∧
    (∀ alternative ∈ r.alternatives, Alternative.admits alternative v = true →
      ∃ part ∈ splitOnPair '|' text.toList, readWords? (words part) = some alternative ∧
        (∃ word ∈ words part, ∃ w, Partial.Writes word w ∧ w.pre ≠ [] ∧ w.core = v.core) ∧
        ∀ c ∈ alternative, (c.IsBound ∧ c.opensTo v = false) ∨
          ∃ word ∈ words part, Partial.Writes word c.version) ∧
    ∀ w : Version, w.isRelease = false → v.core = w.core →
      Ord.compare v w = List.compareLex Identifier.byRule v.pre w.pre := by
  refine ⟨List.any_eq_true.mp hr, fun alternative hm ha => ?_, fun _ hw => compare_of_core_eq hv hw⟩
  obtain ⟨part, hpart, hread⟩ := exists_of_mem_right (read?_eq_some.mp (parse_eq_ok.mp h)) hm
  have horigin := fun c (hc : c ∈ alternative) => not_opensTo_or_writes hread hv ha hc
  refine ⟨part, hpart, hread, ?_, horigin⟩
  have hasked : ∃ c ∈ alternative, c.opensTo v = true := by
    simp only [Alternative.admits, Bool.and_eq_true, hv, Bool.false_or, List.any_eq_true] at ha
    exact ha.2
  obtain ⟨c, hc, ho⟩ := hasked
  rcases horigin c hc with ⟨-, hnot⟩ | ⟨word, hword, hw⟩
  · simp [hnot] at ho
  · simp only [Comparator.opensTo, Bool.and_eq_true, Bool.not_eq_true', beq_iff_eq] at ho
    refine ⟨word, hword, c.version, hw, fun he => ?_, ho.2⟩
    simp [isRelease_iff.mpr he] at ho

/-- The second alternative of `^1.2 || >=1.3.0-rc1 <2` lets `1.3.0-rc2` in. -/
theorem admits_asked_candidate :
    ∃ r v, parse "^1.2 || >=1.3.0-rc1 <2" = .ok r ∧ v.isRelease = false ∧ r.admits v = true ∧
      ∃ alternative ∈ r.alternatives, Alternative.admits alternative v = true := by
  let r : Range := ⟨[[⟨.ge, .release 1 2 0⟩, ⟨.lt, .lowest 2 0 0⟩],
    [⟨.ge, ⟨⟨1, 3, 0⟩, [⟨['r', 'c', '1'], by decide⟩]⟩⟩, ⟨.lt, .lowest 2 0 0⟩]]⟩
  let v : Version := ⟨⟨1, 3, 0⟩, [⟨['r', 'c', '2'], by decide⟩]⟩
  have hr : parse "^1.2 || >=1.3.0-rc1 <2" = .ok r := by decide +kernel
  have hv : v.isRelease = false := rfl
  have ha : r.admits v = true := by decide +kernel
  exact ⟨r, v, hr, hv, ha, (writes_of_admits hr hv ha).1⟩

end Range

end VersionPick
