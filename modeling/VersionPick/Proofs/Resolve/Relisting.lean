/-
What the list of versions has to do with the answer. The answer is chosen among
the entries that qualify, and these are carried over from one list to another
that has the same releases in it (`Qualifies.carry`). So the order of the list
does not count, nor what is no release, but for the spelling of the answer; and
further entries never make an answer worse (`resolve_relisted`).
-/
import VersionPick.Proofs.Resolve.Exact

namespace VersionPick

/-- Two texts denote versions of which the first stands to the second so. -/
def StandsTo (r : Relation) (entry other : String) : Prop :=
  ∃ v w, Denotes entry v ∧ Denotes other w ∧ r.holds (compare v w) = true

/-- Whatever is a release in one list is in the other. -/
def Covers (available available' : List String) : Prop :=
  ∀ entry ∈ available, ∀ release, Release.read? entry = some release → entry ∈ available'

/-- The two lists have the same releases in them, in any order; what else is in
them does not count. -/
def SameReleases (available available' : List String) : Prop :=
  (available.filter fun entry => (Release.read? entry).isSome).Perm
    (available'.filter fun entry => (Release.read? entry).isSome)

namespace Specifier

/-- Two answers to a specifier mean the same version. What the manifest says is
given as it is, and an exact version has its build metadata. -/
def Agrees : Specifier → String → String → Prop
  | .exact _ => SameRelease
  | .alias .manifest => Eq
  | _ => StandsTo .eq

/-- The first of two answers to a specifier is as good as the second. -/
def NoWorse : Specifier → String → String → Prop
  | .exact _ => SameRelease
  | .alias .manifest => Eq
  | .alias .min => StandsTo .le
  | _ => StandsTo .ge

/-- The same outcome, up to the spelling of the version. -/
inductive SameOutcome (s : Specifier) : Except Failure (Option String) → Except Failure (Option String) → Prop
  | error (failure : Failure) : SameOutcome s (.error failure) (.error failure)
  | none : SameOutcome s (.ok .none) (.ok .none)
  | some {entry entry' : String} (h : s.Agrees entry entry') : SameOutcome s (.ok (.some entry)) (.ok (.some entry'))

/-- What is to be found exactly denotes a release. -/
def IsReadable (s : Specifier) : Prop :=
  ∀ text, s = .exact text → ∃ wanted, Release.read? text = .some wanted

theorem isReadable_classify (raw : String) : (classify raw).IsReadable := by
  intro text h
  obtain ⟨wanted, hw, -⟩ := exists_release_of_exact h
  exact ⟨wanted, hw⟩

end Specifier

/-! ## Standing -/

theorem Denotes.unique {entry : String} {v w : Version} (h : Denotes entry v) (h' : Denotes entry w) : v = w := by
  obtain ⟨release, hr, rfl⟩ := h
  obtain ⟨release', hr', rfl⟩ := h'
  rw [Option.some.inj (hr.symm.trans hr')]

theorem Relation.eq_of_holds_swap {r : Relation} {o : Ordering} (h : r.holds o = true)
    (h' : r.holds o.swap = true) : o = .eq := by
  revert h h'
  cases r <;> cases o <;> decide

theorem StandsTo.antisymm {r : Relation} {entry other : String} (h : StandsTo r entry other)
    (h' : StandsTo r other entry) : StandsTo .eq entry other := by
  obtain ⟨v, w, hv, hw, hvw⟩ := h
  obtain ⟨w', v', hw', hv', hwv⟩ := h'
  rw [hw'.unique hw, hv'.unique hv, Std.OrientedOrd.eq_swap] at hwv
  exact ⟨v, w, hv, hw, by rw [Relation.eq_of_holds_swap hvw hwv]; rfl⟩

theorem Specifier.NoWorse.antisymm {entry entry' : String} : ∀ {s : Specifier}, s.NoWorse entry entry' →
    s.NoWorse entry' entry → s.Agrees entry entry'
  | .exact _, h, _ => h
  | .range _, h, h' => StandsTo.antisymm h h'
  | .alias .lts, h, h' => StandsTo.antisymm h h'
  | .alias .min, h, h' => StandsTo.antisymm h h'
  | .alias .manifest, h, _ => h
  | .alias .pre, h, h' => StandsTo.antisymm h h'
  | .nightly _, h, h' => StandsTo.antisymm h h'

/-! ## Picks and lists -/

section Picks

variable {asked : Version → Bool} {available available' : List String} {picked entry : String}

/-- What is picked stands so to whatever is in question, if that is how it
stands to all that do not beat it. -/
theorem Picks.standsTo {o : Ordering} {r : Relation} (hr : ∀ o' : Ordering, o'.swap ≠ o → r.holds o' = true)
    (h : Picks o asked available picked) (he : IsIn asked available entry) : StandsTo r picked entry := by
  obtain ⟨-, -, v, -, hv, -, hall, -⟩ := h
  obtain ⟨hm, w, hw, ha⟩ := he
  refine ⟨v, w, hv, hw, hr _ ?_⟩
  rw [← Std.OrientedOrd.eq_swap]
  exact hall entry hm w hw ha

theorem Picks.no_less (h : Picks .gt asked available picked) (he : IsIn asked available entry) :
    StandsTo .ge picked entry :=
  h.standsTo (fun o' => by cases o' <;> decide) he

theorem Picks.no_greater (h : Picks .lt asked available picked) (he : IsIn asked available entry) :
    StandsTo .le picked entry :=
  h.standsTo (fun o' => by cases o' <;> decide) he

theorem IsIn.carry (hc : Covers available available') (h : IsIn asked available entry) :
    IsIn asked available' entry := by
  obtain ⟨hm, v, ⟨release, hr, hv⟩, ha⟩ := h
  exact ⟨hc entry hm release hr, v, ⟨release, hr, hv⟩, ha⟩

theorem Covers.of_sublist (h : available.Sublist available') : Covers available available' :=
  fun _ hm _ _ => h.subset hm

theorem SameReleases.covers (h : SameReleases available available') : Covers available available' := by
  intro entry hm release hr
  have hfilter : entry ∈ available.filter fun entry => (Release.read? entry).isSome :=
    List.mem_filter.mpr ⟨hm, by simp [hr]⟩
  exact (List.mem_filter.mp (h.mem_iff.mp hfilter)).1

theorem SameReleases.symm (h : SameReleases available available') : SameReleases available' available :=
  List.Perm.symm h

end Picks

namespace Known

/-- The same is known, but for the versions that are listed. -/
def relist (known : Known) (available : List String) : Known :=
  { known with available := available }

variable {known : Known} {available available' : List String} {picked entry : String}

/-- What is chosen is as good as anything that qualifies. -/
theorem Chooses.noWorse : ∀ {s : Specifier}, s.IsReadable → known.Chooses s picked → known.Qualifies s entry →
    s.NoWorse picked entry
  | .exact text, hs, h, he => by
    obtain ⟨wanted, hw⟩ := hs text rfl
    have hpicked := ((qualifies_exact_iff hw).mp h.qualifies).2
    exact (sameRelease_iff hpicked).mpr ((qualifies_exact_iff hw).mp he).2
  | .range _, _, ⟨r, hr, h⟩, ⟨r', hr', he⟩ => by
    obtain rfl := Except.ok.inj (hr.symm.trans hr')
    exact h.no_less he
  | .alias .lts, _, h, he => Picks.no_less h he
  | .alias .min, _, ⟨compat, hc, h⟩, ⟨compat', hc', he⟩ => by
    obtain rfl := Option.some.inj (hc.symm.trans hc')
    exact h.no_greater he
  | .alias .manifest, _, ⟨hpin, _⟩, ⟨hpin', _⟩ => Option.some.inj (hpin.symm.trans hpin')
  | .alias .pre, _, h, he => Picks.no_less h he

/-- An entry that qualifies does so whatever else is listed. -/
theorem Qualifies.carry (hc : Covers available available') : ∀ {s : Specifier}, s.IsReadable →
    (known.relist available).Qualifies s entry → (known.relist available').Qualifies s entry
  | .exact text, hs, h => by
    obtain ⟨wanted, hw⟩ := hs text rfl
    obtain ⟨hm, hr⟩ := (qualifies_exact_iff hw).mp h
    exact (qualifies_exact_iff hw).mpr ⟨hc entry hm wanted hr, hr⟩
  | .range _, _, ⟨r, hr, h⟩ => ⟨r, hr, h.carry hc⟩
  | .alias .lts, _, h => IsIn.carry hc h
  | .alias .min, _, ⟨compat, hcompat, h⟩ => ⟨compat, hcompat, h.carry hc⟩
  | .alias .manifest, _, h => h
  | .alias .pre, _, h => IsIn.carry hc h

section Relist

variable {s : Specifier} (hs : s.IsReadable)
include hs

/-- More entries, no worse answer. -/
theorem exists_resolve_relist (hc : Covers available available')
    (h : (known.relist available).resolve s = .ok (some entry)) :
    ∃ entry', (known.relist available').resolve s = .ok (some entry') ∧ s.NoWorse entry' entry := by
  have hentry := (resolve_eq_some.mp h).qualifies.carry hc hs
  obtain ⟨entry', h', -⟩ := hentry.exists_resolve
  exact ⟨entry', h', (resolve_eq_some.mp h').noWorse hs hentry⟩

theorem resolve_relist_none (hc : Covers available' available)
    (h : (known.relist available).resolve s = .ok none) : (known.relist available').resolve s = .ok none := by
  obtain ⟨hnone, hmin⟩ := resolve_eq_none.mp h
  exact resolve_eq_none.mpr ⟨fun entry he => hnone entry (he.carry hc hs), hmin⟩

theorem sameOutcome_of_sameReleases (h : SameReleases available available') :
    s.SameOutcome ((known.relist available).resolve s) ((known.relist available').resolve s) := by
  cases hr : (known.relist available).resolve s with
  | error failure =>
    have hmin := resolve_eq_error.mp hr
    have hr' : (known.relist available').resolve s = .error failure := resolve_eq_error.mpr hmin
    rw [hr']
    exact .error failure
  | ok answer =>
    cases answer with
    | none =>
      rw [resolve_relist_none hs h.symm.covers hr]
      exact .none
    | some entry =>
      obtain ⟨entry', hr', hle⟩ := exists_resolve_relist hs h.covers hr
      rw [hr']
      -- The new answer qualifies in the first list too, where `entry` was chosen.
      have hentry' := (resolve_eq_some.mp hr').qualifies.carry h.symm.covers hs
      exact .some (((resolve_eq_some.mp hr).noWorse hs hentry').antisymm hle)

end Relist

/-- **The list and the answer.** Two lists with the same releases in them, in
whatever order and with whatever else, have the same outcome: the answers mean
the same version. Where entries are added to a list there still is an answer,
and it is no worse: an earlier version for `min`, a later one for a range and
for the other aliases, if it is not of the same precedence. -/
theorem resolve_relisted (raw : String) (known : Known) (available available' : List String) :
    (SameReleases available available' →
      (Specifier.classify raw).SameOutcome ((known.relist available).resolve (Specifier.classify raw))
        ((known.relist available').resolve (Specifier.classify raw))) ∧
    (available.Sublist available' → ∀ entry,
      (known.relist available).resolve (Specifier.classify raw) = .ok (some entry) →
        ∃ entry', (known.relist available').resolve (Specifier.classify raw) = .ok (some entry') ∧
          (Specifier.classify raw).NoWorse entry' entry) := by
  have hs := Specifier.isReadable_classify raw
  exact ⟨sameOutcome_of_sameReleases hs, fun h _ hr => exists_resolve_relist hs (.of_sublist h) hr⟩

/-- A list in another order and without what is no release, and the list with
one more entry. -/
theorem resolve_relisted_caret :
    ∃ (known : Known) (available : List String), available = ["1.10.4", "1.12", "v1.11.1", "1.11.1"] ∧
      SameReleases available ["1.11.1", "1.10.4", "v1.11.1"] ∧
      (Specifier.classify "^1.10").SameOutcome (.ok (some "v1.11.1"))
        ((known.relist ["1.11.1", "1.10.4", "v1.11.1"]).resolve (Specifier.classify "^1.10")) ∧
      available.Sublist ("1.11.2" :: available) ∧ StandsTo .ge "1.11.2" "v1.11.1" := by
  let known : Known := ⟨.any, [], none, none⟩
  let available : List String := ["1.10.4", "1.12", "v1.11.1", "1.11.1"]
  have hfirst : (known.relist available).resolve (Specifier.classify "^1.10") = .ok (some "v1.11.1") := by
    decide +kernel
  have hmore : (known.relist ("1.11.2" :: available)).resolve (Specifier.classify "^1.10") = .ok (some "1.11.2") := by
    decide +kernel
  have hsame : SameReleases available ["1.11.1", "1.10.4", "v1.11.1"] := by
    unfold SameReleases
    decide +kernel
  have hadded : available.Sublist ("1.11.2" :: available) := List.sublist_cons_self _ _
  refine ⟨known, available, rfl, hsame, ?_, hadded, ?_⟩
  · rw [← hfirst]
    exact (resolve_relisted "^1.10" known available _).1 hsame
  · obtain ⟨entry', hr', hle⟩ := (resolve_relisted "^1.10" known available _).2 hadded "v1.11.1" hfirst
    obtain rfl : "1.11.2" = entry' := Option.some.inj (Except.ok.inj (hmore.symm.trans hr'))
    have hclass : Specifier.classify "^1.10" = .range "^1.10" := by decide
    rw [hclass] at hle
    exact hle

end Known

end VersionPick
