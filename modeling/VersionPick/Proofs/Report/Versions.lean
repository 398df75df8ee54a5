/-
The different versions of a report. They are the versions that specifiers
resolved to, each once and in the natural order, so two resolutions to the same
versions report the same list, whatever the order of their specifiers, and
however often one is repeated or has no version (`uniqueVersion_canonical`).
-/
import VersionPick.Report
import VersionPick.Proofs.Text.Natural

namespace VersionPick

open Text

/-- A new element comes last. -/
theorem eraseDups_concat [DecidableEq α] (a : α) (as : List α) :
    (as ++ [a]).eraseDups = if a ∈ as then as.eraseDups else as.eraseDups ++ [a] := by
  rw [List.eraseDups_append]
  by_cases h : a ∈ as <;> simp [List.removeAll, h, List.eraseDups_cons]

theorem nodup_eraseDups [DecidableEq α] (as : List α) : as.eraseDups.Nodup := by
  induction as using List.reverseRecOn with
  | nil => simp
  | append_singleton as a ih =>
    rw [eraseDups_concat]
    split
    · exact ih
    next h => simpa using ih.concat (mt List.mem_eraseDups.mp h)

namespace Report

theorem mem_uniqueVersion {resolved : List (Option String)} {version : String} :
    version ∈ (ofResolved resolved).uniqueVersion ↔ some version ∈ resolved := by
  rw [ofResolved, (perm_naturalSort _).mem_iff, List.mem_eraseDups]
  simp

theorem pairwise_uniqueVersion (resolved : List (Option String)) :
    (ofResolved resolved).uniqueVersion.Pairwise fun a b => Precedes a.toList b.toList :=
  pairwise_naturalSort (nodup_eraseDups _)

/-- **The different versions of a report** are the versions that specifiers
resolved to, in strictly increasing order, so each is there once. Two
resolutions report the same list exactly if they come to the same versions. The
versions themselves are reported as they were resolved. -/
theorem uniqueVersion_canonical (resolved : List (Option String)) :
    (ofResolved resolved).version = resolved ∧
    (∀ version, version ∈ (ofResolved resolved).uniqueVersion ↔ some version ∈ resolved) ∧
    ((ofResolved resolved).uniqueVersion.Pairwise fun a b => Precedes a.toList b.toList) ∧
    (ofResolved resolved).uniqueVersion.Nodup ∧
    ∀ resolved', (ofResolved resolved).uniqueVersion = (ofResolved resolved').uniqueVersion ↔
      ∀ version, some version ∈ resolved ↔ some version ∈ resolved' := by
  refine ⟨rfl, fun version => mem_uniqueVersion, pairwise_uniqueVersion resolved, ?_, fun resolved' => ?_⟩
  · exact (perm_naturalSort _).nodup_iff.mpr (nodup_eraseDups _)
  · constructor
    · intro h version
      rw [← mem_uniqueVersion, h, mem_uniqueVersion]
    · intro h
      refine eq_of_pairwise_precedes (pairwise_uniqueVersion _) (pairwise_uniqueVersion _) fun version => ?_
      rw [mem_uniqueVersion, h, mem_uniqueVersion]

end Report

end VersionPick
