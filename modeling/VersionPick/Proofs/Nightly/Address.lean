/-
The addresses of nightly builds. Cut at its slashes, an address ends with the
operating system, the architecture, the pieces of the branch if there is one,
and the name of the file (`splitOn_url`). The first two of these and the last
are those of one entry of the table only, and a branch has a piece at least, so
none is not mistaken for one: an address tells which artifact of which branch
it is of (`url_inj`), even if the branch has slashes in its text.
-/
import Mathlib.Data.List.Nodup
import VersionPick.Nightly
import VersionPick.Proofs.Text.Pieces

namespace VersionPick.Nightly

open Text

/-- A base without the slashes at its end. -/
def bareBase (base : String) : List Char :=
  (base.toList.reverse.dropWhile (· == '/')).reverse

theorem bareBase_append (base : String) (count : Nat) :
    bareBase (base ++ String.ofList (List.replicate count '/')) = bareBase base := by
  have hslashes : ∀ c ∈ List.replicate count '/', (c == '/') = true := by
    intro c hc
    rw [List.eq_of_mem_replicate hc]
    rfl
  rw [bareBase, String.toList_append, String.toList_ofList, List.reverse_append, List.reverse_replicate,
    List.dropWhile_append_of_pos hslashes, bareBase]

namespace Platform

theorem url_congr {base base' : String} (h : bareBase base = bareBase base') (p : Platform) (branch : Option String) :
    p.url base branch = p.url base' branch := by
  unfold url
  rw [← bareBase, ← bareBase, h]

/-- The name of the artifact itself. -/
def file (p : Platform) : List Char :=
  ("julia-latest-" ++ p.label ++ "." ++ p.extension).toList

/-- The folders of a branch, of which there are none without one. -/
def folders (branch : Option String) : List (List Char) :=
  (branch.map fun branch => List.splitOn '/' branch.toList).getD []

theorem folders_inj {branch branch' : Option String} (h : folders branch = folders branch') : branch = branch' := by
  cases branch with
  | none =>
    cases branch' with
    | none => rfl
    | some b' => exact absurd h.symm (List.splitOn_ne_nil _ _)
  | some b =>
    cases branch' with
    | none => exact absurd h (List.splitOn_ne_nil _ _)
    | some b' =>
      have hpieces : List.splitOn '/' b.toList = List.splitOn '/' b'.toList := h
      have htext : b.toList = b'.toList :=
        calc b.toList = List.intercalate ['/'] (List.splitOn '/' b.toList) := (List.intercalate_splitOn '/').symm
          _ = b'.toList := by rw [hpieces, List.intercalate_splitOn]
      rw [String.toList_inj.mp htext]

/-- No name of the table has a slash inside. -/
theorem slash_not_mem {p : Platform} (hp : p ∈ platforms) :
    '/' ∉ p.os.toList ∧ '/' ∉ p.arch.toList ∧ '/' ∉ p.file := by
  revert p
  decide

theorem splitOn_url {p : Platform} (hp : p ∈ platforms) (base : String) (branch : Option String) :
    List.splitOn '/' (p.url base branch).toList =
      List.splitOn '/' (bareBase base) ++ p.os.toList :: p.arch.toList :: (folders branch ++ [p.file]) := by
  obtain ⟨hos, harch, hfile⟩ := slash_not_mem hp
  have hend : List.splitOn '/' (((branch.map (· ++ "/")).getD "").toList ++ p.file) = folders branch ++ [p.file] := by
    cases branch with
    | none => exact List.splitOn_eq_singleton hfile
    | some branch =>
      have htext : ((some branch).map (· ++ "/")).getD "" = branch ++ "/" := rfl
      rw [htext, String.toList_append, List.append_assoc, show "/".toList ++ p.file = '/' :: p.file from rfl,
        List.splitOn_append_cons_self, List.splitOn_eq_singleton hfile]
      rfl
  have htext : (p.url base branch).toList = bareBase base ++ '/' :: (p.os.toList ++ '/' :: (p.arch.toList ++
      '/' :: (((branch.map (· ++ "/")).getD "").toList ++ p.file))) := by
    simp [url, bareBase, file, String.toList_append]
  rw [htext, List.splitOn_append_cons_self, List.splitOn_append_cons_self, List.splitOn_append_cons_self,
    List.splitOn_eq_singleton hos,
    List.splitOn_eq_singleton harch, hend]
  rfl

/-- The operating system, the architecture and the file are those of one entry
of the table. -/
theorem eq_of_names {p q : Platform} (hp : p ∈ platforms) (hq : q ∈ platforms) (hos : p.os = q.os)
    (harch : p.arch = q.arch) (hfile : p.file = q.file) : p = q := by
  have hnodup : (platforms.map fun p => (p.os, p.arch, p.file)).Nodup := by decide
  exact List.inj_on_of_nodup_map hnodup hp hq (by rw [hos, harch, hfile])

theorem url_inj {p q : Platform} (hp : p ∈ platforms) (hq : q ∈ platforms) {base : String}
    {branch branch' : Option String} (h : p.url base branch = q.url base branch') : p = q ∧ branch = branch' := by
  have hpieces := splitOn_url hp base branch
  rw [h, splitOn_url hq base branch'] at hpieces
  have hnames := List.append_cancel_left hpieces
  simp only [List.cons.injEq, String.toList_inj] at hnames
  obtain ⟨hos, harch, hend⟩ := hnames
  obtain ⟨hfolders, hfile⟩ := List.append_inj' hend rfl
  exact ⟨eq_of_names hp hq hos.symm harch.symm (List.singleton_inj.mp hfile).symm, (folders_inj hfolders).symm⟩

/-- **The address of an artifact** tells which entry of the table and which
branch it is of, or that it is of none. Slashes at the end of the base make no
difference to it. -/
theorem url_identifies (base : String) :
    (∀ p ∈ platforms, ∀ q ∈ platforms, ∀ branch branch' : Option String,
      p.url base branch = q.url base branch' ↔ p = q ∧ branch = branch') ∧
    ∀ (p : Platform) (branch : Option String) (count : Nat),
      p.url (base ++ String.ofList (List.replicate count '/')) branch = p.url base branch := by
  constructor
  · intro p hp q hq branch branch'
    constructor
    · exact url_inj hp hq
    · rintro ⟨rfl, rfl⟩
      rfl
  · intro p branch count
    exact url_congr (bareBase_append base count) p branch

/-- The image for `macos` without a branch, and the archive of a branch that
has no text. -/
theorem url_identifies_empty_branch :
    let image : Platform := ⟨"macos", "x86_64", none, "dmg"⟩
    let archive : Platform := ⟨"macos", "x86_64", none, "tar.gz"⟩
    image ∈ platforms ∧ archive ∈ platforms ∧ image.url "http://h/" none ≠ archive.url "http://h/" (some "") ∧
      archive.url "http://h/" none ≠ archive.url "http://h/" (some "") := by
  intro image archive
  have himage : image ∈ platforms := by decide
  have harchive : archive ∈ platforms := by decide
  have hidentifies := (url_identifies "http://h/").1
  refine ⟨himage, harchive, fun h => ?_, fun h => ?_⟩
  · exact absurd ((hidentifies image himage archive harchive none (some "")).mp h).2 nofun
  · exact absurd ((hidentifies archive harchive archive harchive none (some "")).mp h).2 nofun

end Platform

end VersionPick.Nightly
