/-
The manifest of a project that is named by its folder, and of the same project
named by its project file. Both are looked for in the folder of the project
file (`exists_beside`), the one through the path as it was given and the other
through the parent of the file. So they come to the same (`manifest_alike`),
unless the path that was given is so long for its components that a manifest in
the folder cannot be reached by it (`manifest_out_of_reach`).
-/
import Mathlib.Data.List.Find
import VersionPick.Proofs.Files.Path
import VersionPick.Proofs.Project.Lookup

namespace VersionPick

open VersionPick.Path

namespace Project

theorem findProject_eq (t : Tree) (p : String) : Id.run (findProject t.files p).run =
    match t.projectFile? p with
    | some path => .ok path
    | none => .error (.noProjectFile p) := by
  have h := run_findProject (m := Id) t p
  cases hfile : t.projectFile? p with
  | none | some => rw [hfile] at h; exact h

theorem findManifest_eq (t : Tree) (p : String) : Id.run (findManifest t.files p).run =
    match t.manifestFile? p with
    | some path => .ok path
    | none => .error (.noManifestFile p) := by
  have h := run_findManifest (m := Id) t p
  cases hfile : t.manifestFile? p with
  | none | some => rw [hfile] at h; exact h

theorem loadPin_eq (t : Tree) (p : String) : Id.run (loadPin t.files p).run =
    match t.manifestFile? p with
    | some path => (t.metadata path).map (·.pin)
    | none => .error (.noManifestFile p) := by
  have h := run_loadPin (m := Id) t p
  unfold Tree.pin at h
  cases hfile : t.manifestFile? p with
  | none | some => rw [hfile] at h; exact h

theorem isName_of_mem {name : String} (h : name ∈ projectNames ++ manifestNames) : IsName name := by
  simp only [projectNames, manifestNames, List.cons_append, List.nil_append, List.mem_cons, List.not_mem_nil,
    or_false] at h
  rcases h with rfl | rfl | rfl | rfl <;> exact ⟨by decide, by decide, by decide, by decide⟩

theorem isName_of_mem_manifestNames {name : String} (h : name ∈ manifestNames) : IsName name :=
  isName_of_mem (List.mem_append_right _ h)

theorem not_isTooLong_of_mem : ∀ name ∈ projectNames ++ manifestNames, Tree.isTooLong name = false := by decide

theorem null_not_mem : ∀ name ∈ projectNames ++ manifestNames, '\x00' ∉ name.toList := by decide

end Project

namespace Tree

open Project

variable {t : Tree}

/-- The folder of a file is the one that the parent of its path leads to. -/
theorem exists_parent {folder name : String} (hname : IsName name) (h : t.isFile (Path.join folder name) = true) :
    ∃ parent here, parent? (Path.join folder name) = some parent ∧ Padded parent folder ∧
      t.folderAt folder = .ok here ∧ t.spot (Path.join folder name) = .ok (.named (name :: here) false) := by
  obtain ⟨parent, hparent, hpadded⟩ := parent?_join hname folder
  obtain ⟨place, hspot⟩ := spot_of_isFile h
  rw [spot_join hname (takes_of_isFile h), bind_eq_ok] at hspot
  obtain ⟨here, hfolder, -⟩ := hspot
  exact ⟨parent, here, hparent, hpadded, hfolder, spot_join_ok hname (takes_of_isFile h) hfolder⟩

/-- The folder of the project file, as its manifest is looked for from either
path. -/
structure Beside (t : Tree) (p f folder last : String) (here : Place) : Prop where
  spot : t.spot f = .ok (.named (last :: here) false)
  parent : parent? f = some folder
  fromFile : t.manifestFolder f = folder
  padded : Padded folder (t.manifestFolder p)
  folderAt : t.folderAt folder = .ok here
  noNull : ∀ name ∈ manifestNames, '\x00' ∉ (Path.join (t.manifestFolder p) name).toList

theorem exists_beside_join {p folder name : String} (hname : IsName name)
    (hfile : t.isFile (Path.join folder name) = true)
    (hp : p = Path.join folder name ∨ t.manifestFolder p = folder) :
    ∃ parent here, t.Beside p (Path.join folder name) parent name here := by
  obtain ⟨parent, here, hparent, hpadded, hfolder, hspot⟩ := exists_parent hname hfile
  have hbeside : t.manifestFolder (Path.join folder name) = parent := by
    rw [manifestFolder, if_pos hfile, hparent, Option.getD_some]
  -- The manifest is looked for from the parent or from the folder, and both differ in padding only.
  have hbetween : Padded parent (t.manifestFolder p) ∧ Padded (t.manifestFolder p) folder := by
    rcases hp with rfl | hp
    · rw [hbeside]
      exact ⟨.refl parent, hpadded⟩
    · rw [hp]
      exact ⟨hpadded, .refl folder⟩
  refine ⟨parent, here, hspot, hparent, hbeside, hbetween.1, ?_, fun manifest hm => ?_⟩
  · rw [← folderAt_of_padded hpadded, hfolder]
  · exact hbetween.2.not_mem_join hname (isName_of_mem_manifestNames hm) (takes_of_isFile hfile).noNull
      (null_not_mem manifest (List.mem_append_right _ hm))

theorem exists_beside {p f : String} (h : t.projectFile? p = some f) :
    ∃ folder last here, t.Beside p f folder last here := by
  unfold projectFile? at h
  split at h
  next hfile =>
    obtain rfl : p = f := Option.some.inj h
    obtain ⟨place, hspot⟩ := spot_of_isFile hfile
    obtain ⟨folder, name, rfl, hname⟩ := exists_join_of_spot hspot
    obtain ⟨parent, here, hbeside⟩ := exists_beside_join hname hfile (.inl rfl)
    exact ⟨parent, name, here, hbeside⟩
  next hfile =>
    split at h
    next =>
      obtain ⟨name, hmem, rfl⟩ := List.mem_map.mp (List.mem_of_find?_eq_some h)
      have hname : IsName name := isName_of_mem (List.mem_append_left _ hmem)
      have hmanifest : t.manifestFolder p = p := by rw [manifestFolder, if_neg hfile]
      obtain ⟨parent, here, hbeside⟩ := exists_beside_join hname (List.find?_some h) (.inr hmanifest)
      exact ⟨parent, name, here, hbeside⟩
    next => cases h

/-- In a folder that can be reached, a manifest is found by its name. -/
theorem find?_manifest {folder : String} {here : Place} (hfolder : t.folderAt folder = .ok here)
    (hnull : ∀ name ∈ manifestNames, '\x00' ∉ (Path.join folder name).toList)
    (hshort : ∀ name ∈ manifestNames, t.hasFile here name = true → (Path.join folder name).utf8ByteSize < 4096) :
    (manifestNames.map (Path.join folder)).find? t.isFile =
      (manifestNames.find? (t.hasFile here)).map (Path.join folder) := by
  -- A path that is refused leads to no file, and there is none to find by it either.
  have hjoin : ∀ name ∈ manifestNames, Takes (Path.join folder name) →
      t.isFile (Path.join folder name) = t.hasFile here name := fun name hm htakes =>
    isFile_join (isName_of_mem_manifestNames hm) (not_isTooLong_of_mem name (List.mem_append_right _ hm)) htakes hfolder
  have hsame : ∀ name ∈ manifestNames, t.isFile (Path.join folder name) = t.hasFile here name := by
    intro name hm
    rw [Bool.eq_iff_iff]
    constructor
    · intro h
      rwa [← hjoin name hm (takes_of_isFile h)]
    · intro h
      rwa [hjoin name hm ⟨hnull name hm, hshort name hm h⟩]
  rw [List.find?_map]
  exact congrArg (Option.map _) (List.find?_congr hsame)

/-- The path of each manifest beside a project file, as it is formed from the
path of the project, is one that the file system takes. -/
def ReachesManifests (t : Tree) (p f : String) : Prop :=
  ∀ last here, t.spot f = .ok (.named (last :: here) false) → ∀ name ∈ manifestNames, t.hasFile here name = true →
    (Path.join (t.manifestFolder p) name).utf8ByteSize < 4096

section

variable {p f folder last : String} {here : Place} (h : t.Beside p f folder last here) (hreach : t.ReachesManifests p f)
include h hreach

theorem Beside.manifestFile?_project :
    t.manifestFile? p = (manifestNames.find? (t.hasFile here)).map (Path.join (t.manifestFolder p)) :=
  find?_manifest (folderAt_of_padded h.padded ▸ h.folderAt) h.noNull (hreach last here h.spot)

theorem Beside.manifestFile?_file :
    t.manifestFile? f = (manifestNames.find? (t.hasFile here)).map (Path.join folder) := by
  unfold manifestFile?
  rw [h.fromFile]
  refine find?_manifest h.folderAt (fun name hm => ?_) fun name hm hhas => ?_
  · have hname := isName_of_mem_manifestNames hm
    exact h.padded.not_mem_join hname hname (h.noNull name hm) (null_not_mem name (List.mem_append_right _ hm))
  · have hshort := hreach last here h.spot name hm hhas
    exact Nat.lt_of_le_of_lt (h.padded.size_join (isName_of_mem_manifestNames hm)) hshort

end

/-- The name of the manifest in a folder. -/
def manifestName (t : Tree) (here : Place) : String :=
  if t.hasFile here "JuliaManifest.toml" then "JuliaManifest.toml" else "Manifest.toml"

/-- A manifest of a project file in a folder: a file of the folder, the one
with `Julia` in front if there are both. -/
structure IsManifestOf (t : Tree) (f : String) (here : Place) (m : String) : Prop where
  isFile : t.isFile m = true
  spot : t.spot m = .ok (.named (t.manifestName here :: here) false)
  parent : ∃ folder folder', parent? m = some folder ∧ parent? f = some folder' ∧
    components folder = components folder'
  name : (components m).2.getLast? = some (t.manifestName here).toList

/-- What is found for a project and for its project file. -/
inductive FoundAlike (t : Tree) (p f : String) (here : Place) : Except Failure String → Except Failure String → Prop
  | neither (h : ∀ name ∈ manifestNames, t.hasFile here name = false) :
    FoundAlike t p f here (.error (.noManifestFile p)) (.error (.noManifestFile f))
  | both {m m' : String} (hsame : components m = components m') (hm : t.IsManifestOf f here m)
    (hm' : t.IsManifestOf f here m') : FoundAlike t p f here (.ok m) (.ok m')

/-- What the manifests say: the same version, or the same failure of paths that
are as good as one. -/
inductive PinnedAlike (p f : String) : Except Failure (Option String) → Except Failure (Option String) → Prop
  | version (version : Option String) : PinnedAlike p f (.ok version) (.ok version)
  | noManifest : PinnedAlike p f (.error (.noManifestFile p)) (.error (.noManifestFile f))
  | unreadable {m m' : String} (fault : FileFault) (hsame : components m = components m') :
    PinnedAlike p f (.error (.unreadable m fault)) (.error (.unreadable m' fault))
  | notToml (detail : String) : PinnedAlike p f (.error (.notToml detail)) (.error (.notToml detail))

theorem eq_manifestName {here : Place} {name : String} (h : manifestNames.find? (t.hasFile here) = some name) :
    name = t.manifestName here := by
  unfold manifestNames at h
  unfold manifestName
  rw [List.find?_cons] at h
  split at h
  next hfirst => rw [hfirst, if_pos rfl, Option.some.inj h]
  next hfirst =>
    rw [List.find?_singleton, Option.ite_none_right_eq_some] at h
    rw [hfirst]
    exact (Option.some.inj h.2).symm

section

variable {p f folder last : String} {here : Place} (h : t.Beside p f folder last here) {name : String}
  (hfind : manifestNames.find? (t.hasFile here) = some name)
include h hfind

theorem Beside.isManifestOf {path : String} (hpath : Padded folder path)
    (hfile : t.isFile (Path.join path name) = true) : t.IsManifestOf f here (Path.join path name) := by
  have hname := isName_of_mem_manifestNames (List.mem_of_find?_eq_some hfind)
  obtain ⟨parent, hparent, hpadded⟩ := parent?_join hname path
  have hhere : t.folderAt path = .ok here := folderAt_of_padded hpath ▸ h.folderAt
  refine ⟨hfile, ?_, ⟨parent, folder, hparent, h.parent, ?_⟩, ?_⟩
  · rw [← eq_manifestName hfind]
    exact spot_join_ok hname (takes_of_isFile hfile) hhere
  · rw [← hpadded.components_eq, hpath.components_eq]
  · rw [components_join hname, List.getLast?_concat, ← eq_manifestName hfind]

theorem Beside.read_eq (hp : t.isFile (Path.join (t.manifestFolder p) name) = true)
    (hf : t.isFile (Path.join folder name) = true) :
    t.read (Path.join (t.manifestFolder p) name) = t.read (Path.join folder name) := by
  have hmem := List.mem_of_find?_eq_some hfind
  have hname := isName_of_mem_manifestNames hmem
  have hlength := not_isTooLong_of_mem name (List.mem_append_right _ hmem)
  have hproject := find_join hname hlength (takes_of_isFile hp) (folderAt_of_padded h.padded ▸ h.folderAt)
  have hfile := find_join hname hlength (takes_of_isFile hf) h.folderAt
  unfold read
  rw [hproject, hfile]

end

theorem pinnedAlike_of_read {p f m m' : String} (hread : t.read m = t.read m') (hsame : components m = components m') :
    PinnedAlike p f ((t.metadata m).map (·.pin)) ((t.metadata m').map (·.pin)) := by
  unfold metadata
  rw [hread]
  cases t.read m' with
  | error fault => exact .unreadable fault hsame
  | ok text =>
    cases hm : Metadata.ofText text with
    | error defect =>
      simp only [hm]
      exact .notToml defect.message
    | ok metadata =>
      simp only [hm]
      exact .version metadata.pin

end Tree

namespace Project

open VersionPick.Tree

/-- **The manifest of a project** is the same whether the project is named by
its folder or by its project file, as long as the file system takes the paths of
the manifests that are there: the file with `Julia` in front if there is one,
else the other, beside the project file. So the version in it is the same too. -/
theorem manifest_alike {t : Tree} {p f : String} (hfound : Id.run (findProject t.files p).run = .ok f)
    (hreach : t.ReachesManifests p f) : ∃ last here, t.spot f = .ok (.named (last :: here) false) ∧
      FoundAlike t p f here (Id.run (findManifest t.files p).run) (Id.run (findManifest t.files f).run) ∧
      PinnedAlike p f (Id.run (loadPin t.files p).run) (Id.run (loadPin t.files f).run) := by
  have hproject : t.projectFile? p = some f := by
    rw [findProject_eq] at hfound
    split at hfound
    next path hpath => exact hpath.trans (congrArg some (Except.ok.inj hfound))
    next => cases hfound
  obtain ⟨folder, last, here, h⟩ := exists_beside hproject
  have hp := h.manifestFile?_project hreach
  have hf := h.manifestFile?_file hreach
  refine ⟨last, here, h.spot, ?_⟩
  rw [findManifest_eq, findManifest_eq, loadPin_eq, loadPin_eq, hp, hf]
  cases hfind : manifestNames.find? (t.hasFile here) with
  | none =>
    refine ⟨.neither fun name hm => ?_, .noManifest⟩
    simpa using List.find?_eq_none.mp hfind name hm
  | some name =>
    rw [hfind] at hp hf
    have hmanifest := List.find?_some hp
    have hmanifest' := List.find?_some hf
    have hname := isName_of_mem_manifestNames (List.mem_of_find?_eq_some hfind)
    have hsame : components (Path.join (t.manifestFolder p) name) = components (Path.join folder name) := by
      rw [components_join hname, components_join hname, h.padded.components_eq]
    exact ⟨.both hsame (h.isManifestOf hfind h.padded hmanifest) (h.isManifestOf hfind (.refl folder) hmanifest'),
      pinnedAlike_of_read (h.read_eq hfind hmanifest hmanifest') hsame⟩

/-- A folder with a project and both manifests. -/
def bothManifests : Tree :=
  ⟨[(["JuliaManifest.toml", "sub", ""], .file "julia_version = \"1.10.4\"\n".toUTF8),
    (["Manifest.toml", "sub", ""], .file "julia_version = \"1.9.4\"\n".toUTF8),
    (["Project.toml", "sub", ""], .file .empty), (["sub", ""], .folder)]⟩

theorem manifest_alike_both : Id.run (findProject bothManifests.files "sub/./").run = .ok "sub/./Project.toml" ∧
    bothManifests.ReachesManifests "sub/./" "sub/./Project.toml" ∧
    ∃ last here, bothManifests.spot "sub/./Project.toml" = .ok (.named (last :: here) false) ∧
      FoundAlike bothManifests "sub/./" "sub/./Project.toml" here
        (Id.run (findManifest bothManifests.files "sub/./").run)
        (Id.run (findManifest bothManifests.files "sub/./Project.toml").run) ∧
      PinnedAlike "sub/./" "sub/./Project.toml" (Id.run (loadPin bothManifests.files "sub/./").run)
        (Id.run (loadPin bothManifests.files "sub/./Project.toml").run) := by
  have hfound : Id.run (findProject bothManifests.files "sub/./").run = .ok "sub/./Project.toml" := by decide
  have hshort : ∀ name ∈ manifestNames,
      (Path.join (bothManifests.manifestFolder "sub/./") name).utf8ByteSize < 4096 := by decide
  have hreach : bothManifests.ReachesManifests "sub/./" "sub/./Project.toml" :=
    fun last here _ name hm _ => hshort name hm
  exact ⟨hfound, hreach, manifest_alike hfound hreach⟩

/-! ## A manifest out of reach -/

/-- A folder with a project and a manifest. -/
def oneManifest : Tree :=
  ⟨[(["Manifest.toml", "a", ""], .file .empty), (["Project.toml", "a", ""], .file .empty), (["a", ""], .folder)]⟩

/-- The path of the folder, with a row of slashes. -/
def slashed : Nat → String
  | 0 => "a"
  | n + 1 => slashed n ++ "/"

theorem size_slashed (n : Nat) : (slashed n).utf8ByteSize = n + 1 := by
  induction n with
  | zero => rfl
  | succ n ih =>
    rw [slashed, String.utf8ByteSize_append, ih]
    rfl

theorem splitOn_slashed (n : Nat) : List.splitOn '/' (slashed n).toList = ['a'] :: List.replicate n [] := by
  induction n with
  | zero => rfl
  | succ n ih =>
    have hslash : (slashed (n + 1)).toList = (slashed n).toList ++ '/' :: [] := by simp [slashed]
    rw [hslash, List.splitOn_append_cons_self, ih, List.cons_append, List.replicate_succ']
    rfl

theorem getLast?_slashed (n : Nat) : (slashed (n + 1)).toList.getLast? = some '/' := by
  simp [slashed]

theorem steps_slashed (n : Nat) : steps (slashed (n + 1)) = ['a'] :: List.replicate n [] := by
  have hslash : slashed (n + 1) = String.ofList ((slashed n).toList ++ ['/']) := by
    simp [slashed, String.ofList_append]
  rw [hslash, steps_slash, splitOn_slashed]

theorem null_not_mem_slashed (n : Nat) : '\x00' ∉ (slashed n).toList := by
  induction n with
  | zero => decide
  | succ n ih => simpa [slashed] using ih

theorem join_slashed (n : Nat) (name : String) : Path.join (slashed (n + 1)) name = slashed (n + 1) ++ name :=
  if_pos (.inr (getLast?_slashed n))

theorem padded_slashed (n : Nat) : Padded "a" (slashed (n + 1)) := by
  refine ⟨List.replicate n [], steps_slashed n, fun piece hp => ?_, fun h => nomatch h⟩
  rw [List.eq_of_mem_replicate hp]
  rfl

theorem find_slashed {n : Nat} (hn : n + 2 < 4096) : oneManifest.find (slashed (n + 1)) = .ok .folder := by
  have hnull : ¬ (slashed (n + 1)).toList.contains '\x00' = true := by simpa using null_not_mem_slashed (n + 1)
  have hne : slashed (n + 1) ≠ "" := by
    intro he
    have hsize := size_slashed (n + 1)
    rw [he] at hsize
    cases hsize
  have hshort : ¬ 4096 ≤ (slashed (n + 1)).utf8ByteSize := by
    rw [size_slashed]
    omega
  have hnames : (List.splitOn '/' (slashed (n + 1)).toList).map String.ofList = "a" :: List.replicate (n + 1) "" := by
    rw [splitOn_slashed, List.map_cons, List.map_replicate]
  have hdrop : (List.replicate (n + 1) "" ++ ["a"]).dropWhile (· == "") = ["a"] := by
    rw [List.dropWhile_append_of_pos fun piece hp => by rw [List.eq_of_mem_replicate hp]; rfl]
    decide
  have hspot : oneManifest.spot (slashed (n + 1)) = .ok (.named ["a", ""] true) := by
    unfold Tree.spot
    rw [if_neg hnull, if_neg hne, if_neg hshort]
    simp only [hnames, List.reverse_cons, List.reverse_replicate, hdrop]
    rfl
  unfold Tree.find
  rw [hspot]
  rfl

theorem parent?_slashed {name : String} (hname : IsName name) (n : Nat) :
    parent? (Path.join (slashed (n + 1)) name) = some "a" := by
  have hpieces : (List.splitOn '/' (Path.join (slashed (n + 1)) name).toList).reverse =
      name.toList :: (List.replicate n [] ++ [['a']]) := by
    rw [splitOn_join_name hname, steps_slashed, List.reverse_append, List.reverse_singleton, List.reverse_cons,
      List.reverse_replicate, List.singleton_append]
  have hname : dropIdle (name.toList :: (List.replicate n [] ++ [['a']])) =
      name.toList :: (List.replicate n [] ++ [['a']]) := by
    rw [← List.cons_append, dropIdle_append, List.dropWhile_cons_of_neg (by simp [hname.not_isIdle])]
  have hfolder : dropIdle (List.replicate n [] ++ [['a']]) = [['a']] := by
    simp [dropIdle_append, isIdle]
  obtain ⟨piece, pieces, hcons⟩ := List.exists_cons_of_ne_nil (l := List.replicate n [] ++ [['a']]) (by simp)
  unfold parent?
  rw [hpieces, hname]
  rw [hcons] at hfolder ⊢
  simp only [hfolder]
  rfl

/-- The folder has its files, as long as their paths are not too long. -/
theorem isFile_slashed {n : Nat} {name : String} (hmem : name ∈ projectNames ++ manifestNames) :
    oneManifest.isFile (Path.join (slashed (n + 1)) name) =
      (decide (n + 2 + name.utf8ByteSize < 4096) && oneManifest.hasFile ["a", ""] name) := by
  have hfolder : oneManifest.folderAt (slashed (n + 1)) = .ok ["a", ""] := by
    rw [folderAt_of_padded (padded_slashed n)]
    rfl
  have hsize : (Path.join (slashed (n + 1)) name).utf8ByteSize = n + 2 + name.utf8ByteSize := by
    rw [join_slashed, String.utf8ByteSize_append, size_slashed]
  by_cases hshort : n + 2 + name.utf8ByteSize < 4096
  · have htakes : Takes (Path.join (slashed (n + 1)) name) := by
      refine ⟨?_, hsize ▸ hshort⟩
      rw [join_slashed, String.toList_append, List.mem_append, not_or]
      exact ⟨null_not_mem_slashed _, null_not_mem name hmem⟩
    rw [isFile_join (isName_of_mem hmem) (not_isTooLong_of_mem name hmem) htakes hfolder, decide_eq_true hshort,
      Bool.true_and]
  · rw [decide_eq_false hshort, Bool.false_and, Bool.eq_false_iff]
    exact fun h => hshort (hsize ▸ (takes_of_isFile h).short)

/-- The path of a folder can be so long that its project file is found, and its
manifest by the project file only. -/
theorem manifest_out_of_reach :
    Id.run (findProject oneManifest.files (slashed 4082)).run = .ok (Path.join (slashed 4082) "Project.toml") ∧
    Id.run (findManifest oneManifest.files (slashed 4082)).run = .error (.noManifestFile (slashed 4082)) ∧
    Id.run (findManifest oneManifest.files (Path.join (slashed 4082) "Project.toml")).run =
      .ok "a/Manifest.toml" := by
  -- The path of the project file has 4095 bytes, that of the manifest one more.
  obtain ⟨n, hn⟩ : ∃ n, 4082 = n + 1 := ⟨4081, rfl⟩
  have hsize : n = 4081 := by omega
  rw [hn]
  have hfind : oneManifest.find (slashed (n + 1)) = .ok .folder := find_slashed (by omega)
  have hfile : oneManifest.isFile (slashed (n + 1)) = false := by simp only [Tree.isFile, hfind]
  have hfolder : oneManifest.isFolder (slashed (n + 1)) = true := by simp only [Tree.isFolder, hfind]
  have hproject : oneManifest.isFile (Path.join (slashed (n + 1)) "Project.toml") = true := by
    rw [isFile_slashed (by decide), hsize]
    decide
  have hother : oneManifest.isFile (Path.join (slashed (n + 1)) "JuliaProject.toml") = false := by
    rw [isFile_slashed (by decide), hsize]
    decide
  have hmanifest : ∀ name ∈ manifestNames, oneManifest.isFile (Path.join (slashed (n + 1)) name) = false := by
    intro name hm
    rw [isFile_slashed (List.mem_append_right _ hm), hsize]
    revert name
    decide
  have hbeside : oneManifest.manifestFolder (Path.join (slashed (n + 1)) "Project.toml") = "a" := by
    rw [Tree.manifestFolder, if_pos hproject, parent?_slashed (isName_of_mem (by decide)), Option.getD_some]
  refine ⟨?_, ?_, ?_⟩
  · have hfound : oneManifest.projectFile? (slashed (n + 1)) = some (Path.join (slashed (n + 1)) "Project.toml") := by
      rw [Tree.projectFile?, hfile, hfolder]
      simp [projectNames, hother, hproject]
    rw [findProject_eq, hfound]
  · have hnone : oneManifest.manifestFile? (slashed (n + 1)) = none := by
      rw [Tree.manifestFile?, Tree.manifestFolder, hfile]
      simpa using hmanifest
    rw [findManifest_eq, hnone]
  · have hfound : oneManifest.manifestFile? (Path.join (slashed (n + 1)) "Project.toml") = some "a/Manifest.toml" := by
      rw [Tree.manifestFile?, hbeside]
      decide
    rw [findManifest_eq, hfound]

end Project

end VersionPick
