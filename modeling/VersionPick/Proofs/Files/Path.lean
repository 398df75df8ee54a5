/-
What paths say, however they are written. A path is a row of steps, and the
path of a name in a folder has one step more than the folder (`steps_join`).
Its parent is the folder again, but for steps at the end that lead nowhere
(`parent?_join`); such steps change neither the components of a path
(`Padded.components_eq`) nor the folder it leads to (`folderAt_of_padded`).
They make it longer only (`Padded.size_join`), and that can matter: a system
takes no path that is too long (`Takes`).
-/
import VersionPick.Proofs.Files.Tree
import VersionPick.Proofs.Text.Pieces

namespace VersionPick

open Text

namespace Path

/-- A piece of a path that leads nowhere. -/
def isIdle (piece : List Char) : Bool :=
  piece.isEmpty || piece == ['.']

/-- The pieces between the slashes of a path. A slash at the end ends the last. -/
def steps (path : String) : List (List Char) :=
  let pieces := List.splitOn '/' path.toList
  if pieces.getLast? = some [] then pieces.dropLast else pieces

/-- The components of a path: whether it starts at the root, and the names it
follows. A dot is one of them at the very start only. -/
def components (path : String) : Bool × List (List Char) :=
  match steps path with
  | [] => (false, [])
  | first :: rest => (first.isEmpty, (if first.isEmpty then [] else [first]) ++ rest.filter (!isIdle ·))

/-- A name in a folder. -/
structure IsName (name : String) : Prop where
  noSlash : '/' ∉ name.toList
  ne_empty : name ≠ ""
  ne_dot : name ≠ "."
  ne_dots : name ≠ ".."

theorem IsName.not_isIdle {name : String} (h : IsName name) : isIdle name.toList = false := by
  have hempty : name.toList ≠ [] := fun he => h.ne_empty (String.toList_eq_nil_iff.mp he)
  have hdot : name.toList ≠ ['.'] := fun he => h.ne_dot (String.toList_inj.mp he)
  simp [isIdle, hempty, hdot]

/-! ## Steps -/

theorem steps_slash (front : List Char) : steps (String.ofList (front ++ ['/'])) = List.splitOn '/' front := by
  have hpieces : List.splitOn '/' (front ++ ['/']) = List.splitOn '/' front ++ [[]] :=
    List.splitOn_append_cons_self front []
  simp [steps, hpieces]

theorem steps_of_getLast? {path : String} (hne : path ≠ "") (h : path.toList.getLast? ≠ some '/') :
    steps path = List.splitOn '/' path.toList := by
  obtain hnil | ⟨front, c, hpath⟩ := List.eq_nil_or_concat path.toList
  · exact absurd (String.toList_eq_nil_iff.mp hnil) hne
  · rw [List.concat_eq_append] at hpath
    have hc : (c == '/') = false := by simpa [hpath] using h
    obtain ⟨pieces, last, -, hlast⟩ := exists_splitOnP_append (· == '/') front
    have hpieces : List.splitOn '/' path.toList = pieces ++ [last ++ [c]] := by
      rw [hpath]
      exact hlast (List.splitOnP_eq_singleton (by simpa using hc))
    simp [steps, hpieces]

theorem splitOn_join_name {name : String} (hname : IsName name) (folder : String) :
    List.splitOn '/' (join folder name).toList = steps folder ++ [name.toList] := by
  have hpiece : List.splitOn '/' name.toList = [name.toList] := List.splitOn_eq_singleton hname.noSlash
  unfold join
  split
  next hends =>
    rcases hends with rfl | hslash
    · rw [String.empty_append, hpiece]
      rfl
    · obtain ⟨front, hfront⟩ := List.getLast?_eq_some_iff.mp hslash
      have hfolder : folder = String.ofList (front ++ ['/']) := by rw [← hfront, String.ofList_toList]
      rw [hfolder, steps_slash, String.toList_append, String.toList_ofList, List.append_assoc, List.singleton_append,
        List.splitOn_append_cons_self, hpiece]
  next hends =>
    rw [not_or] at hends
    have hslash : (folder ++ "/" ++ name).toList = folder.toList ++ '/' :: name.toList := by simp
    rw [hslash, List.splitOn_append_cons_self, hpiece, steps_of_getLast? hends.1 hends.2]

/-- A name in a folder is one step more. -/
theorem steps_join {name : String} (hname : IsName name) (folder : String) :
    steps (join folder name) = steps folder ++ [name.toList] := by
  have hlast : ((join folder name).toList |> List.splitOn '/').getLast? ≠ some [] := by
    rw [splitOn_join_name hname, List.getLast?_concat]
    simpa using hname.ne_empty
  rw [steps, if_neg hlast, splitOn_join_name hname]

theorem components_join {name : String} (hname : IsName name) (folder : String) :
    components (join folder name) = ((components folder).1, (components folder).2 ++ [name.toList]) := by
  have hempty : name.toList.isEmpty = false := by simpa using hname.ne_empty
  rw [components, steps_join hname, components]
  cases steps folder with
  | nil => simp [hempty]
  | cons first rest => simp [hname.not_isIdle]

/-- The text of a joined path is that of its steps. -/
theorem toList_join {name : String} (hname : IsName name) (folder : String) :
    (join folder name).toList = (steps folder).flatMap (· ++ ['/']) ++ name.toList := by
  calc (join folder name).toList
      = List.intercalate ['/'] (List.splitOn '/' (join folder name).toList) := (List.intercalate_splitOn '/').symm
    _ = (steps folder).flatMap (· ++ ['/']) ++ name.toList := by rw [splitOn_join_name hname, intercalate_concat]

/-! ## Parents -/

theorem dropIdle_append (first : List Char) (pieces : List (List Char)) :
    dropIdle (pieces ++ [first]) = pieces.dropWhile isIdle ++ [first] := by
  induction pieces with
  | nil => rfl
  | cons piece pieces ih =>
    obtain ⟨next, more, hcons⟩ := List.exists_cons_of_ne_nil (List.append_ne_nil_of_right_ne_nil pieces
      (List.cons_ne_nil first []))
    rw [List.cons_append, hcons, dropIdle, ← hcons, ih, List.dropWhile_cons]
    cases h : isIdle piece with
    | true => rw [isIdle] at h; simp only [h, if_true]
    | false => rw [isIdle] at h; simp [h]

theorem steps_join_pieces {pieces : List (List Char)} (hne : pieces ≠ []) (hslash : ∀ piece ∈ pieces, '/' ∉ piece)
    (hlast : pieces.getLast? ≠ some []) : steps (String.ofList (List.intercalate ['/'] pieces)) = pieces := by
  rw [steps, String.toList_ofList, List.splitOn_intercalate '/' hslash hne, if_neg hlast]

theorem not_slash_of_mem_steps {path : String} {piece : List Char} (h : piece ∈ steps path) : '/' ∉ piece := by
  simp only [steps] at h
  split at h
  next => exact not_mem_of_mem_splitOn (List.dropLast_subset _ h)
  next => exact not_mem_of_mem_splitOn h

/-- What is dropped of some pieces are the last ones, as long as they lead
nowhere; the first stays. -/
theorem exists_dropIdle (first : List Char) (rest : List (List Char)) : ∃ kept idle, rest = kept ++ idle ∧
    (∀ piece ∈ idle, isIdle piece = true) ∧ kept.getLast? ≠ some [] ∧
      dropIdle (first :: rest).reverse = (first :: kept).reverse := by
  refine ⟨(rest.reverse.dropWhile isIdle).reverse, (rest.reverse.takeWhile isIdle).reverse, ?_, ?_, ?_, ?_⟩
  · rw [← List.reverse_append, List.takeWhile_append_dropWhile, List.reverse_reverse]
  · exact fun piece hp => List.all_eq_true.mp List.all_takeWhile piece (List.mem_reverse.mp hp)
  · have hhead := List.head?_dropWhile_not isIdle rest.reverse
    rw [List.getLast?_reverse]
    intro he
    rw [he] at hhead
    cases hhead
  · rw [List.reverse_cons, dropIdle_append, List.reverse_cons, List.reverse_reverse]

/-- The path of a folder with steps at the end that lead nowhere. -/
def Padded (folder longer : String) : Prop :=
  ∃ idle, steps longer = steps folder ++ idle ∧ (∀ piece ∈ idle, isIdle piece = true) ∧
    (steps folder = [] → idle = [])

theorem Padded.refl (folder : String) : Padded folder folder :=
  ⟨[], (List.append_nil _).symm, nofun, fun _ => rfl⟩

/-- The parent of a name in a folder is the folder. -/
theorem parent?_join {name : String} (hname : IsName name) (folder : String) :
    ∃ parent, parent? (join folder name) = some parent ∧ Padded parent folder := by
  have hempty : name.toList.isEmpty = false := by simpa using hname.ne_empty
  unfold parent?
  rw [splitOn_join_name hname, List.reverse_append, List.reverse_singleton, List.singleton_append]
  cases hsteps : steps folder with
  | nil => exact ⟨"", by simp [dropIdle, hempty], [], hsteps, nofun, fun _ => rfl⟩
  | cons first rest =>
    obtain ⟨kept, idle, hrest, hidle, hlast, hdrop⟩ := exists_dropIdle first rest
    have hpadded : ∀ parent, steps parent = first :: kept → Padded parent folder := fun parent hparent =>
      ⟨idle, by rw [hsteps, hparent, hrest, List.cons_append], hidle, fun h => nomatch hparent.symm.trans h⟩
    have hname : dropIdle (name.toList :: (first :: rest).reverse) = name.toList :: (first :: rest).reverse := by
      rw [List.reverse_cons, ← List.cons_append, dropIdle_append,
        List.dropWhile_cons_of_neg (by simp [hname.not_isIdle])]
    obtain ⟨piece, pieces, hpieces⟩ := List.exists_cons_of_ne_nil (l := (first :: rest).reverse) (by simp)
    rw [hname]
    rw [hpieces] at hdrop ⊢
    simp only [hdrop]
    split
    next hroot =>
      rw [List.reverse_eq_iff, List.reverse_singleton] at hroot
      exact ⟨"/", rfl, hpadded _ (by rw [hroot]; rfl)⟩
    next hroot =>
      rw [List.reverse_reverse]
      refine ⟨_, rfl, hpadded _ (steps_join_pieces (List.cons_ne_nil first kept) ?_ ?_)⟩
      · intro piece hp
        have hmem : piece ∈ steps folder := by
          rw [hsteps, hrest]
          exact List.cons_subset_cons first (List.subset_append_left kept idle) hp
        exact not_slash_of_mem_steps hmem
      · cases kept with
        | nil =>
          intro he
          exact hroot (by simpa using he)
        | cons => exact hlast

/-- Every path that does not end with a slash is that of a name in a folder. -/
theorem exists_join {path : String} {front : List (List Char)} {last : List Char}
    (h : List.splitOn '/' path.toList = front ++ [last]) : ∃ folder, path = join folder (String.ofList last) := by
  have htext : path = String.ofList (front.flatMap (· ++ ['/'])) ++ String.ofList last := by
    rw [← String.ofList_append, ← intercalate_concat, ← h, List.intercalate_splitOn, String.ofList_toList]
  refine ⟨String.ofList (front.flatMap (· ++ ['/'])), ?_⟩
  rw [join, if_pos, htext]
  obtain rfl | ⟨others, piece, rfl⟩ := List.eq_nil_or_concat front
  · exact .inl rfl
  · exact .inr (by simp)

/-! ## Padding -/

section Padding

variable {folder longer : String} (h : Padded folder longer)
include h

theorem Padded.components_eq : components longer = components folder := by
  obtain ⟨idle, hsteps, hidle, hnil⟩ := h
  have hfilter : idle.filter (!isIdle ·) = [] := List.filter_eq_nil_iff.mpr fun piece hp => by simp [hidle piece hp]
  unfold components
  rw [hsteps]
  cases hfolder : steps folder with
  | nil => simp [hnil hfolder]
  | cons first rest => simp [hfilter]

/-- The path of a name is no shorter with padding. -/
theorem Padded.size_join {name : String} (hname : IsName name) :
    (join folder name).utf8ByteSize ≤ (join longer name).utf8ByteSize := by
  obtain ⟨idle, hsteps, -, -⟩ := h
  have htext : ∀ path, join path name = String.ofList ((steps path).flatMap (· ++ ['/'])) ++ name := by
    intro path
    apply String.toList_inj.mp
    rw [toList_join hname, String.toList_append, String.toList_ofList]
  rw [htext, htext, hsteps, List.flatMap_append, String.ofList_append]
  simp only [String.utf8ByteSize_append]
  omega

theorem Padded.not_mem_join {c : Char} {name other : String} (hname : IsName name) (hother : IsName other)
    (hc : c ∉ (join longer name).toList) (hc' : c ∉ other.toList) : c ∉ (join folder other).toList := by
  obtain ⟨idle, hsteps, -, -⟩ := h
  rw [toList_join hname, hsteps, List.flatMap_append] at hc
  rw [toList_join hother]
  simp only [List.mem_append, not_or] at hc ⊢
  exact ⟨hc.1.1, hc'⟩

end Padding

end Path

/-! ## Where paths lead -/

namespace Tree

open VersionPick.Path

variable {t : Tree}

/-- The folder that a path leads to, if it leads through folders only. -/
def folderAt (t : Tree) (path : String) : Except FileFault Place :=
  t.follow (if (steps path).head? = some [] then [] else Place.working) ((steps path).map String.ofList)

theorem follow_append (names more : List String) : ∀ here : Place,
    t.follow here (names ++ more) = (t.follow here names).bind fun there => t.follow there more := by
  induction names with
  | nil => exact fun here => rfl
  | cons name names ih =>
    intro here
    simp only [List.cons_append, follow]
    split
    next => exact ih here
    next =>
      split
      next => exact ih _
      next =>
        split
        next => rfl
        next =>
          split
          next => exact ih _
          next => rfl
          next => rfl

theorem follow_idle {pieces : List (List Char)} (h : ∀ piece ∈ pieces, isIdle piece = true) (here : Place) :
    t.follow here (pieces.map String.ofList) = .ok here := by
  induction pieces with
  | nil => rfl
  | cons piece pieces ih =>
    have hpiece : String.ofList piece = "" ∨ String.ofList piece = "." := by
      have hidle := h piece (by simp)
      simp only [isIdle, Bool.or_eq_true, List.isEmpty_iff, beq_iff_eq] at hidle
      rcases hidle with rfl | rfl
      · exact .inl rfl
      · exact .inr rfl
    rw [List.map_cons, follow, if_pos hpiece]
    exact ih fun piece hp => h piece (List.mem_cons_of_mem _ hp)

theorem folderAt_of_padded {folder longer : String} (h : Padded folder longer) :
    t.folderAt longer = t.folderAt folder := by
  obtain ⟨idle, hsteps, hidle, hnil⟩ := h
  have hhead : (steps longer).head? = (steps folder).head? := by
    rw [hsteps]
    cases hfolder : steps folder with
    | nil => rw [hnil hfolder, List.append_nil]
    | cons => rfl
  unfold folderAt
  rw [hhead, hsteps, List.map_append, follow_append]
  cases t.follow _ ((steps folder).map String.ofList) with
  | error fault => rfl
  | ok here => exact follow_idle hidle here

/-- A path that the file system takes: no text with a null in it, and none
that is too long. -/
structure Takes (path : String) : Prop where
  noNull : '\x00' ∉ path.toList
  short : path.utf8ByteSize < 4096

/-- The path of a name leads through its folder. -/
theorem spot_join {folder name : String} (hname : IsName name) (htakes : Takes (join folder name)) :
    t.spot (join folder name) = (t.folderAt folder).bind fun here => .ok (.named (name :: here) false) := by
  have hnull : ¬ (join folder name).toList.contains '\x00' = true := by simpa using htakes.noNull
  have hne : join folder name ≠ "" := by
    intro he
    have htext := toList_join hname folder
    rw [he] at htext
    exact hname.ne_empty (String.toList_eq_nil_iff.mp (List.append_eq_nil_iff.mp htext.symm).2)
  have hnames : (List.splitOn '/' (join folder name).toList).map String.ofList =
      (steps folder).map String.ofList ++ [name] := by
    rw [splitOn_join_name hname, List.map_append, List.map_singleton, String.ofList_toList]
  have hstart : ((steps folder).map String.ofList ++ [name]).head? = some "" ↔ (steps folder).head? = some [] := by
    cases steps folder with
    | nil => simpa using hname.ne_empty
    | cons first rest => simp [← String.toList_inj]
  have hlast : (name == "") = false := by simpa using hname.ne_empty
  have hdrop : ∀ before : List String, (name :: before).dropWhile (· == "") = name :: before :=
    fun before => List.dropWhile_cons_of_neg (by simp [hlast])
  unfold spot
  rw [if_neg hnull, if_neg hne, if_neg (Nat.not_le.mpr htakes.short)]
  simp only [hnames, List.reverse_append, List.reverse_singleton, List.singleton_append, hdrop, hstart,
    List.reverse_reverse]
  rw [folderAt]
  refine congrArg (Except.bind _) (funext fun here => ?_)
  rw [if_neg hname.ne_dot, if_neg hname.ne_dots]
  simp [hlast]

/-- The folder at a place has a file of a name. -/
def hasFile (t : Tree) (here : Place) (name : String) : Bool :=
  match t.node? (name :: here) with
  | some (.file _) => true
  | _ => false

section

variable {folder name : String} {here : Place} (hname : IsName name) (hlength : isTooLong name = false)
  (htakes : Takes (join folder name)) (hfolder : t.folderAt folder = .ok here)
include hname htakes hfolder

theorem spot_join_ok : t.spot (join folder name) = .ok (.named (name :: here) false) := by
  rw [spot_join hname htakes, hfolder]
  rfl

include hlength

theorem find_join : t.find (join folder name) = match t.node? (name :: here) with
    | some node => .ok node
    | none => .error .notFound :=
  find_of_spot (spot_join_ok hname htakes hfolder) (by simpa using hlength)

theorem isFile_join : t.isFile (join folder name) = t.hasFile here name := by
  unfold isFile hasFile
  rw [find_join hname hlength htakes hfolder]
  cases t.node? (name :: here) with
  | none => rfl
  | some node => cases node <;> rfl

end

theorem spot_of_isFile {path : String} (h : t.isFile path = true) :
    ∃ place, t.spot path = .ok (.named place false) := by
  unfold isFile at h
  split at h
  next content hfind =>
    obtain ⟨spot, hspot, hnode⟩ := bind_eq_ok.mp hfind
    cases spot with
    | dotted place => cases hnode
    | named place slash =>
      obtain ⟨node, -, hnode⟩ := bind_eq_ok.mp hnode
      cases slash with
      | false => exact ⟨place, hspot⟩
      | true =>
        match node, hnode with
        | some (.file _), hnode => cases hnode
        | some .folder, hnode => cases hnode
        | none, hnode => cases hnode
  next => cases h

theorem takes_of_spot {path : String} {spot : Spot} (h : t.spot path = .ok spot) : Takes path := by
  unfold Tree.spot at h
  have hnull : ¬ path.toList.contains '\x00' = true := by
    intro hnull
    rw [if_pos hnull] at h
    cases h
  have hne : path ≠ "" := by
    intro hempty
    rw [if_neg hnull, if_pos hempty] at h
    cases h
  have hshort : ¬ 4096 ≤ path.utf8ByteSize := by
    intro hlong
    rw [if_neg hnull, if_neg hne, if_pos hlong] at h
    cases h
  exact ⟨by simpa using hnull, Nat.lt_of_not_le hshort⟩

theorem takes_of_isFile {path : String} (h : t.isFile path = true) : Takes path := by
  obtain ⟨place, hspot⟩ := spot_of_isFile h
  exact takes_of_spot hspot

/-- The path of a file is that of a name in a folder. -/
theorem exists_join_of_spot {path : String} {place : Place} (h : t.spot path = .ok (.named place false)) :
    ∃ folder name, path = Path.join folder name ∧ IsName name := by
  have htakes := takes_of_spot h
  obtain ⟨front, last, hpieces⟩ : ∃ front last, List.splitOn '/' path.toList = front ++ [last] :=
    ⟨_, _, (List.dropLast_concat_getLast (List.splitOn_ne_nil _ _)).symm⟩
  obtain ⟨folder, hpath⟩ := exists_join hpieces
  have hlast : last ∈ List.splitOn '/' path.toList := by simp [hpieces]
  have hnames : (List.splitOn '/' path.toList).map String.ofList = front.map String.ofList ++ [String.ofList last] := by
    rw [hpieces, List.map_append, List.map_singleton]
  have hne : path ≠ "" := by
    rintro rfl
    cases h
  unfold spot at h
  rw [if_neg (by simpa using htakes.noNull), if_neg hne, if_neg (Nat.not_le.mpr htakes.short)] at h
  simp only [hnames, List.reverse_append, List.reverse_singleton, List.singleton_append] at h
  generalize hname : String.ofList last = name at h hpath
  split at h
  next => cases h
  next first before hdrop =>
    obtain ⟨here, -, hspot⟩ := bind_eq_ok.mp h
    by_cases hdot : first = "."
    · rw [if_pos hdot] at hspot
      cases hspot
    by_cases hdots : first = ".."
    · rw [if_neg hdot, if_pos hdots] at hspot
      cases hspot
    -- No slash stands at the end, so the last piece is not empty, and it is the one that counts.
    rw [if_neg hdot, if_neg hdots] at hspot
    simp only [Except.ok.injEq, Spot.named.injEq, List.head?_cons] at hspot
    have hempty : name ≠ "" := by simpa using hspot.2
    rw [List.dropWhile_cons_of_neg (by simpa using hempty), List.cons.injEq] at hdrop
    rw [← hdrop.1] at hdot hdots
    refine ⟨folder, name, hpath, ?_, hempty, hdot, hdots⟩
    rw [← hname, String.toList_ofList]
    exact not_mem_of_mem_splitOn hlast

end Tree

end VersionPick
