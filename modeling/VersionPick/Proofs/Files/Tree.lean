/-
Writing at the end of a file. A path is followed through folders only, and
what is written to is none, so the path leads to the same place afterwards
(`follow_of_folders`): there the file holds what it held before and then what
was written, and no other place has changed (`append_spec`).
-/
import VersionPick.Files.Tree

namespace VersionPick

open Text

namespace Tree

variable {t t' : Tree}

theorem bind_eq_ok {x : Except ε α} {f : α → Except ε β} {b : β} :
    x.bind f = .ok b ↔ ∃ a, x = .ok a ∧ f a = .ok b := by
  cases x with
  | error e => simp [Except.bind]
  | ok a => simp [Except.bind]

/-! ## Nodes -/

theorem lookup_filter_ne {k k' : Place} (h : k ≠ k') : ∀ nodes : List (Place × Node),
    (nodes.filter (·.1 ≠ k')).lookup k = nodes.lookup k
  | [] => rfl
  | (key, n) :: nodes => by
    by_cases hkey : key = k'
    · have hne : (k == key) = false := by simp [hkey, h]
      rw [List.filter_cons_of_neg (by simp [hkey]), lookup_filter_ne h nodes, List.lookup_cons, hne]
    · rw [List.filter_cons_of_pos (by simp [hkey]), List.lookup_cons, List.lookup_cons, lookup_filter_ne h nodes]

theorem node?_set_of_ne {place other : Place} {n : Node} (h : other ≠ place) :
    (t.set place n).node? other = t.node? other := by
  have hne : (other == place) = false := by simp [h]
  simp only [node?, set, List.lookup_cons, hne, lookup_filter_ne h]

theorem node?_set_self {place : Place} {n : Node} (hroot : place ≠ []) (hworking : place ≠ Place.working) :
    (t.set place n).node? place = some n := by
  simp [node?, set, hroot, hworking]

/-! ## Paths -/

/-- A way through folders stays open as long as they stay folders. -/
theorem follow_of_folders (h : ∀ place, t.node? place = some .folder → t'.node? place = some .folder) :
    ∀ {names : List String} {here there : Place}, t.follow here names = .ok there → t'.follow here names = .ok there
  | [], here, there, hfollow => by simpa [follow] using hfollow
  | name :: names, here, there, hfollow => by
    unfold follow at hfollow ⊢
    split at hfollow
    next hstay => rw [if_pos hstay]; exact follow_of_folders h hfollow
    next hstay =>
      rw [if_neg hstay]
      split at hfollow
      next hup => rw [if_pos hup]; exact follow_of_folders h hfollow
      next hup =>
        rw [if_neg hup]
        split at hfollow
        next => cases hfollow
        next hlength =>
          rw [if_neg hlength]
          split at hfollow
          next hnode => rw [h _ hnode]; exact follow_of_folders h hfollow
          next => cases hfollow
          next => cases hfollow

/-- Where a name in a folder leads. -/
def Spot.ofName (here : Place) (name : String) (slash : Bool) : Spot :=
  if name = "." then .dotted here
  else if name = ".." then .dotted here.tail
  else .named (name :: here) slash

/-- A path is led by the tree only in what stands in front of its last name. -/
theorem spot_cases (path : String) :
    (∃ fault, ∀ t : Tree, t.spot path = .error fault) ∨ (∀ t : Tree, t.spot path = .ok (.dotted [])) ∨
    ∃ start names name slash, name ≠ "" ∧
      ∀ t : Tree, t.spot path = (t.follow start names).bind fun here => .ok (Spot.ofName here name slash) := by
  unfold spot
  split
  next => exact .inl ⟨_, fun _ => rfl⟩
  next =>
    split
    next => exact .inl ⟨_, fun _ => rfl⟩
    next =>
      split
      next => exact .inl ⟨_, fun _ => rfl⟩
      next =>
        generalize (List.splitOn '/' path.toList).map String.ofList = names
        have hhead := List.head?_dropWhile_not (· == "") names.reverse
        cases hnames : names.reverse.dropWhile (· == "") with
        | nil => exact .inr (.inl fun _ => by dsimp only; rw [hnames])
        | cons name before =>
          rw [hnames] at hhead
          let start := if names.head? = some "" then [] else Place.working
          let slash := names.reverse.head? == some ""
          refine .inr (.inr ⟨start, before.reverse, name, slash, ne_of_beq_false hhead, fun t => ?_⟩)
          dsimp only
          rw [hnames]
          refine congrArg (Except.bind _) (funext fun here => ?_)
          unfold Spot.ofName
          repeat' split
          all_goals rfl

/-- Where a path leads does not change as long as the folders stay. -/
theorem spot_of_folders (h : ∀ place, t.node? place = some .folder → t'.node? place = some .folder)
    {path : String} {spot : Spot} (hspot : t.spot path = .ok spot) : t'.spot path = .ok spot := by
  obtain ⟨fault, hpath⟩ | hpath | ⟨start, names, name, slash, -, hpath⟩ := spot_cases path
  · rw [hpath t] at hspot
    cases hspot
  · rw [hpath t', ← hpath t]
    exact hspot
  · rw [hpath t, bind_eq_ok] at hspot
    obtain ⟨here, hfollow, hhere⟩ := hspot
    rw [hpath t', follow_of_folders h hfollow]
    exact hhere

/-- A name that a path leads to is a name in a folder. -/
theorem named_of_spot {path : String} {place : Place} {slash : Bool} (h : t.spot path = .ok (.named place slash)) :
    place ≠ [] ∧ place ≠ Place.working := by
  obtain ⟨fault, hpath⟩ | hpath | ⟨start, names, name, slash, hname, hpath⟩ := spot_cases path
  · rw [hpath t] at h
    cases h
  · rw [hpath t] at h
    cases h
  · rw [hpath t, bind_eq_ok] at h
    obtain ⟨here, -, hhere⟩ := h
    unfold Spot.ofName at hhere
    split at hhere
    next => cases hhere
    next =>
      split at hhere
      next => cases hhere
      next =>
        cases hhere
        simp [Place.working, hname]

/-! ## Writing -/

/-- What is opened for writing is a name in a folder, for a file or for
nothing yet. -/
theorem openFile_eq_ok {path : String} {place : Place} (h : t.openFile path = .ok place) :
    t.spot path = .ok (.named place false) ∧ ∃ node, t.entry? place = .ok node ∧ node ≠ some .folder := by
  obtain ⟨spot, hspot, hopen⟩ := bind_eq_ok.mp h
  match spot, hopen with
  | .named place' false, hopen =>
    obtain ⟨node, hnode, hplace⟩ := bind_eq_ok.mp hopen
    have hfile : node ≠ some .folder := by
      rintro rfl
      cases hplace
    have hsame : place' = place := by
      match node, hplace with
      | some (.file _), hplace => exact Except.ok.inj hplace
      | none, hplace => exact Except.ok.inj hplace
    subst hsame
    exact ⟨hspot, node, hnode, hfile⟩

/-- What is in a tree after something is written at the end of a file: the
file is made if it is not there, and all else stays. -/
structure Extended (t : Tree) (path : String) (content : ByteArray) (t' : Tree) : Prop where
  file : ∃ before, (t.find path = .ok (.file before) ∨ t.find path = .error .notFound ∧ before = .empty) ∧
    t'.find path = .ok (.file (before ++ content))
  others : ∀ place, t.openFile path ≠ .ok place → t'.node? place = t.node? place

theorem entry?_eq_ok {place : Place} {node : Option Node} (h : t.entry? place = .ok node) :
    t.node? place = node ∧ place.head?.any isTooLong = false := by
  unfold entry? at h
  split at h
  next => cases h
  next hlength => exact ⟨Except.ok.inj h, Bool.eq_false_iff.mpr hlength⟩

theorem find_of_spot {path : String} {place : Place} (h : t.spot path = .ok (.named place false))
    (hlength : place.head?.any isTooLong = false) :
    t.find path = match t.node? place with
      | some node => .ok node
      | none => .error .notFound := by
  have hentry : t.entry? place = .ok (t.node? place) := by
    unfold entry?
    rw [hlength]
    rfl
  simp only [find, h, hentry, bind, Except.bind]
  cases t.node? place with
  | none => rfl
  | some node => cases node <;> rfl

/-- **Writing at the end of a file** keeps what is in front, and touches
nothing else. -/
theorem append_spec {path : String} {content : ByteArray} (h : t.append path content = .ok t') :
    t.Extended path content t' := by
  obtain ⟨place, hopen, hwrite⟩ := bind_eq_ok.mp h
  obtain ⟨hspot, node, hentry, hfile⟩ := openFile_eq_ok hopen
  obtain ⟨hnode, hlength⟩ := entry?_eq_ok hentry
  obtain ⟨hroot, hworking⟩ := named_of_spot hspot
  obtain ⟨before, hbefore, hset⟩ : ∃ before, (t.find path = .ok (.file before) ∨
      t.find path = .error .notFound ∧ before = .empty) ∧ t' = t.set place (.file (before ++ content)) := by
    rw [find_of_spot hspot hlength]
    match node, hnode with
    | some (.file before), hnode =>
      rw [hnode] at hwrite ⊢
      exact ⟨before, .inl rfl, (Except.ok.inj hwrite).symm⟩
    | none, hnode =>
      rw [hnode] at hwrite ⊢
      exact ⟨.empty, .inr ⟨rfl, rfl⟩, by rw [ByteArray.empty_append]; exact (Except.ok.inj hwrite).symm⟩
  have hothers : ∀ other, other ≠ place → t'.node? other = t.node? other := by
    intro other hother
    rw [hset, node?_set_of_ne hother]
  have hfolders : ∀ other, t.node? other = some .folder → t'.node? other = some .folder := by
    intro other hother
    rw [hothers other, hother]
    rintro rfl
    exact hfile (hnode.symm.trans hother)
  constructor
  case file =>
    refine ⟨before, hbefore, ?_⟩
    rw [find_of_spot (spot_of_folders hfolders hspot) hlength, hset, node?_set_self hroot hworking]
  case others =>
    intro other hother
    exact hothers other fun hsame => hother (hsame ▸ hopen)

end Tree

end VersionPick
