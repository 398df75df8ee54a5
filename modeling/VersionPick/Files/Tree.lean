/-
A tree of folders and files, and the operations on it that take a path. A path
is followed from the working folder: every name before the last has to be a
folder that is there, dots stay and double dots go up, and a slash at the end
asks for a folder.
-/
import VersionPick.Files.Fault
import VersionPick.Files.Path

namespace VersionPick

open Text

/-- What a name in a folder stands for. -/
inductive Node
  | file (content : ByteArray)
  | folder

/-- The names from a node up to the root. -/
abbrev Place := List String

/-- The working folder. Its name is empty, so no path leads to it by name. -/
def Place.working : Place := [""]

/-- The files and folders that have been made. -/
structure Tree where
  nodes : List (Place × Node)

namespace Tree

def empty : Tree := ⟨[]⟩

/-- What is at a place. -/
def node? (t : Tree) (place : Place) : Option Node :=
  if place = [] ∨ place = Place.working then some .folder else t.nodes.lookup place

def set (t : Tree) (place : Place) (n : Node) : Tree :=
  ⟨(place, n) :: t.nodes.filter (·.1 ≠ place)⟩

def erase (t : Tree) (place : Place) : Tree :=
  ⟨t.nodes.filter (·.1 ≠ place)⟩

/-- A name of more bytes than a folder can hold. -/
def isTooLong (name : String) : Bool :=
  255 < name.utf8ByteSize

/-- The folder that names lead to. -/
def follow (t : Tree) : Place → List String → Except FileFault Place
  | here, [] => .ok here
  | here, name :: names =>
    if name = "" ∨ name = "." then follow t here names
    else if name = ".." then follow t here.tail names
    else if isTooLong name then .error .nameTooLong
    else match t.node? (name :: here) with
      | some .folder => follow t (name :: here) names
      | some (.file _) => .error .notDirectory
      | none => .error .notFound

/-- Where a path leads. -/
inductive Spot
  /-- To a name in a folder; a slash may follow the name. -/
  | named (place : Place) (slash : Bool)
  /-- To a folder, by dots or as the root. -/
  | dotted (place : Place)
  deriving DecidableEq, Repr

def spot (t : Tree) (path : String) : Except FileFault Spot :=
  if path.toList.contains '\x00' then .error .nulInName
  else if path = "" then .error .notFound
  else if 4096 ≤ path.utf8ByteSize then .error .nameTooLong
  else
    let names := (List.splitOn '/' path.toList).map String.ofList
    let start := if names.head? = some "" then [] else Place.working
    let reversed := names.reverse
    match reversed.dropWhile (· == "") with
    | [] => .ok (.dotted [])
    | name :: before => do
      let here ← t.follow start before.reverse
      if name = "." then .ok (.dotted here)
      else if name = ".." then .ok (.dotted here.tail)
      else .ok (.named (name :: here) (reversed.head? == some ""))

/-- What a name in a folder stands for, if it can be a name. -/
def entry? (t : Tree) (place : Place) : Except FileFault (Option Node) :=
  if place.head?.any isTooLong then .error .nameTooLong else .ok (t.node? place)

def find (t : Tree) (path : String) : Except FileFault Node := do
  match ← t.spot path with
  | .dotted _ => .ok .folder
  | .named place slash =>
    match ← t.entry? place with
    | some (.file content) => if slash then .error .notDirectory else .ok (.file content)
    | some .folder => .ok .folder
    | none => .error .notFound

def isFile (t : Tree) (path : String) : Bool :=
  match t.find path with
  | .ok (.file _) => true
  | _ => false

def isFolder (t : Tree) (path : String) : Bool :=
  match t.find path with
  | .ok .folder => true
  | _ => false

def read (t : Tree) (path : String) : Except FileFault String := do
  match ← t.find path with
  | .folder => .error .isDirectory
  | .file content =>
    match String.fromUTF8? content with
    | some s => .ok s
    | none => .error .notText

/-- The place of the file that writing to a path opens. -/
def openFile (t : Tree) (path : String) : Except FileFault Place := do
  match ← t.spot path with
  | .dotted _ => .error .isDirectory
  | .named _ true => .error .isDirectory
  | .named place false =>
    match ← t.entry? place with
    | some .folder => .error .isDirectory
    | _ => .ok place

def write (t : Tree) (path : String) (content : ByteArray) : Except FileFault Tree := do
  let place ← t.openFile path
  .ok (t.set place (.file content))

/-- Writes at the end of a file, which is made if it is not there. -/
def append (t : Tree) (path : String) (content : ByteArray) : Except FileFault Tree := do
  let place ← t.openFile path
  match t.node? place with
  | some (.file before) => .ok (t.set place (.file (before ++ content)))
  | _ => .ok (t.set place (.file content))

def remove (t : Tree) (path : String) : Except FileFault Tree := do
  match ← t.spot path with
  | .dotted _ => .error .isDirectory
  | .named place slash =>
    match ← t.entry? place with
    | some .folder => .error .isDirectory
    | some (.file _) => if slash then .error .notDirectory else .ok (t.erase place)
    | none => .error .notFound

def makeFolder (t : Tree) (path : String) : Except FileFault Tree := do
  match ← t.spot path with
  | .dotted _ => .error .exists
  | .named place _ =>
    match ← t.entry? place with
    | some _ => .error .exists
    | none => .ok (t.set place .folder)

/-- What making a folder again gives, where it does not matter whether it was
there before. -/
def settleFolder (t : Tree) (path : String) : Tree × Except FileFault Unit :=
  match t.makeFolder path with
  | .ok t => (t, .ok ())
  | .error fault => if t.isFolder path then (t, .ok ()) else (t, .error fault)

/-- Makes a folder and those above it that are missing, as far as it goes. A
parent is shorter than its path, which bounds the steps. -/
def makeFoldersWithin : (steps : Nat) → Tree → String → Tree × Except FileFault Unit
  | 0, t, path => t.settleFolder path
  | steps + 1, t, path =>
    if path = "" then (t, .ok ())
    else match t.makeFolder path with
      | .error .notFound =>
        match Path.parent? path with
        | none => (t, .error .notFound)
        | some parent =>
          match makeFoldersWithin steps t parent with
          | (t, .ok ()) => t.settleFolder path
          | (t, .error fault) => (t, .error fault)
      | _ => t.settleFolder path

/-- Makes a folder and those above it that are missing. -/
def makeFolders (t : Tree) (path : String) : Tree × Except FileFault Unit :=
  makeFoldersWithin (path.length + 1) t path

/-- Writes a file, and makes the folders above it that are missing. -/
def writeWithFolders (t : Tree) (path : String) (content : ByteArray) :
    Tree × Except FileFault Unit :=
  match t.makeFolders ((Path.parent? path).getD "") with
  | (t, .error fault) => (t, .error fault)
  | (t, .ok ()) =>
    match t.write path content with
    | .ok t => (t, .ok ())
    | .error fault => (t, .error fault)

end Tree

end VersionPick
