/-
Values of TOML documents, and what may be added to a table of a document that
is being read. Texts and the shape of the document are kept; of any other
scalar only its kind is.

A table is defined once. How it came into the document decides what may still
be added to it: nothing to one in braces, further tables to one with a header
of its own, keys and tables to one that so far is only implied.
-/
namespace VersionPick.Toml

/-- How a table came into a document. -/
inductive Origin
  /-- Written in braces. -/
  | braces
  /-- Opened by a header of its own. -/
  | header
  /-- A parent named in the header of another table. -/
  | implied
  /-- A parent named in a dotted key. -/
  | dotted
  deriving DecidableEq, Repr

/-- A value of a document. The entries of a table have different keys. -/
inductive Value
  | text (s : String)
  | dateTime
  /-- A number or a truth value. -/
  | literal
  | array (elements : List Value)
  | table (origin : Origin) (entries : List (String × Value))
  /-- Tables that share one header, the latest apart from those before it. -/
  | tables (earlier : List (List (String × Value))) (latest : List (String × Value))
  deriving Repr

/-- The entries of a table, in the order in which their keys appeared. -/
abbrev Entries := List (String × Value)

namespace Entries

/-- Puts another value in the place of a key. -/
def replace (key : String) (v : Value) (entries : Entries) : Entries :=
  entries.map fun entry => if entry.1 = key then (key, v) else entry

end Entries

/-- A path leads on through a table of this origin. The parents in a dotted
key are not those that have a header. -/
def Origin.leadsOn (dotted : Bool) : Origin → Bool
  | .braces => false
  | .header => !dotted
  | .implied => true
  | .dotted => true

/-- A change of the table with an origin and entries; none if it is not
allowed. -/
abbrev Change := Origin → Entries → Option Entries

/-- The entries after a change of the table at the end of a path. Tables that
the path lacks are made; of tables that share a header the latest is meant. -/
def alterAt (dotted : Bool) (change : Change) : List String → Change
  | [], origin, entries => change origin entries
  | key :: path, _, entries =>
    match entries.lookup key with
    | none =>
      let made : Origin := if dotted then .dotted else .implied
      (alterAt dotted change path made []).map fun inner => entries ++ [(key, .table made inner)]
    | some (.table origin inner) =>
      if origin.leadsOn dotted then
        (alterAt dotted change path origin inner).map fun inner =>
          Entries.replace key (.table origin inner) entries
      else none
    | some (.tables earlier latest) =>
      (alterAt dotted change path .header latest).map fun latest =>
        Entries.replace key (.tables earlier latest) entries
    | some _ => none

/-- Adds a value under a new key, at the end of the parents of a dotted key.
The keys of a table are either all added through parents or all without. -/
def addPair (parents : List String) (key : String) (v : Value) : Change :=
  alterAt true (fun origin entries =>
    if (origin == .dotted) == parents.isEmpty || (entries.lookup key).isSome then none
    else some (entries ++ [(key, v)])) parents

/-- Opens the table of a header: a new one, or one that so far is implied. -/
def openTable (key : String) : Change := fun _ entries =>
  match entries.lookup key with
  | none => some (entries ++ [(key, .table .header [])])
  | some (.table .implied inner) => some (Entries.replace key (.table .header inner) entries)
  | some _ => none

/-- Opens one more of the tables that share a header. -/
def openNext (key : String) : Change := fun _ entries =>
  match entries.lookup key with
  | none => some (entries ++ [(key, .tables [] [])])
  | some (.tables earlier latest) =>
    some (Entries.replace key (.tables (earlier ++ [latest]) []) entries)
  | some _ => none

/-- What a line of a document says. -/
inductive Statement
  | pair (parents : List String) (key : String) (v : Value)
  /-- A header in single brackets. -/
  | table (parents : List String) (key : String)
  /-- A header in double brackets. -/
  | next (parents : List String) (key : String)
  deriving Repr

/-- A document that is being read, and the path of the table that pairs are
added to. -/
structure Draft where
  entries : Entries
  current : List String
  deriving Repr

namespace Draft

/-- The document after one more statement. -/
def add (d : Draft) : Statement → Option Draft
  | .pair parents key v =>
    (alterAt false (addPair parents key v) d.current .header d.entries).map (⟨·, d.current⟩)
  | .table parents key =>
    (alterAt false (openTable key) parents .header d.entries).map (⟨·, parents ++ [key]⟩)
  | .next parents key =>
    (alterAt false (openNext key) parents .header d.entries).map (⟨·, parents ++ [key]⟩)

/-- The document of a list of statements. -/
def ofStatements (statements : List Statement) : Option Draft :=
  statements.foldlM add ⟨[], []⟩

end Draft

end VersionPick.Toml
