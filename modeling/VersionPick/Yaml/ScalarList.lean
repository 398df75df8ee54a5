/-
A YAML text that is one document holding a scalar, or a list of scalars
written with dashes or between brackets. Mappings, nested lists, anchors,
tags, block scalars, directives and further documents are not read.
-/
import VersionPick.Yaml.Scalar

namespace VersionPick.Yaml

/-- The places behind the separators of a list between brackets, entry by
entry, from the place behind a bracket or comma. One comma may end the list. -/
def flowItems? : (fuel : Nat) → Place → Option (List (List Char) × Place)
  | 0, _ => none
  | fuel + 1, p => do
    let start := (Gap.behind p).place
    if start.atMarker then none
    else match start.rest with
      | ']' :: cs => some ([], ⟨start.column + 1, cs⟩)
      | _ => do
        let (item, stop) ← scalar? true 0 start
        let next := (Gap.behind stop).place
        if next.atMarker then none
        else match next.rest with
          | ',' :: cs => do
            let (items, after) ← flowItems? fuel ⟨next.column + 1, cs⟩
            some (item :: items, after)
          | ']' :: cs => some ([item], ⟨next.column + 1, cs⟩)
          | _ => none

/-- A dash that starts an entry of a list. -/
def atDash (p : Place) : Bool :=
  match p.rest with
  | '-' :: cs => atSeparator cs
  | _ => false

/-- The entries of a list written with dashes at one indentation, from the
place of a dash. An entry on a line of its own is indented further. -/
def dashItems? (indent : Nat) : (fuel : Nat) → Place → Option (List (List Char) × Place)
  | 0, _ => none
  | fuel + 1, p => do
    let gap := Gap.behind ⟨p.column + 1, p.rest.tail⟩
    if gap.newLine && gap.indent ≤ indent then none
    else do
      let (item, stop) ← scalar? false (indent + 1) gap.place
      let next := Gap.behind stop
      if next.newLine && next.indent == indent && !next.tabbed && atDash next.place then do
        let (items, after) ← dashItems? indent fuel next.place
        some (item :: items, after)
      else some ([item], stop)

/-- The scalars of the document's content, which stands behind a gap. On the
line of a document marker no list with dashes starts. -/
def content? (afterMarker : Bool) (gap : Gap) : Option (List (List Char) × Place) :=
  let p := gap.place
  if p.atMarker then none
  else if atDash p then
    if gap.tabbed || (afterMarker && !gap.newLine) then none
    else dashItems? p.column p.rest.length p
  else match p.rest with
    | '[' :: cs => flowItems? (cs.length + 1) ⟨p.column + 1, cs⟩
    | _ => (scalar? false 0 p).map fun (item, after) => ([item], after)

/-- A marker of three equal signs stands here at the start of a line. -/
def atMarkerOf (sign : Char) (p : Place) : Bool :=
  p.atMarker && p.rest.head? == some sign

/-- The place behind a document marker. -/
def behindMarker (p : Place) : Place :=
  ⟨p.column + 3, p.rest.drop 3⟩

/-- Nothing follows but one document end, if there is one. -/
def atEnd (p : Place) : Bool :=
  let next := (Gap.behind p).place
  next.rest.isEmpty ||
    (atMarkerOf '.' next && (Gap.behind (behindMarker next)).place.rest.isEmpty)

def withoutByteOrderMark : List Char → List Char
  | c :: cs => if c == '\ufeff' then cs else c :: cs
  | [] => []

/-- The scalars of a text that is one document: the entries of a list in their
order, or the one scalar there is. -/
def readScalars? (text : List Char) : Option (List (List Char)) := do
  let gap := Gap.behind ⟨0, withoutByteOrderMark text⟩
  let (items, after) ←
    if atMarkerOf '-' gap.place then content? true (Gap.behind (behindMarker gap.place))
    else content? false gap
  if atEnd after then some items else none

end VersionPick.Yaml
