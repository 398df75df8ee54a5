/-
What stands between two tokens of a YAML text: blanks, line breaks and
comments. A gap remembers what the layout rules ask for: whether a line ended
in it, and how the line on which it ends is indented.
-/
namespace VersionPick.Yaml

/-- The rest of a text and the column of its first character. -/
structure Place where
  column : Nat
  rest : List Char
  deriving DecidableEq, Repr

def isInlineBlank (c : Char) : Bool :=
  c == ' ' || c == '\t'

/-- A line ends at a line feed and at a carriage return. -/
def isLineEnd (c : Char) : Bool :=
  c == '\n' || c == '\r'

def isSeparator (c : Char) : Bool :=
  isInlineBlank c || isLineEnd c

/-- The text ends here or goes on with a separator. -/
def atSeparator : List Char → Bool
  | [] => true
  | c :: _ => isSeparator c

/-- The signs of which document markers consist. -/
def isMarkerSign (c : Char) : Bool :=
  c == '-' || c == '.'

/-- A document marker, `---` or `...`, and nothing joined to it. -/
def isMarker (cs : List Char) : Bool :=
  match cs with
  | a :: b :: c :: rest => a == b && b == c && isMarkerSign a && atSeparator rest
  | _ => false

namespace Place

/-- A document marker at the start of a line. -/
def atMarker (p : Place) : Bool :=
  p.column == 0 && isMarker p.rest

end Place

/-- A gap between tokens and the place behind it. -/
structure Gap where
  /-- There is something in the gap. -/
  spaced : Bool := false
  /-- A line ended in the gap. -/
  newLine : Bool := false
  /-- The spaces that the last line starts with, up to a tab or a token. -/
  indent : Nat := 0
  /-- There is a tab among the blanks that the last line starts with. -/
  tabbed : Bool := false
  place : Place
  deriving DecidableEq, Repr

namespace Gap

/-- The gap at the start of a text, grown as far as it goes. A comment starts
at the start of a line or behind something of the gap, and ends with its line;
there is no null character in it. -/
def extend (inComment : Bool) (g : Gap) : List Char → Gap
  | [] => { g with place := ⟨g.place.column, []⟩ }
  | c :: cs =>
    let column := g.place.column + 1
    if isLineEnd c then extend false ⟨true, true, 0, false, ⟨0, cs⟩⟩ cs
    else if inComment then
      if c == '\x00' then g else extend true { g with place := ⟨column, cs⟩ } cs
    else if c == ' ' then
      extend false ⟨true, g.newLine, if g.tabbed then g.indent else g.indent + 1, g.tabbed,
        ⟨column, cs⟩⟩ cs
    else if c == '\t' then extend false ⟨true, g.newLine, g.indent, true, ⟨column, cs⟩⟩ cs
    else if c == '#' && (g.spaced || g.place.column == 0) then
      extend true { g with spaced := true, place := ⟨column, cs⟩ } cs
    else g

def behind (p : Place) : Gap :=
  extend false { place := p } p.rest

end Gap

end VersionPick.Yaml
