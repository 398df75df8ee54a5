/-
Names of hosts, in any script. The labels of a name stand between dots, and a
label may be written in Punycode behind `xn--`. Of a name with letters that
are written from right to left every label keeps to one direction.
-/
import VersionPick.Remote.Host.Alphabet
import VersionPick.Text.Punycode

namespace VersionPick.Host

open Text

/-- A character below U+0080 that a label may have. -/
def isPlainChar (c : Char) : Bool :=
  c.isLower || c.isDigit || "!$&'()*+,-_~;=".toList.contains c

/-- A character that a label may have; `settled` asks for one that stands for
no other. -/
def isLabelChar (settled : Bool) (c : Char) : Bool :=
  if c.toNat < 0x80 then isPlainChar c
  else
    let s := standing c
    s.kind != .refused && s.kind != .ignored && (s.settled || !settled)

/-- The class of any character. -/
def kindOf (c : Char) : CharClass :=
  if c.isDigit then .digit
  else if c.isAlpha then .letter
  else if c.toNat < 0x80 then .neutral
  else (standing c).kind

def isMark (c : Char) : Bool :=
  kindOf c == .mark || kindOf c == .spacingMark

/-- The first class behind the marks that a text starts with. -/
def kindBehindMarks (cs : List Char) : Option CharClass :=
  ((cs.map kindOf).dropWhile (· == .mark)).head?

/-- A joiner may stand behind `before`, which is read backwards, and in front of
`after`: behind a virama, and the non-joiner also where letters would join. -/
def joinerFits (c : Char) (before after : List Char) : Bool :=
  (before.head?.map fun v => viramas.contains v.toNat).getD false ||
    (c == '\u200c' && kindBehindMarks before == some .arabicLink &&
      (kindBehindMarks after == some .arabicLink || kindBehindMarks after == some .arabicEnd))

/-- All joiners of a label may stand where they do; `before` is what precedes
it, read backwards. -/
def joinersFit (before : List Char) : List Char → Bool
  | [] => true
  | c :: cs => (kindOf c != .joiner || joinerFits c before cs) && joinersFit (c :: before) cs

namespace CharClass

/-- A letter that is written from right to left. -/
def isRightToLeft : CharClass → Bool
  | .hebrew => true
  | .arabic => true
  | .arabicEnd => true
  | .arabicLink => true
  | _ => false

def isLeftToRight (k : CharClass) : Bool :=
  k == .letter || k == .spacingMark

end CharClass

/-- The label has a letter or digit that is written from right to left. -/
def hasRightToLeft (label : List Char) : Bool :=
  label.any fun c => (kindOf c).isRightToLeft || kindOf c == .arabicDigit

/-- The label keeps to the direction in which it starts, and its end shows it. -/
def keepsDirection (label : List Char) : Bool :=
  let kinds := label.map kindOf
  let last := kindBehindMarks label.reverse
  match kinds with
  | [] => true
  | first :: _ =>
    if first.isRightToLeft then
      kinds.all (!·.isLeftToRight) && !(kinds.contains .digit && kinds.contains .arabicDigit) &&
        last.any fun k => k.isRightToLeft || k == .digit || k == .arabicDigit
    else
      first.isLeftToRight && !hasRightToLeft label && last.any fun k => k.isLeftToRight || k == .digit

/-- The label that is meant, Punycode read, if all its characters may be there. -/
def label? (written : List Char) : Option (List Char) :=
  match List.isPrefixOf? ['x', 'n', '-', '-'] written with
  | none => if written.all (isLabelChar false) then some written else none
  | some code =>
    match Punycode.decode? code with
    | none => none
    | some label =>
      if label.all (isLabelChar true) && !label.all (·.toNat < 0x80) then some label else none

def isWellFormed (label : List Char) : Bool :=
  !(label.head?.any isMark) && joinersFit [] label

/-- The spelling of a name, if it is one. -/
def name? (cs : List Char) : Option (List Char) :=
  let spelled := cs.flatMap spelling
  match (List.splitOn '.' spelled).mapM label? with
  | none => none
  | some labels =>
    if spelled.isEmpty || !labels.all isWellFormed then none
    else if labels.any hasRightToLeft && !labels.all keepsDirection then none
    else some spelled

end VersionPick.Host
