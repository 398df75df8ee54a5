/-
The normal text of a range: comparators with a space between them,
alternatives with `||`, and `*` for an alternative without comparators.
-/
import VersionPick.Range

namespace VersionPick

open Text

def Comparator.text (c : Comparator) : List Char :=
  c.relation.sign ++ c.version.text

def Alternative.text (cs : Alternative) : List Char :=
  if cs.isEmpty then ['*'] else List.intercalate [' '] (cs.map Comparator.text)

def Range.text (r : Range) : List Char :=
  List.intercalate ['|', '|'] (r.alternatives.map Alternative.text)

instance : ToString Range := ⟨fun r => String.ofList r.text⟩

end VersionPick
