/-
Cutting a text where the library's splits do not: at doubled characters, and at
one place only. Texts are lists of characters.
-/
namespace VersionPick.Text

/-- The pieces between the occurrences of a doubled character, found from the
left: a run of three holds one separator and the start of the next piece. -/
def splitOnPair (sep : Char) : List Char → List (List Char)
  | [] => [[]]
  | [c] => [[c]]
  | c :: d :: cs =>
    if c == sep && d == sep then [] :: splitOnPair sep cs
    else (splitOnPair sep (d :: cs)).modifyHead (c :: ·)

/-- The text before and after the first occurrence of a character. -/
def cutAt (sep : Char) : List Char → Option (List Char × List Char)
  | [] => none
  | c :: cs =>
    if c == sep then some ([], cs) else (cutAt sep cs).map fun (before, after) => (c :: before, after)

/-- The text before the first occurrence of a character and, if there is one,
the text after it. -/
def cutFirst (sep : Char) (cs : List Char) : List Char × Option (List Char) :=
  match cutAt sep cs with
  | some (before, after) => (before, some after)
  | none => (cs, none)

/-- Every occurrence of a character replaced by a text. -/
def replace (c : Char) (replacement : List Char) (cs : List Char) : List Char :=
  cs.flatMap fun d => if d == c then replacement else [d]

end VersionPick.Text
