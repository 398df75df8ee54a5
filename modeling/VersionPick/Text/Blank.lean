/-
White space as Unicode's `White_Space` property has it: the one notion of a
blank that ranges, compat entries and inputs share. `trim` takes blanks off
both ends, `words` is what stands between them.
-/
import VersionPick.Text.Pieces

namespace VersionPick.Text

/-- The 25 code points with the property `White_Space`. -/
def isBlank (c : Char) : Bool :=
  let n := c.toNat
  (9 ≤ n && n ≤ 13) || n == 0x20 || n == 0x85 || n == 0xA0 || n == 0x1680 ||
    (0x2000 ≤ n && n ≤ 0x200A) || n == 0x2028 || n == 0x2029 || n == 0x202F ||
    n == 0x205F || n == 0x3000

def trimEnd (cs : List Char) : List Char :=
  (cs.reverse.dropWhile isBlank).reverse

def trim (cs : List Char) : List Char :=
  trimEnd (cs.dropWhile isBlank)

/-- The longest stretches without a blank, in order; none of them is empty. -/
def words (cs : List Char) : List (List Char) :=
  (List.splitOnP isBlank cs).filter (!·.isEmpty)

end VersionPick.Text
