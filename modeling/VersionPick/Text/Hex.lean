/-
Hexadecimal digits and the characters that escape sequences name by number.
`scalar?` is the guard all of them share: a surrogate or a number past the
last code point names no character.
-/
namespace VersionPick.Text.Hex

/-- The value of a hexadecimal digit, in either letter case. -/
def digit? (c : Char) : Option Nat :=
  if '0' ≤ c ∧ c ≤ '9' then some (c.toNat - '0'.toNat)
  else if 'a' ≤ c ∧ c ≤ 'f' then some (c.toNat - 'a'.toNat + 10)
  else if 'A' ≤ c ∧ c ≤ 'F' then some (c.toNat - 'A'.toNat + 10)
  else none

/-- The number of the first `count` characters, all of them digits, and the
text after them. -/
def take? : (count : Nat) → (soFar : Nat) → List Char → Option (Nat × List Char)
  | 0, n, cs => some (n, cs)
  | _ + 1, _, [] => none
  | k + 1, n, c :: cs => (digit? c).bind fun d => take? k (16 * n + d) cs

/-- The character with a given number. -/
def scalar? (n : Nat) : Option Char :=
  if h : n.isValidChar then some (Char.ofNatAux n h) else none

/-- The lower case digit of a number below sixteen. -/
def digit (n : Nat) : Char :=
  Nat.digitChar n

end VersionPick.Text.Hex
