/-
Decimal numerals in ASCII digits. `read?` takes digits of any number, leading
zeros included; `plain?` takes only the numeral that `write` gives, so there
the number fixes its text. `word?` adds the bound of a 64-bit word.
-/
namespace VersionPick.Text.Decimal

/-- A non-empty run of ASCII digits. -/
def isNumeral (cs : List Char) : Bool :=
  !cs.isEmpty && cs.all Char.isDigit

/-- The number that a run of digits denotes. -/
def value (cs : List Char) : Nat :=
  Nat.ofDigitChars 10 cs 0

def write (n : Nat) : List Char :=
  Nat.toDigits 10 n

/-- The number of a numeral, leading zeros allowed. -/
def read? (cs : List Char) : Option Nat :=
  if isNumeral cs then some (value cs) else none

/-- A numeral without superfluous leading zeros. -/
def isPlain (cs : List Char) : Bool :=
  isNumeral cs && (cs == ['0'] || cs.head? != some '0')

/-- The number of a numeral without superfluous leading zeros. -/
def plain? (cs : List Char) : Option Nat :=
  if isPlain cs then some (value cs) else none

/-- A number as a 64-bit word, when it fits. -/
def toWord? (n : Nat) : Option UInt64 :=
  if n < UInt64.size then some (UInt64.ofNat n) else none

/-- The 64-bit word that a numeral without superfluous leading zeros denotes. -/
def word? (cs : List Char) : Option UInt64 :=
  (plain? cs).bind toWord?

def writeWord (n : UInt64) : List Char :=
  write n.toNat

end VersionPick.Text.Decimal
