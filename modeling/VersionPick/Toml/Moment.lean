/-
The dates and times of TOML documents: a date, a time, or both with an
optional offset behind them.
-/
import VersionPick.Text.Decimal
import VersionPick.Text.Pieces

namespace VersionPick.Toml

open Text

/-- A numeral of two digits that denotes one of the numbers from `low` to
`high`. -/
def isTwoDigits (low high : Nat) (cs : List Char) : Bool :=
  cs.length == 2 && Decimal.isNumeral cs && low ≤ Decimal.value cs && Decimal.value cs ≤ high

def daysIn (year month : Nat) : Nat :=
  if month == 2 then if year % 4 == 0 && (year % 100 != 0 || year % 400 == 0) then 29 else 28
  else if month == 4 || month == 6 || month == 9 || month == 11 then 30
  else 31

/-- A day of the calendar, such as `1979-05-27`. -/
def isDate (cs : List Char) : Bool :=
  match List.splitOn '-' cs with
  | [year, month, day] =>
    year.length == 4 && Decimal.isNumeral year && isTwoDigits 1 12 month &&
      isTwoDigits 1 (daysIn (Decimal.value year) (Decimal.value month)) day
  | _ => false

def isSeconds (cs : List Char) : Bool :=
  match List.splitOn '.' cs with
  | [seconds] => isTwoDigits 0 60 seconds
  | [seconds, decimals] => isTwoDigits 0 60 seconds && Decimal.isNumeral decimals
  | _ => false

/-- A time of day, such as `07:32:00.5`. -/
def isTime (cs : List Char) : Bool :=
  match List.splitOn ':' cs with
  | [hour, minute, seconds] => isTwoDigits 0 23 hour && isTwoDigits 0 59 minute && isSeconds seconds
  | _ => false

/-- An offset from universal time: none, `Z`, or hours and minutes. -/
def isOffset : List Char → Bool
  | [] => true
  | ['Z'] => true
  | ['z'] => true
  | sign :: cs =>
    (sign == '+' || sign == '-') &&
      match List.splitOn ':' cs with
      | [hour, minute] => isTwoDigits 0 23 hour && isTwoDigits 0 59 minute
      | _ => false

/-- The sign that an offset starts with. -/
def startsOffset (c : Char) : Bool :=
  c == 'Z' || c == 'z' || c == '+' || c == '-'

def isTimeWithOffset (cs : List Char) : Bool :=
  isTime (cs.takeWhile (!startsOffset ·)) && isOffset (cs.dropWhile (!startsOffset ·))

/-- A date, a time of day, or a date and a time with `T` or a space between
them. -/
def isMoment (cs : List Char) : Bool :=
  isDate cs || isTime cs ||
    match List.splitOnP (fun c => c == 'T' || c == 't' || c == ' ') cs with
    | [date, time] => isDate date && isTimeWithOffset time
    | _ => false

/-- The text behind a date goes on with a space and the hour of a time. -/
def beforeTime : List Char → Bool
  | ' ' :: c :: d :: ':' :: _ => c.isDigit && d.isDigit
  | _ => false

end VersionPick.Toml
