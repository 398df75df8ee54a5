/-
Records with named fields. A record is written as an object, where other
members are passed over, or as the array of its fields in their order.
-/
import VersionPick.Json.Value

namespace VersionPick.Json

/-- The values of one field among members; none if there is more than one. -/
def field? (members : List (String × Value)) (name : String) : Option (Option Value) :=
  match members.filter (·.1 == name) with
  | [] => some none
  | [(_, v)] => some (some v)
  | _ => none

/-- The values given for the fields of a record, in the order of their names. -/
def fields? (names : List String) : Value → Option (List (Option Value))
  | .array elements =>
    if elements.length ≤ names.length then
      some (elements.map some ++ List.replicate (names.length - elements.length) none)
    else none
  | v => v.members?.bind fun members => names.mapM (field? members)

/-- A field that has to be there. -/
def required (read : Value → Option α) : Option Value → Option α
  | some v => read v
  | none => none

/-- A field that may be missing or null. -/
def optional (read : Value → Option α) : Option Value → Option (Option α)
  | some .null => some none
  | some v => (read v).map some
  | none => some none

/-- A field that may be missing. -/
def withDefault (default : α) (read : Value → Option α) : Option Value → Option α
  | some v => read v
  | none => some default

end VersionPick.Json
