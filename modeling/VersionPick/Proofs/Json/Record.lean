/-
Records in JSON. A text or a number is written as a value that has a text of
its own, and comes back from it. So does an object of named members, whose keys
are written as texts are (`Value.record`).
-/
import VersionPick.Json.Record
import VersionPick.Proofs.Json.Value
import VersionPick.Proofs.Text.Decimal
import VersionPick.Proofs.Text.Pieces
import VersionPick.Proofs.Traverse

namespace VersionPick.Json

open Text

/-! ## Texts and numbers -/

theorem text?_ofText (s : String) : (Value.ofText s).text? = some s := by
  rw [Value.ofText, Value.text?, decode?_encode, Option.map_some, String.ofList_toList]

theorem proper_ofText (s : String) : (Value.ofText s).Proper :=
  .string s.toList

theorem optional_text?_ofText (s : Option String) : optional Value.text? (s.map Value.ofText) = some s := by
  cases s with
  | none => rfl
  | some s => exact congrArg (Option.map some) (text?_ofText s)

theorem isNumberChar_of_isDigit {c : Char} (h : c.isDigit = true) : isNumberChar c = true := by
  simp [isNumberChar, h]

/-- A numeral without leading zeros is a number without sign, fraction and
exponent. -/
theorem isNumber_of_isPlain {cs : List Char} (h : Decimal.isPlain cs = true) : isNumber cs = true := by
  have hnumeral : Decimal.isNumeral cs = true := (Bool.and_eq_true_iff.mp h).1
  have hother : ∀ c : Char, c.isDigit = false → c ∉ cs := by
    intro c hc hmem
    rw [(Decimal.isNumeral_iff.mp hnumeral).2 c hmem] at hc
    cases hc
  have hminus : List.isPrefixOf? ['-'] cs = none :=
    isPrefixOf?_eq_none_of_not_mem (List.mem_singleton_self _) (hother '-' (by decide))
  have hexponent : replace 'E' ['e'] cs = cs := replace_of_not_mem _ (hother 'E' (by decide))
  simp [isNumber, hminus, hexponent, cutFirst_of_not_mem (hother 'e' (by decide)),
    cutFirst_of_not_mem (hother '.' (by decide)), h]

theorem word?_ofWord (n : UInt64) : (Value.ofWord n).word? = some n :=
  Decimal.word?_writeWord n

theorem proper_ofWord (n : UInt64) : (Value.ofWord n).Proper :=
  .number (isNumber_of_isPlain (Decimal.isPlain_write n.toNat)) fun _ hc =>
    isNumberChar_of_isDigit (Decimal.isDigit_of_mem_writeWord hc)

/-! ## Objects -/

/-- An object whose keys are the written forms of texts. -/
def Value.record (members : List (String × Value)) : Value :=
  .object (members.map fun m => (encode m.1.toList, m.2))

theorem members?_record (members : List (String × Value)) : (Value.record members).members? = some members := by
  rw [Value.record, Value.members?, mapM_eq_some, List.forall₂_map_left_iff, List.forall₂_same]
  intro m _
  dsimp only
  rw [decode?_encode, Option.map_some, String.ofList_toList]

theorem proper_record {members : List (String × Value)} (h : ∀ m ∈ members, m.2.Proper) :
    (Value.record members).Proper := by
  refine .object (fun m hm => ?_) fun m hm => ?_
  · obtain ⟨named, -, rfl⟩ := List.mem_map.mp hm
    exact ⟨_, rfl⟩
  · obtain ⟨named, hnamed, rfl⟩ := List.mem_map.mp hm
    exact h named hnamed

theorem fields?_record (names : List String) (members : List (String × Value)) :
    fields? names (Value.record members) = names.mapM (field? members) := by
  change (Value.record members).members?.bind _ = _
  rw [members?_record, Option.bind_some]

end VersionPick.Json
