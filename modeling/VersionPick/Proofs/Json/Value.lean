/-
Reading undoes writing. The text of a value is read back in front of whatever
cannot continue a number (`Value.Proper.reads`), and alone it is the text of that
value (`read?_write`). Three steps of the reader to each character are enough.
-/
import VersionPick.Json.Reader
import VersionPick.Proofs.Json.Quoted

namespace VersionPick.Json

open Text

/-- A value with a text of its own: its strings are in the form in which texts
are written, and its numbers are numbers. -/
inductive Value.Proper : Value → Prop
  | null : Proper .null
  | bool (b : Bool) : Proper (.bool b)
  | number {written : List Char} (h : isNumber written = true) (hchar : ∀ c ∈ written, isNumberChar c = true) :
    Proper (.number written)
  | string (cs : List Char) : Proper (.string (encode cs))
  | array {vs : List Value} (h : ∀ v ∈ vs, Proper v) : Proper (.array vs)
  | object {members : List (List Char × Value)} (hkeys : ∀ m ∈ members, ∃ key, m.1 = encode key)
    (h : ∀ m ∈ members, Proper m.2) : Proper (.object members)

/-- What cannot continue a number. -/
def EndsNumber (rest : List Char) : Prop :=
  ∀ c ∈ rest.head?, isNumberChar c = false

theorem endsNumber_nil : EndsNumber [] := nofun

theorem endsNumber_cons {c : Char} (h : isNumberChar c = false) (cs : List Char) : EndsNumber (c :: cs) := by
  intro d hd
  rwa [← Option.some.inj hd]

theorem endsNumber_writeElements (vs : List Value) (rest : List Char) :
    EndsNumber (Value.writeElements vs ++ rest) := by
  cases vs <;> exact endsNumber_cons rfl _

theorem endsNumber_writeMembers (members : List (List Char × Value)) (rest : List Char) :
    EndsNumber (Value.writeMembers members ++ rest) := by
  cases members <;> exact endsNumber_cons rfl _

theorem skipBlanks_cons {c : Char} (h : isBlank c = false) (cs : List Char) : skipBlanks (c :: cs) = c :: cs := by
  simp [skipBlanks, h]

/-- A character of a number starts no other token. -/
theorem ne_of_isNumberChar {c d : Char} (h : isNumberChar c = true) (hd : isNumberChar d = false) : c ≠ d := by
  rintro rfl
  rw [h] at hd
  cases hd

theorem ne_nil_of_isNumber {cs : List Char} (h : isNumber cs = true) : cs ≠ [] := by
  rintro rfl
  revert h
  decide

theorem takeWhile_number {written rest : List Char} (hchar : ∀ c ∈ written, isNumberChar c = true)
    (hrest : EndsNumber rest) : (written ++ rest).takeWhile isNumberChar = written ∧
      (written ++ rest).dropWhile isNumberChar = rest := by
  rw [List.takeWhile_append_of_pos hchar, List.dropWhile_append_of_pos hchar]
  cases rest with
  | nil => simp
  | cons d ds => simp [hrest d rfl]

theorem readPlain?_number {written rest : List Char} (h : isNumber written = true)
    (hchar : ∀ c ∈ written, isNumberChar c = true) (hrest : EndsNumber rest) :
    readPlain? (written ++ rest) = some (.number written, rest) := by
  obtain ⟨htake, hdrop⟩ := takeWhile_number hchar hrest
  obtain ⟨c, cs, rfl⟩ := List.exists_cons_of_ne_nil (ne_nil_of_isNumber h)
  have hc := hchar c (by simp)
  have hn : c ≠ 'n' := ne_of_isNumberChar hc rfl
  have ht : c ≠ 't' := ne_of_isNumberChar hc rfl
  have hf : c ≠ 'f' := ne_of_isNumberChar hc rfl
  rw [List.cons_append] at htake hdrop ⊢
  simp [readPlain?, hn, ht, hf, htake, hdrop, h]

theorem not_isBlank_of_isNumberChar {c : Char} (h : isNumberChar c = true) : isBlank c = false := by
  have hspace : c ≠ ' ' := ne_of_isNumberChar h rfl
  have hline : c ≠ '\n' := ne_of_isNumberChar h rfl
  have htab : c ≠ '\t' := ne_of_isNumberChar h rfl
  have hreturn : c ≠ '\r' := ne_of_isNumberChar h rfl
  simp [isBlank, hspace, hline, htab, hreturn]

/-- The text of a value starts with no blank, and not as an array ends. -/
theorem Value.Proper.exists_head {v : Value} (h : v.Proper) :
    ∃ c cs, v.write = c :: cs ∧ isBlank c = false ∧ c ≠ ']' := by
  cases h with
  | null => exact ⟨_, _, rfl, rfl, by decide⟩
  | bool b => cases b <;> exact ⟨_, _, rfl, rfl, by decide⟩
  | number h hchar =>
    obtain ⟨c, cs, rfl⟩ := List.exists_cons_of_ne_nil (ne_nil_of_isNumber h)
    have hc := hchar c (by simp)
    exact ⟨c, cs, rfl, not_isBlank_of_isNumberChar hc, ne_of_isNumberChar hc rfl⟩
  | string cs => exact ⟨_, _, rfl, rfl, by decide⟩
  | @array vs _ => cases vs <;> exact ⟨_, _, rfl, rfl, by decide⟩
  | @object members _ _ => cases members <;> exact ⟨_, _, rfl, rfl, by decide⟩

/-! ## Reading -/

/-- The text of a value is read back, whatever stands behind it. -/
def Reads (v : Value) : Prop :=
  ∀ fuel rest, 3 * v.write.length ≤ fuel → EndsNumber rest → readValue? fuel (v.write ++ rest) = some (v, rest)

/-- The elements of an array are read up to its closing bracket. -/
theorem readElements?_write : ∀ {vs : List Value} {v : Value}, (∀ w ∈ v :: vs, Reads w) →
    ∀ {fuel : Nat} {rest : List Char}, 3 * (v.write ++ Value.writeElements vs).length < fuel →
      readElements? fuel (v.write ++ (Value.writeElements vs ++ rest)) = some (v :: vs, rest)
  | _, _, _, 0, _, hfuel => absurd hfuel (Nat.not_lt_zero _)
  | [], v, h, fuel + 1, rest, hfuel => by
    rw [List.length_append] at hfuel
    have hv := h v (by simp) fuel (Value.writeElements [] ++ rest) (by omega) (endsNumber_writeElements _ _)
    rw [readElements?, hv]
    rfl
  | w :: vs, v, h, fuel + 1, rest, hfuel => by
    obtain ⟨hv, hvs⟩ := List.forall_mem_cons.mp h
    have hlength : (Value.writeElements (w :: vs)).length = (w.write ++ Value.writeElements vs).length + 1 := rfl
    rw [List.length_append, hlength] at hfuel
    have hv := hv fuel (Value.writeElements (w :: vs) ++ rest) (by omega) (endsNumber_writeElements _ _)
    have ih : readElements? fuel (w.write ++ (Value.writeElements vs ++ rest)) = some (w :: vs, rest) :=
      readElements?_write hvs (by omega)
    have hcomma : skipBlanks (Value.writeElements (w :: vs) ++ rest) =
        ',' :: (w.write ++ (Value.writeElements vs ++ rest)) := by
      rw [← List.append_assoc]
      rfl
    rw [readElements?, hv]
    simp [hcomma, ih]

/-- A member is read up to what follows its value. -/
theorem readMember?_write {key : List Char} {v : Value} (h : Reads v) {fuel : Nat} {rest : List Char}
    (hfuel : 3 * v.write.length < fuel) (hrest : EndsNumber rest) :
    readMember? fuel ('"' :: (encode key ++ '"' :: ':' :: (v.write ++ rest))) = some ((encode key, v), rest) := by
  obtain ⟨fuel, rfl⟩ := Nat.exists_eq_succ_of_ne_zero (Nat.ne_zero_of_lt hfuel)
  have hv := h fuel rest (by omega) hrest
  have hkey := closeQuote_encode (':' :: (v.write ++ rest)) key
  have hquote : ∀ cs, skipBlanks ('"' :: cs) = '"' :: cs := skipBlanks_cons rfl
  have hcolon : ∀ cs, skipBlanks (':' :: cs) = ':' :: cs := skipBlanks_cons rfl
  simp [readMember?, hquote, hkey, hcolon, hv]

/-- The members of an object are read up to its closing brace. -/
theorem readMembers?_write : ∀ {members : List (List Char × Value)} {key : List Char} {v : Value}, Reads v →
    (∀ m ∈ members, ∃ key, m.1 = encode key) → (∀ m ∈ members, Reads m.2) →
    ∀ {fuel : Nat} {rest : List Char},
      3 * (v.write ++ Value.writeMembers members).length + 1 < fuel →
      readMembers? fuel ('"' :: (encode key ++ '"' :: ':' :: (v.write ++ (Value.writeMembers members ++ rest)))) =
        some ((encode key, v) :: members, rest)
  | _, _, _, _, _, _, 0, _, hfuel => absurd hfuel (Nat.not_lt_zero _)
  | [], key, v, hv, _, _, fuel + 1, rest, hfuel => by
    rw [List.length_append] at hfuel
    have hmember : readMember? fuel ('"' :: (encode key ++ '"' :: ':' :: (v.write ++ (Value.writeMembers [] ++ rest)))) =
        some ((encode key, v), Value.writeMembers [] ++ rest) :=
      readMember?_write hv (by omega) (endsNumber_writeMembers _ _)
    rw [readMembers?, hmember]
    rfl
  | (written, w) :: members, key, v, hv, hkeys, hvs, fuel + 1, rest, hfuel => by
    obtain ⟨⟨next, rfl⟩, hkeys'⟩ := List.forall_mem_cons.mp hkeys
    obtain ⟨hw, hvs'⟩ := List.forall_mem_cons.mp hvs
    have hwrite : Value.writeMembers ((encode next, w) :: members) =
        ',' :: '"' :: (encode next ++ '"' :: ':' :: (w.write ++ Value.writeMembers members)) := rfl
    have hlength : (w.write ++ Value.writeMembers members).length <
        (Value.writeMembers ((encode next, w) :: members)).length := by
      rw [hwrite]
      simp only [List.length_cons, List.length_append]
      omega
    rw [List.length_append] at hfuel
    have hmember : readMember? fuel ('"' :: (encode key ++ '"' :: ':' ::
        (v.write ++ (Value.writeMembers ((encode next, w) :: members) ++ rest)))) =
        some ((encode key, v), Value.writeMembers ((encode next, w) :: members) ++ rest) :=
      readMember?_write hv (by omega) (endsNumber_writeMembers _ _)
    have ih : readMembers? fuel ('"' :: (encode next ++ '"' :: ':' :: (w.write ++ (Value.writeMembers members ++ rest)))) =
        some ((encode next, w) :: members, rest) :=
      @readMembers?_write members next w hw hkeys' hvs' fuel rest (by omega)
    have hcomma : skipBlanks (Value.writeMembers ((encode next, w) :: members) ++ rest) =
        ',' :: '"' :: (encode next ++ '"' :: ':' :: (w.write ++ (Value.writeMembers members ++ rest))) := by
      rw [hwrite, List.cons_append, skipBlanks_cons rfl]
      simp
    rw [readMembers?, hmember]
    simp [hcomma, ih]

theorem reads_of_succ {v : Value} (hne : v.write ≠ [])
    (h : ∀ fuel rest, 3 * v.write.length ≤ fuel + 1 → EndsNumber rest →
      readValue? (fuel + 1) (v.write ++ rest) = some (v, rest)) : Reads v := by
  intro fuel rest hfuel hrest
  have hpos := List.length_pos_iff.mpr hne
  obtain ⟨fuel, rfl⟩ : ∃ k, fuel = k + 1 := ⟨fuel - 1, by omega⟩
  exact h fuel rest hfuel hrest

/-- The text of a value is read back in front of what cannot continue a
number. -/
theorem Value.Proper.reads {v : Value} (h : v.Proper) : Reads v := by
  induction h with
  | null => exact reads_of_succ (by simp [write]) fun _ _ _ _ => rfl
  | bool b => cases b <;> exact reads_of_succ (by simp [write]) fun _ _ _ _ => rfl
  | @number written h hchar =>
    refine reads_of_succ (ne_nil_of_isNumber h) fun fuel rest _ hrest => ?_
    have hplain := readPlain?_number h hchar hrest
    obtain ⟨c, cs, rfl⟩ := List.exists_cons_of_ne_nil (ne_nil_of_isNumber h)
    have hc := hchar c (by simp)
    have hquote : c ≠ '"' := ne_of_isNumberChar hc rfl
    have hbracket : c ≠ '[' := ne_of_isNumberChar hc rfl
    have hbrace : c ≠ '\x7b' := ne_of_isNumberChar hc rfl
    have hskip := skipBlanks_cons (not_isBlank_of_isNumberChar hc) (cs ++ rest)
    rw [List.cons_append] at hplain
    simp [write, readValue?, hskip, hquote, hbracket, hbrace, hplain]
  | string cs =>
    refine reads_of_succ (by simp [write]) fun fuel rest _ _ => ?_
    have hskip : ∀ cs, skipBlanks ('"' :: cs) = '"' :: cs := skipBlanks_cons rfl
    simp [write, readValue?, hskip, closeQuote_encode]
  | @array vs h ih =>
    cases vs with
    | nil => exact reads_of_succ (by simp [write]) fun _ _ _ _ => rfl
    | cons v vs =>
      refine reads_of_succ (by simp [write]) fun fuel rest hfuel _ => ?_
      rw [write, List.length_cons] at hfuel
      have helements := @readElements?_write vs v ih fuel rest (by omega)
      obtain ⟨c, cs, hc, hblank, hclose⟩ := (h v (by simp)).exists_head
      have hopen : ∀ cs, skipBlanks ('[' :: cs) = '[' :: cs := skipBlanks_cons rfl
      rw [hc, List.cons_append] at helements
      simp [write, readValue?, hopen, hc, skipBlanks_cons hblank, hclose, helements]
  | @object members hkeys h ih =>
    cases members with
    | nil => exact reads_of_succ (by simp [write]) fun _ _ _ _ => rfl
    | cons m members =>
      obtain ⟨written, v⟩ := m
      obtain ⟨⟨key, rfl⟩, hkeys'⟩ := List.forall_mem_cons.mp hkeys
      obtain ⟨hv, ih'⟩ := List.forall_mem_cons.mp ih
      refine reads_of_succ (by simp [write]) fun fuel rest hfuel _ => ?_
      simp only [write, List.length_cons, List.length_append] at hfuel
      have hmembers := @readMembers?_write members key v hv hkeys' ih' fuel rest (by rw [List.length_append]; omega)
      have hopen : ∀ cs, skipBlanks ('\x7b' :: cs) = '\x7b' :: cs := skipBlanks_cons rfl
      have hquote : ∀ cs, skipBlanks ('"' :: cs) = '"' :: cs := skipBlanks_cons rfl
      simp [write, readValue?, hopen, hquote, hmembers]

/-- Reading undoes writing. -/
theorem read?_write {v : Value} (h : v.Proper) : read? v.write = some v := by
  have hread := h.reads (3 * v.write.length + 3) [] (by omega) endsNumber_nil
  rw [List.append_nil] at hread
  rw [read?, hread]
  rfl

/-! ## Characters -/

theorem not_isControl_writeElements : ∀ {vs : List Value}, (∀ v ∈ vs, ∀ c ∈ v.write, isControl c = false) →
    ∀ c ∈ Value.writeElements vs, isControl c = false
  | [], _ => by simp [Value.writeElements, isControl]
  | v :: vs, h => by
    obtain ⟨hv, hvs⟩ := List.forall_mem_cons.mp h
    rw [Value.writeElements, List.forall_mem_cons, List.forall_mem_append]
    exact ⟨rfl, hv, not_isControl_writeElements hvs⟩

theorem not_isControl_writeMembers : ∀ {members : List (List Char × Value)},
    (∀ m ∈ members, ∃ key, m.1 = encode key) → (∀ m ∈ members, ∀ c ∈ m.2.write, isControl c = false) →
    ∀ c ∈ Value.writeMembers members, isControl c = false
  | [], _, _ => by simp [Value.writeMembers, isControl]
  | (written, v) :: members, hkeys, h => by
    obtain ⟨⟨key, rfl⟩, hkeys'⟩ := List.forall_mem_cons.mp hkeys
    obtain ⟨hv, hvs⟩ := List.forall_mem_cons.mp h
    simp only [Value.writeMembers, List.forall_mem_cons, List.forall_mem_append]
    exact ⟨rfl, rfl, fun _ => not_isControl_of_mem_encode, rfl, rfl, hv, not_isControl_writeMembers hkeys' hvs⟩

theorem not_isControl_of_isNumberChar {c : Char} (h : isNumberChar c = true) : isControl c = false := by
  simp only [isNumberChar, Bool.or_eq_true, beq_iff_eq, or_assoc] at h
  rcases h with h | rfl | rfl | rfl | rfl | rfl
  · have hdigit : 48 ≤ c.toNat ∧ c.toNat ≤ 57 := Char.isDigit_iff_toNat.mp h
    have hlt : ¬ c.toNat < 32 := by omega
    exact decide_eq_false hlt
  all_goals rfl

theorem not_isControl_of_all {cs : List Char} (h : (cs.all fun c => !isControl c) = true) :
    ∀ c ∈ cs, isControl c = false := by
  simpa using h

/-- A value is written without control characters, so on one line. -/
theorem Value.Proper.not_isControl {v : Value} (h : v.Proper) : ∀ c ∈ v.write, isControl c = false := by
  induction h with
  | null => exact not_isControl_of_all rfl
  | bool b => cases b <;> exact not_isControl_of_all rfl
  | number _ hchar => exact fun c hc => not_isControl_of_isNumberChar (hchar c hc)
  | string cs =>
    simp only [write, List.forall_mem_append, List.forall_mem_cons]
    exact ⟨⟨rfl, fun _ => not_isControl_of_mem_encode⟩, rfl, nofun⟩
  | @array vs _ ih =>
    cases vs with
    | nil => exact not_isControl_of_all rfl
    | cons v vs =>
      obtain ⟨hv, hvs⟩ := List.forall_mem_cons.mp ih
      rw [write, List.forall_mem_cons, List.forall_mem_append]
      exact ⟨rfl, hv, not_isControl_writeElements hvs⟩
  | @object members hkeys _ ih =>
    cases members with
    | nil => exact not_isControl_of_all rfl
    | cons m members =>
      obtain ⟨written, v⟩ := m
      obtain ⟨⟨key, rfl⟩, hkeys'⟩ := List.forall_mem_cons.mp hkeys
      obtain ⟨hv, hvs⟩ := List.forall_mem_cons.mp ih
      simp only [write, List.forall_mem_cons, List.forall_mem_append]
      exact ⟨rfl, rfl, fun _ => not_isControl_of_mem_encode, rfl, rfl, hv, not_isControl_writeMembers hkeys' hvs⟩

end VersionPick.Json
