/-
The outputs of a report as text. Whatever characters the versions hold, there
are two lines, and what stands behind the name on each is the JSON text of its
list (`lines_spec`): a version can neither end its line nor start another.
-/
import VersionPick.Report
import VersionPick.Proofs.Json.Record

namespace VersionPick.Report

open Json Text

/-- The versions and gaps in a JSON text: strings and nulls. -/
def versions? (text : List Char) : Option (List (Option String)) :=
  ((read? text).bind Value.elements?).bind fun vs => vs.mapM fun v => Json.optional Value.text? (some v)

/-- The strings in a JSON text. -/
def texts? (text : List Char) : Option (List String) :=
  ((read? text).bind Value.elements?).bind fun vs => vs.mapM Value.text?

/-- A version or a gap as a JSON value. -/
def entry (version : Option String) : Value :=
  (version.map Value.ofText).getD .null

theorem proper_entry (version : Option String) : (entry version).Proper := by
  cases version with
  | none => exact .null
  | some s => exact proper_ofText s

theorem proper_entries (versions : List (Option String)) : (Value.array (versions.map entry)).Proper :=
  .array fun v hv => by
    obtain ⟨version, -, rfl⟩ := List.mem_map.mp hv
    exact proper_entry version

/-- A version between quotes, or the word for a gap. -/
def entryText : Option String → List Char
  | none => "null".toList
  | some s => '"' :: encode s.toList ++ ['"']

theorem write_entry (version : Option String) : (entry version).write = entryText version := by
  cases version with
  | none => rfl
  | some s => simp [entry, entryText, Value.ofText, Value.write]

theorem writeElements_entries : ∀ (version : Option String) (versions : List (Option String)),
    (entry version).write ++ Value.writeElements (versions.map entry) =
      List.intercalate [','] ((version :: versions).map entryText) ++ [']']
  | version, [] => by
    rw [write_entry, List.map_singleton, List.intercalate_singleton]
    rfl
  | version, next :: versions => by
    have ih := writeElements_entries next versions
    have hjoin : List.intercalate [','] ((version :: next :: versions).map entryText) =
        entryText version ++ ',' :: List.intercalate [','] ((next :: versions).map entryText) := by
      simp
    rw [write_entry, hjoin, List.append_assoc, List.cons_append, ← ih]
    rfl

/-- The text of a list holds its entries, with commas and nothing else between
them. -/
theorem versionsText_eq_intercalate : ∀ versions : List (Option String),
    versionsText versions = '[' :: (List.intercalate [','] (versions.map entryText) ++ [']'])
  | [] => rfl
  | version :: versions => by
    rw [← writeElements_entries version versions]
    rfl

theorem read?_versionsText (versions : List (Option String)) :
    read? (versionsText versions) = some (.array (versions.map entry)) :=
  read?_write (proper_entries versions)

theorem versions?_versionsText (versions : List (Option String)) :
    versions? (versionsText versions) = some versions := by
  have hentry : ∀ version, Json.optional Value.text? (some (entry version)) = some version := by
    intro version
    cases version with
    | none => rfl
    | some s =>
      change (Value.ofText s).text?.map some = _
      rw [text?_ofText, Option.map_some]
  rw [versions?, read?_versionsText]
  simp [Value.elements?, mapM_eq_some, hentry]

theorem texts?_versionsText (versions : List String) :
    texts? (versionsText (versions.map some)) = some versions := by
  rw [texts?, read?_versionsText]
  simp [Value.elements?, mapM_eq_some, entry, text?_ofText]

/-- No line ends in the text of a list. -/
theorem notMem_versionsText {c : Char} (h : isControl c = true) (versions : List (Option String)) :
    c ∉ versionsText versions := by
  intro hc
  have hplain : isControl c = false := (proper_entries versions).not_isControl c hc
  rw [h] at hplain
  cases hplain

/-- The text of the outputs, parted at its first line end. -/
theorem toList_lines (r : Report) : r.lines.toList = "version=".toList ++ versionsText r.version ++
    '\n' :: ("unique-version=".toList ++ versionsText (r.uniqueVersion.map some) ++ ['\n']) := by
  have hname : "\nunique-version=".toList = '\n' :: "unique-version=".toList := by decide
  have hlines : r.lines.toList = "version=".toList ++ versionsText r.version ++ "\nunique-version=".toList ++
      versionsText (r.uniqueVersion.map some) ++ ['\n'] := by
    unfold lines
    exact String.toList_ofList
  rw [hlines, hname]
  simp only [List.append_assoc, List.cons_append]

/-- A text with the outputs of a report: two lines, each a name and the JSON
text of a list, and nothing else that ends a line. -/
def IsOutput (r : Report) (text : String) : Prop :=
  ∃ first second : List Char,
    text.toList = "version=".toList ++ first ++ '\n' :: ("unique-version=".toList ++ second ++ ['\n']) ∧
    first = '[' :: (List.intercalate [','] (r.version.map entryText) ++ [']']) ∧ versions? first = some r.version ∧
    second = '[' :: (List.intercalate [','] (r.uniqueVersion.map fun v => entryText (some v)) ++ [']']) ∧
    texts? second = some r.uniqueVersion ∧
    text.toList.count '\n' = 2 ∧ '\r' ∉ text.toList

theorem isOutput_lines (r : Report) : r.IsOutput r.lines := by
  refine ⟨_, _, toList_lines r, versionsText_eq_intercalate _, versions?_versionsText _, ?_, texts?_versionsText _,
    ?_, ?_⟩
  · rw [versionsText_eq_intercalate, List.map_map]
    rfl
  · have hnames : "version=".toList.count '\n' = 0 ∧ "unique-version=".toList.count '\n' = 0 := by decide
    have hnone : ∀ versions, (versionsText versions).count '\n' = 0 := fun versions =>
      List.count_eq_zero_of_not_mem (notMem_versionsText (by decide) versions)
    simp only [toList_lines, List.count_append, List.count_cons, List.count_nil, hnames, hnone,
      beq_self_eq_true, if_true]
  · have hnames : '\r' ∉ "version=".toList ∧ '\r' ∉ "unique-version=".toList := by decide
    have hnone : ∀ versions, '\r' ∉ versionsText versions := notMem_versionsText (by decide)
    have hbreak : '\r' ≠ '\n' := by decide
    simp only [toList_lines, List.mem_append, List.mem_cons, List.not_mem_nil, hnames, hnone, hbreak,
      or_self, not_false_eq_true]

/-- **The outputs are two lines**, whatever characters the versions hold: the
names stand before JSON texts of the two lists, which are written without blanks
and can be read back, and no line ends within them. -/
theorem lines_spec (r : Report) : ∃ first second : List Char,
    r.lines.toList = "version=".toList ++ first ++ '\n' :: ("unique-version=".toList ++ second ++ ['\n']) ∧
    first = '[' :: (List.intercalate [','] (r.version.map entryText) ++ [']']) ∧ versions? first = some r.version ∧
    second = '[' :: (List.intercalate [','] (r.uniqueVersion.map fun v => entryText (some v)) ++ [']']) ∧
    texts? second = some r.uniqueVersion ∧
    r.lines.toList.count '\n' = 2 ∧ '\r' ∉ r.lines.toList :=
  isOutput_lines r

end VersionPick.Report
