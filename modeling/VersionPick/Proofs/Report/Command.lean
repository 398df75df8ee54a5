/-
Messages as workflow commands. A command stands on one line, whatever its
message holds (`isCommand_tell`), and nothing of the message is lost: the three
codes are read from the left, and what they hide stands there again
(`tell_lossless`). A percent sign is written as a code like the line ends, so a
message that holds a code is told apart from one that holds what it stands for.
-/
import VersionPick.Report
import VersionPick.Proofs.Text.Pieces

namespace VersionPick

open Text

namespace Command

/-! ## One line -/

/-- A line that is a command. -/
structure IsCommand (severity : Severity) (line : String) : Prop where
  head : [':', ':'] ++ severity.name ++ [':', ':'] <+: line.toList
  oneLine : '\n' ∉ line.toList ∧ '\r' ∉ line.toList

theorem notMem_escapeChar {c d : Char} (hc : c = '\n' ∨ c = '\r') : c ∉ escapeChar d := by
  unfold escapeChar
  repeat' split
  · rcases hc with rfl | rfl <;> decide
  · rcases hc with rfl | rfl <;> decide
  · rcases hc with rfl | rfl <;> decide
  next hreturn hline =>
    rw [List.mem_singleton]
    rintro rfl
    rcases hc with rfl | rfl
    · exact hline rfl
    · exact hreturn rfl

theorem notMem_escape {c : Char} (hc : c = '\n' ∨ c = '\r') (message : List Char) : c ∉ escape message := by
  rw [escape, List.mem_flatMap]
  rintro ⟨d, -, hd⟩
  exact notMem_escapeChar hc hd

theorem isCommand_tell (severity : Severity) (message : String) : IsCommand severity (tell severity message) := by
  have hline : ∀ c, c = '\n' ∨ c = '\r' → c ∉ (tell severity message).toList := by
    intro c hc
    have hname : c ∉ [':', ':'] ++ severity.name ++ [':', ':'] := by
      cases severity <;> rcases hc with rfl | rfl <;> decide
    rw [tell, String.toList_ofList, List.mem_append]
    exact not_or.mpr ⟨hname, notMem_escape hc _⟩
  refine ⟨?_, hline _ (.inl rfl), hline _ (.inr rfl)⟩
  rw [tell, String.toList_ofList]
  exact List.prefix_append _ _

/-! ## One code after the other -/

/-- A message may as well be gone through three times, for one character each
time. The percent sign has to be the first, for each code holds one. -/
theorem escape_eq_replace (message : List Char) : escape message =
    replace '\n' ['%', '0', 'A'] (replace '\r' ['%', '0', 'D'] (replace '%' ['%', '2', '5'] message)) := by
  simp only [escape, replace, List.flatMap_assoc]
  congr 1
  funext c
  by_cases hpercent : c = '%'
  · subst hpercent
    rfl
  by_cases hreturn : c = '\r'
  · subst hreturn
    rfl
  by_cases hline : c = '\n'
  · subst hline
    rfl
  simp [escapeChar, hpercent, hreturn, hline]

/-! ## What a command tells -/

/-- The message with a written form: the codes are read from the left, and
every other character stands for itself. -/
def unescape : List Char → List Char
  | [] => []
  | '%' :: '2' :: '5' :: cs => '%' :: unescape cs
  | '%' :: '0' :: 'D' :: cs => '\r' :: unescape cs
  | '%' :: '0' :: 'A' :: cs => '\n' :: unescape cs
  | c :: cs => c :: unescape cs

theorem unescape_cons {c : Char} (h : c ≠ '%') (cs : List Char) : unescape (c :: cs) = c :: unescape cs := by
  rw [unescape]
  all_goals
    rintro rest rfl
    exact absurd rfl h

/-- The written form of a character is read as that character, whatever
follows. -/
theorem unescape_escapeChar_append (c : Char) (cs : List Char) : unescape (escapeChar c ++ cs) = c :: unescape cs := by
  unfold escapeChar
  split
  next h => rw [beq_iff_eq.mp h]; rfl
  split
  next h => rw [beq_iff_eq.mp h]; rfl
  split
  next h => rw [beq_iff_eq.mp h]; rfl
  next hpercent _ _ => exact unescape_cons (by simpa using hpercent) cs

theorem unescape_escape : ∀ message : List Char, unescape (escape message) = message
  | [] => rfl
  | c :: cs => by
    have hcons : escape (c :: cs) = escapeChar c ++ escape cs := List.flatMap_cons
    rw [hcons, unescape_escapeChar_append, unescape_escape cs]

/-- The message that a line tells, if it is a command of a severity. -/
def told? (severity : Severity) (line : String) : Option String :=
  (List.isPrefixOf? ([':', ':'] ++ severity.name ++ [':', ':']) line.toList).map
    fun code => String.ofList (unescape code)

theorem told?_tell (severity : Severity) (message : String) :
    told? severity (tell severity message) = some message := by
  have hcode : List.isPrefixOf? ([':', ':'] ++ severity.name ++ [':', ':']) (tell severity message).toList =
      some (escape message.toList) := List.isPrefixOf?_eq_some_iff_append_eq.mpr (by rw [tell, String.toList_ofList])
  rw [told?, hcode, Option.map_some, unescape_escape, String.ofList_toList]

theorem tell_inj {severity : Severity} {message message' : String} :
    tell severity message = tell severity message' ↔ message = message' := by
  refine ⟨fun h => ?_, fun h => h ▸ rfl⟩
  rw [← Option.some.injEq, ← told?_tell severity message, h, told?_tell]

theorem severity_eq_of_tell {severity severity' : Severity} {message message' : String}
    (h : tell severity message = tell severity' message') : severity = severity' := by
  rw [tell, tell, String.ofList_inj] at h
  cases severity <;> cases severity'
  · rfl
  · cases h
  · cases h
  · rfl

/-- **A command tells its message on one line and in full.** Behind its head
stands the message with the percent signs and then the line ends replaced by
codes. There is no line end in that, and read from the left it is the message
again, so different messages have different commands. The warnings of a report
tell of its missing specifiers, each in its place. -/
theorem tell_lossless :
    (∀ severity message, ∃ code,
      (tell severity message).toList = [':', ':'] ++ severity.name ++ [':', ':'] ++ code ∧
      code = replace '\n' ['%', '0', 'A'] (replace '\r' ['%', '0', 'D'] (replace '%' ['%', '2', '5'] message.toList)) ∧
      '\r' ∉ code ∧ '\n' ∉ code ∧ unescape code = message.toList) ∧
    (∀ severity message severity' message', tell severity message = tell severity' message' ↔
      severity = severity' ∧ message = message') ∧
    ∀ report : Report, report.warnings.map (told? .warning) =
      report.missing.map fun specifier => some (Failure.noMatch specifier).message := by
  refine ⟨fun severity message => ?_, fun severity message severity' message' => ?_, fun report => ?_⟩
  · refine ⟨escape message.toList, ?_, escape_eq_replace _, notMem_escape (.inr rfl) _, notMem_escape (.inl rfl) _,
      unescape_escape _⟩
    rw [tell, String.toList_ofList]
  · constructor
    · intro h
      obtain rfl := severity_eq_of_tell h
      exact ⟨rfl, tell_inj.mp h⟩
    · rintro ⟨rfl, rfl⟩
      rfl
  · rw [Report.warnings, List.map_map]
    refine List.map_congr_left fun specifier _ => ?_
    rw [Function.comp_apply, Report.warning, told?_tell]

example : unescape (escape "50%0A\r\n%25".toList) = "50%0A\r\n%25".toList := by decide

end Command

end VersionPick
