/-
What a run leaves behind: the outputs, in a file or printed, behind a warning
for each gap among the versions; or one command that tells what failed, and no
outputs (`run_outcome`). Whatever a message holds, its command stands on one
line.

The resolution in front prints nothing and writes nothing, so all of this is
the doing of `deliver` and of the end of the run.
-/
import VersionPick.Proofs.CommandLine.Resolution
import VersionPick.Proofs.CommandLine.Trouble
import VersionPick.Proofs.Files.Tree
import VersionPick.Proofs.Report.Lines

namespace VersionPick

open Text

open Command

/-! ## Printing -/

namespace CommandLine

/-- Lines one after the other. -/
def listing : List String → String
  | [] => ""
  | line :: lines => line ++ "\n" ++ listing lines

theorem listing_append : ∀ lines more : List String, listing (lines ++ more) = listing lines ++ listing more
  | [], more => by simp [listing]
  | line :: lines, more => by simp [listing, listing_append lines more, String.append_assoc]

theorem splitOn_listing : ∀ {lines : List String}, (∀ line ∈ lines, '\n' ∉ line.toList) →
    List.splitOn '\n' (listing lines).toList = lines.map String.toList ++ [[]]
  | [], _ => rfl
  | line :: lines, h => by
    obtain ⟨hline, hlines⟩ := List.forall_mem_cons.mp h
    have hend : (listing (line :: lines)).toList = line.toList ++ '\n' :: (listing lines).toList := by
      simp [listing, String.toList_append]
    rw [hend, List.splitOn_append_cons_self_of_not_mem hline, splitOn_listing hlines]
    rfl

namespace Machine

/-- A machine that has printed something more. -/
def printed (machine : Machine) (text : String) : Machine :=
  { machine with output := machine.output ++ text }

theorem run_printLines : ∀ (lines : List String) (machine : Machine),
    (printLines host lines).run machine = ((), machine.printed (listing lines))
  | [], machine => by
    rw [printLines, listing, printed, String.append_empty]
    rfl
  | line :: lines, machine => by
    have ih := run_printLines lines (machine.printed (line ++ "\n"))
    rw [printLines, StateT.run_bind]
    change (printLines host lines).run (machine.printed (line ++ "\n")) = _
    rw [ih]
    simp only [printed, listing, String.append_assoc]

end Machine

open Machine

theorem run_append_of_ok {path text : String} {machine : Machine} {tree : Tree}
    (h : machine.tree.append path text.toUTF8 = .ok tree) :
    (host.append path text).run machine = (.ok (), { machine with tree }) := by
  change append path text machine = _
  simp only [append, h]

theorem run_append_of_error {path text : String} {machine : Machine} {fault : FileFault}
    (h : machine.tree.append path text.toUTF8 = .error fault) :
    (host.append path text).run machine = (.error fault, machine) := by
  change append path text machine = _
  simp only [append, h]

/-- What a delivery comes to, and the machine it leaves. -/
theorem run_deliver (report : Report) (destination : Option String) (machine : Machine) :
    (deliver host report destination).run.run machine =
      match destination with
      | none => (.ok (), machine.printed (listing report.warnings ++ report.lines))
      | some path =>
        match machine.tree.append path report.lines.toUTF8 with
        | .ok tree => (.ok (), { machine.printed (listing report.warnings) with tree })
        | .error fault => (.error (.output fault), machine.printed (listing report.warnings)) := by
  have hwarn : (liftM (printLines host report.warnings) : ExceptT Trouble (StateM Machine) Unit).run.run machine =
      (.ok (), machine.printed (listing report.warnings)) :=
    run_lift_eq_ok.mpr (run_printLines report.warnings machine)
  unfold deliver
  rw [ExceptT.run_bind, StateT.run_bind, hwarn]
  cases destination with
  | none =>
    change (Except.ok (), (machine.printed (listing report.warnings)).printed report.lines) = _
    simp only [printed, String.append_assoc]
  | some path =>
    change StateT.run (ExceptT.run (liftM (host.append path report.lines) >>= _)) _ = _
    rw [ExceptT.run_bind, StateT.run_bind]
    cases h : machine.tree.append path report.lines.toUTF8 with
    | ok tree =>
      have happend : (host.append path report.lines).run (machine.printed (listing report.warnings)) = _ :=
        run_append_of_ok h
      simp only [run_lift_eq_ok.mpr happend, h]
      rfl
    | error fault =>
      have happend : (host.append path report.lines).run (machine.printed (listing report.warnings)) = _ :=
        run_append_of_error h
      simp only [run_lift_eq_ok.mpr happend, h]
      rfl

/-! ## Runs -/

section
variable (environment : String → Option String) (options : Options) (machine after : Machine)

/-- The warnings about a report: a command for each specifier that is missing,
in their order, and so one for each gap among the versions. -/
structure IsWarned (report : Report) (warnings : List String) : Prop where
  told : warnings = report.missing.map fun text =>
    tell .warning ("No Julia version exists matching specifier: \"" ++ text ++ "\"")
  gaps : warnings.length = report.version.count none
  command : ∀ line ∈ warnings, IsCommand .warning line

/-- The machine after a run that gives out a report: the warnings are printed,
and the outputs stand at the end of a file or are printed too. -/
structure Delivered (report : Report) : Prop where
  resolved : ((resolve host options environment).run.run machine).1 = .ok report
  answers : report.AnswersInput options.version
  warnings : IsWarned report report.warnings
  lines : report.IsOutput report.lines
  output : after.output = machine.output ++
    (listing report.warnings ++ if (environment "GITHUB_OUTPUT").isNone then report.lines else "")
  tree : match environment "GITHUB_OUTPUT" with
    | none => after.tree = machine.tree
    | some path => machine.tree.Extended path report.lines.toUTF8 after.tree

/-- A report whose outputs cannot be written. -/
structure Undeliverable (report : Report) : Prop where
  resolved : ((resolve host options environment).run.run machine).1 = .ok report
  answers : report.AnswersInput options.version
  warnings : IsWarned report report.warnings
  refused : ∃ path fault, environment "GITHUB_OUTPUT" = some path ∧
    machine.tree.append path report.lines.toUTF8 = .error fault

/-- The machine after a run that fails: one command tells the failure, behind
the warnings of a report whose outputs cannot be written, if it is this that
fails. No outputs are given out. -/
structure Failed (warnings : List String) (command : String) : Prop where
  error : IsCommand .error command
  warning : ∀ line ∈ warnings, IsCommand .warning line
  undeliverable : warnings = [] ∨
    ∃ report, Undeliverable environment options machine report ∧ warnings = report.warnings
  output : after.output = machine.output ++ listing (warnings ++ [command])
  noOutputs : ∀ line ∈ List.splitOn '\n' (listing (warnings ++ [command])).toList, ¬ "version=".toList <+: line
  tree : after.tree = machine.tree

/-- How a run ends: its status, and the machine after it. -/
inductive Outcome : UInt32 × Machine → Prop
  | delivered {after : Machine} (report : Report) (h : Delivered environment options machine after report) :
    Outcome (0, after)
  | failed {after : Machine} (warnings : List String) (command : String)
    (h : Failed environment options machine after warnings command) : Outcome (1, after)

end

theorem isWarned_warnings {report : Report} {input : String} (h : report.AnswersInput input) :
    IsWarned report report.warnings where
  told := rfl
  gaps := by
    obtain ⟨specifiers, -, hanswers⟩ := h
    rw [Report.warnings, List.length_map, hanswers.length_missing]
  command line hline := by
    obtain ⟨specifier, -, rfl⟩ := List.mem_map.mp hline
    exact isCommand_tell .warning _

theorem not_output_of_isCommand {severity : Severity} {line : String} (h : IsCommand severity line) :
    ¬ "version=".toList <+: line.toList := by
  obtain ⟨rest, hrest⟩ := h.head
  rintro ⟨text, htext⟩
  rw [← hrest] at htext
  cases htext

theorem not_output_of_commands {lines : List String} (h : ∀ line ∈ lines, ∃ severity, IsCommand severity line) :
    ∀ line ∈ List.splitOn '\n' (listing lines).toList, ¬ "version=".toList <+: line := by
  have hend : ∀ line ∈ lines, '\n' ∉ line.toList := fun line hline => (h line hline).elim fun _ hc => hc.oneLine.1
  rw [splitOn_listing hend]
  intro piece hpiece
  rw [List.mem_append, List.mem_map, List.mem_singleton] at hpiece
  rcases hpiece with ⟨line, hline, rfl⟩ | rfl
  · obtain ⟨severity, hcommand⟩ := h line hline
    exact not_output_of_isCommand hcommand
  · exact fun hprefix => absurd (List.prefix_nil.mp hprefix) (by decide)

variable {environment : String → Option String} {options : Options} {machine between : Machine}

theorem failed_of_trouble {warnings : List String} (trouble : Trouble)
    (hwarning : ∀ line ∈ warnings, IsCommand .warning line)
    (hundeliverable : warnings = [] ∨
      ∃ report, Undeliverable environment options machine report ∧ warnings = report.warnings)
    (houtput : between.output = machine.output ++ listing warnings) (htree : between.tree = machine.tree) :
    Failed environment options machine (between.printed (trouble.command ++ "\n")) warnings trouble.command := by
  have herror : IsCommand .error trouble.command := isCommand_tell .error _
  refine ⟨herror, hwarning, hundeliverable, ?_, ?_, htree⟩
  · simp only [printed, houtput, listing_append, listing, String.append_assoc, String.append_empty]
  · refine not_output_of_commands fun line hline => ?_
    rcases List.mem_append.mp hline with hline | hline
    · exact ⟨_, hwarning line hline⟩
    · rw [List.mem_singleton.mp hline]
      exact ⟨_, herror⟩

theorem run_of_report {arguments : List String} {report : Report} {outcome : Except Trouble Unit} {after : Machine}
    (hoptions : Options.ofArguments? arguments environment = some options)
    (hresolve : (resolve host options environment).run.run machine = (.ok report, between))
    (hdeliver : (deliver host report (environment "GITHUB_OUTPUT")).run.run between = (outcome, after)) :
    (run host environment arguments).run machine = after.finish outcome := by
  refine run_of_outcome hoptions ?_
  rw [ExceptT.run_bind, StateT.run_bind, hresolve]
  exact hdeliver

/-- A report is delivered, or its outputs cannot be written. -/
theorem outcome_of_report {report : Report} {outcome : Except Trouble Unit} {after : Machine}
    (hresolve : (resolve host options environment).run.run machine = (.ok report, between))
    (hdeliver : (deliver host report (environment "GITHUB_OUTPUT")).run.run between = (outcome, after)) :
    Outcome environment options machine (after.finish outcome) := by
  have hkeeps := observes_resolve options environment machine
  have hresolved : ((resolve host options environment).run.run machine).1 = .ok report := by rw [hresolve]
  rw [hresolve] at hkeeps
  obtain ⟨htree, houtput⟩ := hkeeps
  have hanswers := answers_of_resolve hresolve
  have hwarnings : IsWarned report report.warnings := isWarned_warnings hanswers
  have hlines : report.IsOutput report.lines := report.isOutput_lines
  rw [run_deliver] at hdeliver
  cases hdestination : environment "GITHUB_OUTPUT" with
  | none =>
    rw [hdestination] at hdeliver
    cases hdeliver
    refine .delivered report ⟨hresolved, hanswers, hwarnings, hlines, ?_, ?_⟩
    · rw [hdestination, ← houtput]
      rfl
    · rw [hdestination]
      exact htree
  | some path =>
    simp only [hdestination] at hdeliver
    cases happend : between.tree.append path report.lines.toUTF8 with
    | ok tree =>
      rw [happend] at hdeliver
      cases hdeliver
      refine .delivered report ⟨hresolved, hanswers, hwarnings, hlines, ?_, ?_⟩
      · rw [hdestination, ← houtput]
        exact congrArg (between.output ++ ·) String.append_empty.symm
      · rw [hdestination, ← htree]
        exact Tree.append_spec happend
    | error fault =>
      rw [happend] at hdeliver
      cases hdeliver
      have hundeliverable : Undeliverable environment options machine report :=
        ⟨hresolved, hanswers, hwarnings, path, fault, hdestination, htree ▸ happend⟩
      refine .failed report.warnings _
        (failed_of_trouble (.output fault) hwarnings.command (.inr ⟨report, hundeliverable, rfl⟩) ?_ htree)
      rw [← houtput]
      rfl

end CommandLine

end VersionPick
