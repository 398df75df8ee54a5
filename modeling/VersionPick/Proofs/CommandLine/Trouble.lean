/-
What is printed when a resolution fails: its message, and behind that the
messages of the failures that it wraps. A message already ends with each of
these, so the line repeats them, unless the failure wraps nothing
(`tells_message_iff`).
-/
import Mathlib.Control.Monad.Basic
import VersionPick.CommandLine.Machine
import VersionPick.Proofs.Report.Command
import VersionPick.Proofs.Text.Pieces

namespace VersionPick

open Text

/-- A command does not hide that more is told. -/
theorem Command.tell_append_eq {severity : Severity} {message more : String} :
    tell severity (message ++ more) = tell severity message ↔ more = "" := by
  rw [tell_inj, ← String.toList_inj, String.toList_append, List.append_right_eq_self, String.toList_eq_nil_iff]

/-! ## Wrapped failures -/

theorem suffix_append_text (lead text : String) : text.toList <:+ (lead ++ text).toList := by
  rw [String.toList_append]
  exact List.suffix_append _ _

namespace FetchError

/-- The messages of the failures behind this one, down to what the client says
of a request without answer. -/
def wrapped : FetchError → List String
  | .transport fault => [fault.message]
  | .status .. => []
  | .document _ => []
  | .unavailable _ last => last.message :: last.wrapped

/-- The messages behind a request without answer. They are the client's. -/
def foreign : FetchError → List String
  | .transport fault => fault.causes
  | .status .. => []
  | .document _ => []
  | .unavailable _ last => last.foreign

theorem causes_eq_append : ∀ e : FetchError, e.causes = e.wrapped ++ e.foreign
  | .transport _ => rfl
  | .status .. => rfl
  | .document _ => rfl
  | .unavailable _ last => congrArg (last.message :: ·) (causes_eq_append last)

/-- Each failure behind another is told at the end of its message. -/
theorem suffix_of_mem_wrapped : ∀ {e : FetchError} {cause : String}, cause ∈ e.wrapped →
    cause.toList <:+ e.message.toList
  | .transport fault, cause, h => by
    obtain rfl : cause = fault.message := List.mem_singleton.mp h
    exact suffix_append_text _ _
  | .unavailable attempts last, cause, h => by
    have hlast : last.message.toList <:+ (unavailable attempts last).message.toList :=
      suffix_append_text _ _
    rcases List.mem_cons.mp h with rfl | h
    · exact hlast
    · exact (suffix_of_mem_wrapped h).trans hlast

end FetchError

namespace Failure

/-- The failures that have another one behind them: no answer, no attempt left,
a file that is not given out. -/
inductive Wraps : Failure → Prop
  | transport (fault : TransportFault) : Wraps (.fetch (.transport fault))
  | unavailable (attempts : UInt32) (last : FetchError) : Wraps (.fetch (.unavailable attempts last))
  | unreadable (path : String) (fault : FileFault) : Wraps (.unreadable path fault)

/-- As for downloads. Behind the refusal of a file there is nothing. -/
def wrapped : Failure → List String
  | .fetch e => e.wrapped
  | .unreadable _ fault => [fault.message]
  | _ => []

def foreign : Failure → List String
  | .fetch e => e.foreign
  | _ => []

theorem causes_eq_append : ∀ failure : Failure, failure.causes = failure.wrapped ++ failure.foreign
  | .fetch e => e.causes_eq_append
  | .unreadable .. | .input _ | .notToml _ | .badCompat _ | .noProjectFile _ | .noManifestFile _ | .noCompatRange
  | .noMatch _ => rfl

theorem wrapped_eq_nil : ∀ {failure : Failure}, failure.wrapped = [] ↔ ¬ failure.Wraps
  | .fetch (.transport fault) => by simp [wrapped, FetchError.wrapped, Wraps.transport fault]
  | .fetch (.unavailable attempts last) => by simp [wrapped, FetchError.wrapped, Wraps.unavailable attempts last]
  | .unreadable path fault => by simp [wrapped, Wraps.unreadable path fault]
  | .fetch (.status ..) | .fetch (.document _) | .input _ | .notToml _ | .badCompat _ | .noProjectFile _
  | .noManifestFile _ | .noCompatRange | .noMatch _ => ⟨fun _ => nofun, fun _ => rfl⟩

/-- Only behind another failure the client has more to tell. -/
theorem causes_eq_nil {failure : Failure} : failure.causes = [] ↔ ¬ failure.Wraps := by
  rw [← wrapped_eq_nil]
  cases failure with
  | fetch e => cases e <;> simp [causes, wrapped, FetchError.causes, FetchError.wrapped]
  | unreadable => simp [causes, wrapped]
  | _ => exact ⟨fun _ => rfl, fun _ => rfl⟩

theorem suffix_of_mem_wrapped {failure : Failure} {cause : String} (h : cause ∈ failure.wrapped) :
    cause.toList <:+ failure.message.toList := by
  cases failure with
  | fetch e => exact e.suffix_of_mem_wrapped h
  | unreadable path fault =>
    obtain rfl : cause = fault.message := List.mem_singleton.mp h
    exact suffix_append_text _ _
  | _ => cases h

end Failure

namespace CommandLine

theorem Trouble.command_eq_message {failure : Failure} :
    (Trouble.resolution failure).command = Command.tell .error failure.message ↔ failure.causes = [] := by
  rw [command, reasons]
  cases hcauses : failure.causes with
  | nil => simp
  | cons cause more =>
    have hjoin : String.ofList (List.intercalate [':', ' '] ((failure.message :: cause :: more).map String.toList)) =
        failure.message ++
          String.ofList ([':', ' '] ++ List.intercalate [':', ' '] ((cause :: more).map String.toList)) := by
      rw [List.map_cons, List.intercalate_cons_of_ne_nil (by simp), List.append_assoc, String.ofList_append,
        String.ofList_toList]
    rw [hjoin, Command.tell_append_eq]
    simp [String.ext_iff]

/-- How a run ends once the report is delivered, or there is trouble. -/
def Machine.finish (machine : Machine) : Except Trouble Unit → UInt32 × Machine
  | .ok () => (0, machine)
  | .error trouble => (1, { machine with output := machine.output ++ (trouble.command ++ "\n") })

theorem run_of_outcome {environment : String → Option String} {arguments : List String} {options : Options}
    {machine machine' : Machine} {outcome : Except Trouble Unit}
    (hoptions : Options.ofArguments? arguments environment = some options)
    (h : (resolve Machine.host options environment >>= fun report =>
      deliver Machine.host report (environment "GITHUB_OUTPUT")).run.run machine = (outcome, machine')) :
    (run Machine.host environment arguments).run machine = machine'.finish outcome := by
  simp only [run, hoptions]
  change (ExceptT.run _ >>= _ : StateM Machine UInt32).run machine = _
  rw [StateT.run_bind, h]
  cases outcome <;> rfl

/-- A run that comes to no report ends with status 1 and a line that tells why. -/
theorem run_of_trouble {environment : String → Option String} {arguments : List String} {options : Options}
    {machine machine' : Machine} {trouble : Trouble}
    (hoptions : Options.ofArguments? arguments environment = some options)
    (h : (resolve Machine.host options environment).run.run machine = (.error trouble, machine')) :
    (run Machine.host environment arguments).run machine =
      (1, { machine' with output := machine'.output ++ (trouble.command ++ "\n") }) := by
  have houtcome : (resolve Machine.host options environment >>= fun report =>
      deliver Machine.host report (environment "GITHUB_OUTPUT")).run.run machine = (.error trouble, machine') := by
    rw [ExceptT.run_bind, StateT.run_bind, h]
    rfl
  exact run_of_outcome hoptions houtcome

/-- **What is told when a resolution fails** is the message of the failure
exactly if it wraps no other. Otherwise the messages of those that it wraps are
told behind it, and these are repeated, for it ends with each of them; last
comes what the client has to say. That is the line that a run ends with. -/
theorem tells_message_iff (failure : Failure) :
    ((Trouble.resolution failure).command = Command.tell .error failure.message ↔ ¬ failure.Wraps) ∧
    failure.causes = failure.wrapped ++ failure.foreign ∧
    (failure.wrapped = [] ↔ ¬ failure.Wraps) ∧
    (∀ cause ∈ failure.wrapped, cause.toList <:+ failure.message.toList) ∧
    ∀ environment arguments options machine machine',
      Options.ofArguments? arguments environment = some options →
      (resolve Machine.host options environment).run.run machine = (.error (.resolution failure), machine') →
      (run Machine.host environment arguments).run machine =
        (1, { machine' with output := machine'.output ++ ((Trouble.resolution failure).command ++ "\n") }) := by
  refine ⟨?_, failure.causes_eq_append, Failure.wrapped_eq_nil, fun _ h => Failure.suffix_of_mem_wrapped h,
    fun _ _ _ _ _ => run_of_trouble⟩
  rw [Trouble.command_eq_message, Failure.causes_eq_nil]

/-- A failure that wraps no other, on a machine without files or answers. -/
theorem tells_message_of_input : ∃ machine : Machine,
    ((run Machine.host (fun _ => none) ["--version", "x"]).run machine).2.output =
      Command.tell .error (Failure.input (.notSpecifier "x")).message ++ "\n" := by
  let machine : Machine :=
    { tree := .empty, peer := { base := "http://h", routes := [], complaint := fun _ _ _ => ("no answer", []) } }
  let options : Options := ⟨"x", none, "error", none⟩
  obtain ⟨htells, -, -, -, hrun⟩ := tells_message_iff (.input (.notSpecifier "x"))
  have hoptions : Options.ofArguments? ["--version", "x"] (fun _ => none) = some options := by decide
  have hfails : ((resolve Machine.host options (fun _ => none)).run.run machine).1 =
      .error (.resolution (.input (.notSpecifier "x"))) := by decide +kernel
  have hsilent : ((resolve Machine.host options (fun _ => none)).run.run machine).2.output = "" := by
    decide +kernel
  refine ⟨machine, ?_⟩
  rw [hrun _ _ options machine _ hoptions (Prod.ext hfails rfl), htells.mpr nofun, hsilent, String.empty_append]

/-- A status that is told twice, in the message of the failure and behind it. -/
theorem tells_status_twice : ∃ machine : Machine,
    let status : FetchError := .status 404 "http://h/v.json"
    let failure : Failure := .fetch (.unavailable 1 status)
    let line := Command.tell .error (failure.message ++ ": " ++ status.message)
    ((resolve Machine.host ⟨"1", none, "error", some "c.json"⟩ (fun _ => none)).run.run machine).1 =
      .error (.resolution failure) ∧
    ((run Machine.host (fun _ => none) ["--version", "1", "--config", "c.json"]).run machine).2.output = line ++ "\n" ∧
    line ≠ Command.tell .error failure.message := by
  let settings : String := "\x7b\"versionsUrl\":\"http://h/v.json\",\"maxRetries\":0\x7d"
  let machine : Machine := {
    tree := Tree.empty.set ("c.json" :: Place.working) (.file settings.toUTF8)
    peer := {
      base := "http://h"
      routes := [("GET /v.json", [.respond ⟨404, "", none⟩])]
      complaint := fun _ _ _ => ("no answer", []) } }
  refine ⟨machine, ?_⟩
  intro status failure line
  have hoptions : Options.ofArguments? ["--version", "1", "--config", "c.json"] (fun _ => none) =
      some ⟨"1", none, "error", some "c.json"⟩ := by decide
  have hfails : ((resolve Machine.host ⟨"1", none, "error", some "c.json"⟩ (fun _ => none)).run.run machine).1 =
      .error (.resolution failure) := by decide +kernel
  have hsilent : ((resolve Machine.host ⟨"1", none, "error", some "c.json"⟩
      (fun _ => none)).run.run machine).2.output = "" := by decide +kernel
  have hline : (Trouble.resolution failure).command = line := by
    refine congrArg (Command.tell .error) (String.toList_inj.mp ?_)
    simp [failure, status, Trouble.reasons, Failure.causes, FetchError.causes]
  refine ⟨hfails, ?_, ?_⟩
  · rw [run_of_trouble hoptions (Prod.ext hfails rfl), hsilent, String.empty_append, hline]
  · rw [← hline, ne_eq, Trouble.command_eq_message]
    simp [failure, Failure.causes, status, FetchError.causes]

end CommandLine

end VersionPick
