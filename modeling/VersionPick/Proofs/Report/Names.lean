/-
What a resolution names, it names in the words of the user. A specifier is
classified without loss, so the failure for want of a match, the warnings and
the nightly builds among the versions all say the very text that was given
(`Specifier.classify_faithful`); and a text that is refused is refused as it
was given.
-/
import VersionPick.Proofs.Report.Alignment
import VersionPick.Proofs.Specifier.Classes

namespace VersionPick

open Text

/-- The texts that an input gives, as its scalars say. -/
def Inputs.Gives (inputs : Inputs) (texts : List String) : Prop :=
  Yaml.readScalars? (trim inputs.version.toList) = some (texts.map String.toList)

/-- A report that names the texts that were given. -/
structure Report.Names (r : Report) (texts : List String) : Prop where
  missing : r.missing = ((texts.zip r.version).filter (·.2.isNone)).map (·.1)
  warnings : r.warnings = r.missing.map fun text => Command.tell .warning (Failure.noMatch text).message
  nightly : List.Forall₂ (fun text entry => ∀ branch, Specifier.classify text = .nightly branch →
    entry = none ∨ entry = some text) texts r.version

namespace Specifier

theorem ofScalar_eq_ok {cs : List Char} {s : Specifier} :
    ofScalar cs = .ok s ↔ isSpecifier cs = true ∧ classify (String.ofList cs) = s := by
  unfold ofScalar
  split <;> simp [*]

theorem ofScalar_eq_error {cs : List Char} {fault : InputError} :
    ofScalar cs = .error fault ↔ isSpecifier cs = false ∧ fault = .notSpecifier (String.ofList cs) := by
  unfold ofScalar
  split <;> simp [*, eq_comm]

end Specifier

namespace Inputs.Gives

variable {inputs : Inputs} {texts : List String} (h : inputs.Gives texts)
include h

theorem listOfInput_eq :
    Specifier.listOfInput inputs.version = (texts.map String.toList).mapM Specifier.ofScalar := by
  unfold Inputs.Gives at h
  rw [Specifier.listOfInput, h]

theorem classify_of_listOfInput {specifiers : List Specifier}
    (hlist : Specifier.listOfInput inputs.version = .ok specifiers) : specifiers = texts.map Specifier.classify := by
  rw [h.listOfInput_eq, mapM_eq_ok, List.forall₂_map_left_iff] at hlist
  rw [← List.forall₂_eq_eq_eq, List.forall₂_map_right_iff]
  refine hlist.flip.imp fun s text hs => ?_
  have hclass := (Specifier.ofScalar_eq_ok.mp hs).2
  rwa [String.ofList_toList, eq_comm] at hclass

theorem refused_of_listOfInput {fault : InputError} (hlist : Specifier.listOfInput inputs.version = .error fault) :
    ∃ text ∈ texts, Specifier.isSpecifier text.toList = false ∧ fault = .notSpecifier text := by
  rw [h.listOfInput_eq] at hlist
  obtain ⟨cs, hcs, he⟩ := exists_of_mapM_eq_error hlist
  obtain ⟨text, htext, rfl⟩ := List.mem_map.mp hcs
  obtain ⟨hrefused, hfault⟩ := Specifier.ofScalar_eq_error.mp he
  exact ⟨text, htext, hrefused, by rw [hfault, String.ofList_toList]⟩

end Inputs.Gives

theorem Known.Fills.nightly_entry {known : Known} {policy : Policy} {s : Specifier} {entry : Option String}
    (h : known.Fills policy s entry) {branch : Option String} (hs : s = .nightly branch) :
    entry = none ∨ entry = some s.text := by
  cases h with
  | gap _ _ => exact .inl rfl
  | nightly branch => exact .inr rfl
  | pinned _ _ => cases hs
  | listed _ hnightly _ => exact absurd hs (hnightly branch)

/-- Who is without a match is a specifier, and named by its text. -/
theorem Stage.Fails.noMatch_text {e : Environment} {script : Script} {lts : Range} {policy : Policy}
    {asked : List Effect} {stage : Stage} {text : String}
    (h : Stage.Fails e script lts policy asked stage (.noMatch text)) : ∃ s, stage = .specifier s ∧ s.text = text := by
  cases h with
  | compat h => exact absurd (Tree.isOfProject_of_compat h) nofun
  | pin h => exact absurd (Tree.isOfProject_of_pin h) nofun
  | unpublished _ _ => exact ⟨_, rfl, rfl⟩
  | noMatch _ _ _ => exact ⟨_, rfl, rfl⟩

/-- No stage looks at the inputs. -/
theorem Stage.Fails.ne_input {e : Environment} {script : Script} {lts : Range} {policy : Policy}
    {asked : List Effect} {stage : Stage} {fault : InputError} :
    ¬ Stage.Fails e script lts policy asked stage (.input fault) := by
  intro h
  cases h with
  | compat h => exact absurd (Tree.isOfProject_of_compat h) nofun
  | pin h => exact absurd (Tree.isOfProject_of_pin h) nofun

theorem Policy.exists_of_ofInput_eq_error {raw : String} {fault : InputError} (h : ofInput raw = .error fault) :
    ∃ value, fault = .notPolicy value := by
  simp only [ofInput, ofName] at h
  split_ifs at h
  cases h
  exact ⟨_, rfl⟩

namespace Environment

variable {e : Environment} {script : Script} {lts : Range} {policy : Policy} {specifiers : List Specifier}

theorem exists_fills_of_batch {resolved : List (Option String)} {record : List Effect}
    (h : e.batch script lts policy specifiers = (.ok resolved, record)) :
    ∃ known : Known, List.Forall₂ (known.Fills policy) specifiers resolved := by
  obtain ⟨known, _, -, hpick⟩ := run_bind_eq_ok.mp h
  exact ⟨known, Sources.forall₂_fills hpick⟩

/-- A batch fails as one of its stages does. -/
theorem exists_fails_of_batch {failure : Failure} {record : List Effect}
    (h : e.batch script lts policy specifiers = (.error failure, record)) :
    ∃ stage ∈ Stage.of specifiers, ∃ asked, Stage.Fails e script lts policy asked stage failure := by
  have hgoes := (resolve_goesThrough specifiers : GoesThrough (Stage.Fails e script lts policy) _ _) []
  unfold batch at h
  rw [h] at hgoes
  exact hgoes.exists_fails

theorem batch_ne_input {fault : InputError} {record : List Effect} :
    e.batch script lts policy specifiers ≠ (.error (.input fault), record) := by
  intro h
  obtain ⟨stage, -, asked, hfails⟩ := exists_fails_of_batch h
  exact hfails.ne_input

theorem mem_of_batch_noMatch {text : String} {record : List Effect}
    (h : e.batch script lts policy specifiers = (.error (.noMatch text), record)) :
    text ∈ specifiers.map Specifier.text := by
  obtain ⟨stage, hstage, asked, hfails⟩ := exists_fails_of_batch h
  obtain ⟨s, rfl, rfl⟩ := hfails.noMatch_text
  refine List.mem_map.mpr ⟨s, ?_, rfl⟩
  simpa [Stage.of, Stage.preparation, Stage.mem_loads] using hstage

/-- A report on given texts names them. -/
theorem names_of_batch {texts : List String} {resolved : List (Option String)} {record : List Effect}
    (h : e.batch script lts policy (texts.map Specifier.classify) = (.ok resolved, record)) :
    (Report.ofSpecifiers (texts.map Specifier.classify) resolved).Names texts := by
  obtain ⟨known, hfills⟩ := exists_fills_of_batch h
  refine ⟨?_, rfl, ?_⟩
  · change Report.missingOf (texts.map Specifier.classify) resolved = _
    rw [Report.missingOf_eq, List.zip_map_left, List.filter_map, List.map_map]
    exact List.map_congr_left fun pair _ => Specifier.text_classify pair.1
  · refine (List.forall₂_map_left_iff.mp hfills).imp fun text entry hfill branch hclass => ?_
    simpa only [Specifier.text_classify] using hfill.nightly_entry hclass

/-- A run that is given texts refuses one of them, or the policy, or else is a
batch of what they are classified as. -/
theorem report_of_gives {inputs : Inputs} {texts : List String} (h : inputs.Gives texts) :
    (∃ text ∈ texts, Specifier.isSpecifier text.toList = false ∧
      e.report script lts inputs = (.error (.input (.notSpecifier text)), [])) ∨
    (∃ value, e.report script lts inputs = (.error (.input (.notPolicy value)), [])) ∨
    ∃ policy, e.report script lts inputs =
      ((e.batch script lts policy (texts.map Specifier.classify)).1.map (.ofSpecifiers (texts.map Specifier.classify)),
        (e.batch script lts policy (texts.map Specifier.classify)).2) := by
  cases hlist : Specifier.listOfInput inputs.version with
  | error fault =>
    obtain ⟨text, htext, hrefused, rfl⟩ := h.refused_of_listOfInput hlist
    exact .inl ⟨text, htext, hrefused, report_of_not_read (by rw [Inputs.read, hlist])⟩
  | ok specifiers =>
    obtain rfl := h.classify_of_listOfInput hlist
    cases hpolicy : Policy.ofInput inputs.ifMissing with
    | error fault =>
      obtain ⟨value, rfl⟩ := Policy.exists_of_ofInput_eq_error hpolicy
      exact .inr (.inl ⟨value, report_of_not_read (by simp only [Inputs.read, hlist, hpolicy])⟩)
    | ok policy => exact .inr (.inr ⟨policy, report_of_read (Inputs.read_eq_ok.mpr ⟨hlist, hpolicy⟩)⟩)

end Environment

/-- **Classifying a text loses nothing of it.** The text of a class is the one
that was classified, so texts of one class are the same. What users may write
has the class that the grammar dictates, and nothing else has one there. So a
run that is given texts tells no others: the specifier that is refused, the one
without a match, those that the warnings are about and the nightly builds that
are found are among the texts, each as it was given. -/
theorem Specifier.classify_faithful :
    (∀ raw, (classify raw).text = raw) ∧ Function.Injective classify ∧
    (∀ (raw : String) (s : Specifier), Dictates raw.toList s ↔ isSpecifier raw.toList = true ∧ classify raw = s) ∧
    ∀ (e : Environment) (script : Script) (lts : Range) (inputs : Inputs) (texts : List String) (record : List Effect),
      inputs.Gives texts →
      (∀ text, e.report script lts inputs = (.error (.input (.notSpecifier text)), record) →
        text ∈ texts ∧ isSpecifier text.toList = false) ∧
      (∀ text, e.report script lts inputs = (.error (.noMatch text), record) → text ∈ texts) ∧
      ∀ report, e.report script lts inputs = (.ok report, record) → report.Names texts := by
  refine ⟨text_classify, fun raw raw' he => ?_, fun raw s => ?_, fun e script lts inputs texts record hgives => ?_⟩
  · rw [← text_classify raw, he, text_classify]
  · rw [dictates_iff, String.ofList_toList]
  · rcases Environment.report_of_gives hgives with
      ⟨given, hgiven, hrefused, hreport⟩ | ⟨value, hreport⟩ | ⟨policy, hreport⟩
    · rw [hreport]
      refine ⟨fun text he => ?_, fun text he => ?_, fun report he => ?_⟩
      all_goals cases he
      exact ⟨hgiven, hrefused⟩
    · simp [hreport]
    · rw [hreport]
      rcases hbatch : e.batch script lts policy (texts.map classify) with ⟨result, record'⟩
      cases result with
      | ok resolved =>
        refine ⟨fun text he => ?_, fun text he => ?_, fun report he => ?_⟩
        all_goals cases he
        exact Environment.names_of_batch hbatch
      | error failure =>
        refine ⟨fun text he => ?_, fun text he => ?_, fun report he => ?_⟩
        all_goals cases he
        · exact absurd hbatch Environment.batch_ne_input
        · simpa [text_classify] using Environment.mem_of_batch_noMatch hbatch

/-- A nightly build that is found among two that are warned about; under the
other policy the first of them is an error, and an alias that users may not
write is refused. -/
theorem Specifier.classify_faithful_nightlies : ∃ (e : Environment) (script : Script) (report : Report)
    (record asked : List Effect),
    (⟨"[1.12-nightly, 01.10, 1.13-nightly]", "warn"⟩ : Inputs).Gives ["1.12-nightly", "01.10", "1.13-nightly"] ∧
    e.report script .any ⟨"[1.12-nightly, 01.10, 1.13-nightly]", "warn"⟩ = (.ok report, record) ∧
    report.version = [some "1.12-nightly", none, none] ∧
    report.Names ["1.12-nightly", "01.10", "1.13-nightly"] ∧
    e.report script .any ⟨"[1.12-nightly, 01.10, 1.13-nightly]", "error"⟩ = (.error (.noMatch "01.10"), asked) ∧
    "01.10" ∈ ["1.12-nightly", "01.10", "1.13-nightly"] ∧
    e.report script .any ⟨"[1.10, pre]", ""⟩ = (.error (.input (.notSpecifier "pre")), []) ∧
    "pre" ∈ ["1.10", "pre"] ∧ isSpecifier "pre".toList = false ∧
    Dictates "01.10".toList (.range "01.10") := by
  let e : Environment := {
    tree := .empty
    project := "."
    catalogue := .ok (.ofList [("1.10.5", ⟨[], true⟩)])
    nightly := fun _ => .ok false }
  let script : Script := fun _ branch => .ok (branch == "1.12")
  have hgives : ∀ policy, (⟨"[1.12-nightly, 01.10, 1.13-nightly]", policy⟩ : Inputs).Gives
      ["1.12-nightly", "01.10", "1.13-nightly"] := fun _ => by
    have hread : Yaml.readScalars? (trim "[1.12-nightly, 01.10, 1.13-nightly]".toList) =
      some (["1.12-nightly", "01.10", "1.13-nightly"].map String.toList) := by decide +kernel
    exact hread
  have hpre : (⟨"[1.10, pre]", ""⟩ : Inputs).Gives ["1.10", "pre"] := by
    unfold Inputs.Gives
    decide +kernel
  have hwarn : (e.report script .any ⟨"[1.12-nightly, 01.10, 1.13-nightly]", "warn"⟩).1.map (·.version) =
      .ok [some "1.12-nightly", none, none] := by decide +kernel
  have herror : (e.report script .any ⟨"[1.12-nightly, 01.10, 1.13-nightly]", "error"⟩).1 =
      .error (.noMatch "01.10") := by decide +kernel
  have hrefused : e.report script .any ⟨"[1.10, pre]", ""⟩ = (.error (.input (.notSpecifier "pre")), []) := by
    decide +kernel
  obtain ⟨-, -, hdictates, hnames⟩ := classify_faithful
  rcases hrun : e.report script .any ⟨"[1.12-nightly, 01.10, 1.13-nightly]", "warn"⟩ with ⟨result, record⟩
  rcases hstop : e.report script .any ⟨"[1.12-nightly, 01.10, 1.13-nightly]", "error"⟩ with ⟨stopped, asked⟩
  rw [hrun] at hwarn
  rw [hstop] at herror
  obtain rfl : stopped = .error (.noMatch "01.10") := herror
  cases result with
  | error failure => cases hwarn
  | ok report =>
    have hversion : report.version = [some "1.12-nightly", none, none] := Except.ok.inj hwarn
    have hreport := (hnames e script .any _ _ _ (hgives "warn")).2.2 report hrun
    have hmem := (hnames e script .any _ _ _ (hgives "error")).2.1 "01.10" hstop
    obtain ⟨hpremem, hprerefused⟩ := (hnames e script .any _ _ _ hpre).1 "pre" hrefused
    refine ⟨e, script, report, record, asked, hgives "warn", hrun, hversion, hreport, hstop, hmem, hrefused, hpremem,
      hprerefused, (hdictates "01.10" (.range "01.10")).mpr ⟨by decide, by decide⟩⟩

end VersionPick
