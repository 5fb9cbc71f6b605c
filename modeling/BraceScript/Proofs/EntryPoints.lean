import BraceScript.CommandLine
import BraceScript.Proofs.Splitting

/-!
# Ways to run a source

A source can be evaluated up to its first fault (`Session.evaluate`), run with all faults reported (`Session.run`) or
run from the command line, in several formats.  All of them are determined by what evaluation comes to:
`Session.run_eq_evaluate` writes the report as a function of it, and `CommandLine.exit_run` the exit code.  So they
agree on success and failure, on the value or the fault and on the session that is left behind
(`CommandLine.agrees_evaluate`).
-/

namespace BraceScript

/-! ### Diagnostics -/

/-- What stands under a key in a document. -/
def Json.get? (key : String) : Json → Option Json
  | .object fields => fields.lookup key
  | _ => none

namespace Diagnostic

/-- The warnings about a source. -/
def cautions (source file : String) : List Diagnostic := warnings (Program.check source file).diagnostics

theorem errors_cautions (source file : String) : errors (cautions source file) = [] := by
  unfold errors cautions warnings
  rw [List.filter_filter, List.filter_eq_nil_iff]
  intro d _
  cases hseverity : d.severity <;> simp [isError, hseverity]

private theorem hasErrors_iff {ds : List Diagnostic} : hasErrors ds = true ↔ errors ds ≠ [] := by
  simp [hasErrors, errors, List.filter_eq_nil_iff]

@[simp] private theorem hasErrors_cautions (source file : String) : hasErrors (cautions source file) = false := by
  rw [Bool.eq_false_iff]
  exact fun h => hasErrors_iff.1 h (errors_cautions source file)

@[simp] theorem errors_append_ofFault (source file : String) (lines : List String) (f : Fault) :
    errors (cautions source file ++ [ofFault file lines f]) = [ofFault file lines f] := by
  unfold errors
  rw [List.filter_append]
  change errors (cautions source file) ++ _ = _
  rw [errors_cautions]
  rfl

@[simp] private theorem hasErrors_append_ofFault (source file : String) (lines : List String) (f : Fault) :
    hasErrors (cautions source file ++ [ofFault file lines f]) = true := by
  rw [hasErrors_iff, errors_append_ofFault]
  simp

/-- The status of a report says whether there are errors. -/
private theorem get?_status_report (ds : List Diagnostic) :
    (report ds).get? "status" = some (.string (if hasErrors ds then "error" else "ok")) := rfl

end Diagnostic

namespace Program

private theorem check_of_ok {source file : String} {p : Parsed} (h : parse source file = .ok p) :
    check source file = ⟨some p.program, Diagnostic.cautions source file⟩ := by
  have hcheck : check source file =
      ⟨some p.program, p.warnings.map fun w => (Diagnostic.ofWarning file w).withContext (Source.lines source)⟩ := by
    simp only [check, h]
  rw [Diagnostic.cautions, hcheck, Diagnostic.warnings, List.filter_eq_self.2]
  intro d hd
  obtain ⟨w, -, rfl⟩ := List.mem_map.1 hd
  rfl

private theorem check_of_error {source file : String} {e : ParseError} (h : parse source file = .error e) :
    check source file = ⟨none, [.ofFault file (Source.lines source) (.parse e)]⟩ := by
  simp only [check, h]

private theorem cautions_of_error {source file : String} {e : ParseError} (h : parse source file = .error e) :
    Diagnostic.cautions source file = [] := by
  rw [Diagnostic.cautions, check_of_error h]
  rfl

end Program

/-! ### Reports -/

namespace Session

private theorem execute_congr {p q : Program} (h : p.contents = q.contents) (fuel : Nat) (s : Session) :
    s.execute fuel p = s.execute fuel q := by
  unfold execute Program.run
  rw [h]

/-- Under any name, a source that is a program is evaluated by running it. -/
theorem evaluate_of_ok {source file : String} {p : Parsed} (h : Program.parse source file = .ok p) (fuel : Nat)
    (s : Session) : s.evaluate fuel source = s.execute fuel p.program := by
  obtain ⟨q, hq, hcontents⟩ := Program.parse_file h inputName
  rw [evaluate_of_parse hq]
  exact execute_congr hcontents fuel s

theorem evaluate_of_error {source file : String} {e : ParseError} (h : Program.parse source file = .error e)
    (fuel : Nat) (s : Session) : s.evaluate fuel source = some (.error (.parse e), s) := by
  rw [evaluate, Program.parse_file_error h inputName]

/-- The report of what evaluation came to. -/
def Finished.of (source file : String) : Except Fault Value × Session → Finished
  | (.ok v, s) => ⟨some v, Diagnostic.cautions source file, s⟩
  | (.error f, s) => ⟨none, Diagnostic.cautions source file ++ [.ofFault file (Source.lines source) f], s⟩

/-- Running a source reports what evaluation comes to. -/
theorem run_eq_evaluate (fuel : Nat) (source file : String) (s : Session) :
    s.run fuel source file = (s.evaluate fuel source).map (Finished.of source file) := by
  cases h : Program.parse source file with
  | ok p =>
    rw [evaluate_of_ok h, run, Program.check_of_ok h]
    dsimp only
    generalize s.execute fuel p.program = ended
    rcases ended with _ | ⟨_ | _, _⟩ <;> rfl
  | error e =>
    rw [evaluate_of_error h, run, Program.check_of_error h]
    simp [Finished.of, Program.cautions_of_error h]

end Session

/-! ### Exit codes -/

namespace CommandLine

/-- The exit code for what evaluation came to. -/
def exitOf (result : Except Fault Value × Session) : UInt32 := if result.1.isOk then 0 else 1

private theorem exitCode_of (source file : String) (result : Except Fault Value × Session) :
    exitCode (Session.Finished.of source file result).diagnostics = exitOf result := by
  obtain ⟨_ | v, s⟩ := result <;> simp [Session.Finished.of, exitCode, exitOf, Except.isOk, Except.toBool]

/-- In a report, the status is "ok" exactly if the exit code is 0. -/
private theorem status_iff (ds : List Diagnostic) :
    (Diagnostic.report ds).get? "status" = some (.string "ok") ↔ exitCode ds = 0 := by
  rw [Diagnostic.get?_status_report, exitCode]
  cases Diagnostic.hasErrors ds <;> simp

private theorem exit_runReported (fuel : Nat) (source file : String) (format : Format) (s : Session) :
    (runReported fuel source file format s).map Answer.exit = (s.evaluate fuel source).map exitOf := by
  unfold runReported
  rw [Session.run_eq_evaluate, Option.map_map, Option.map_map]
  congr 1
  funext result
  rw [← exitCode_of source file result]
  cases format <;> rfl

/-- A source that was rejected is rejected again for the same reason. -/
private theorem exit_runFancy (fuel : Nat) (source file : String) (s : Session) :
    (runFancy fuel source file s).map Answer.exit = (s.evaluate fuel source).map exitOf := by
  unfold runFancy
  cases h : Program.parse source file with
  | ok p =>
    rw [Session.evaluate_of_ok h, Program.check_of_ok h]
    dsimp only
    generalize s.execute fuel p.program = ended
    rcases ended with _ | ⟨_ | _, _⟩ <;> rfl
  | error e =>
    rw [Session.evaluate_of_error h, Program.check_of_error h]
    simp only [reread, h]
    rfl

/-- Whatever the format, the exit code says whether evaluation succeeds. -/
theorem exit_run {w : World} {source file : String} {explicit : Option String} {config : Config}
    (hsource : readSource w file = .ok source) (hconfig : configFor w file explicit = .ok config) (fuel : Nat)
    (format : Format) : (run fuel w file format explicit).map Answer.exit =
      ((Session.ofConfig config w.now .empty).evaluate fuel source).map exitOf := by
  simp only [run, hsource, hconfig]
  cases format with
  | fancy => exact exit_runFancy fuel source file _
  | human => exact exit_runReported fuel source file .human _
  | json => exact exit_runReported fuel source file .json _

/-- In JSON format, the report follows what the run has printed. -/
private theorem run_json {w : World} {source file : String} {explicit : Option String} {config : Config}
    (hsource : readSource w file = .ok source) (hconfig : configFor w file explicit = .ok config) (fuel : Nat) :
    run fuel w file .json explicit = ((Session.ofConfig config w.now .empty).run fuel source file).map fun r =>
      ⟨r.session.output.textFrom 0 ++ reportText r.diagnostics, "", exitCode r.diagnostics⟩ := by
  simp only [run, hsource, hconfig]
  rfl

/-- The ways to run a source agree.  Evaluating it succeeds exactly if running it gives the same value and reports no
error; it fails exactly if running it gives no value and one error, the last diagnostic, which is that of the fault;
and the sessions afterwards, with their output and their scopes, are the same.  From the command line, once the
source and the configuration have been found, the exit code is in every format 0 if evaluation succeeds and 1 if it
fails.  The status in a JSON report is "ok" exactly if the exit code is 0, also if the source is only checked. -/
theorem agrees_evaluate (fuel : Nat) (source file : String) :
    (∀ s : Session,
      (s.evaluate fuel source = none ↔ s.run fuel source file = none) ∧
      (∀ v t, s.evaluate fuel source = some (.ok v, t) ↔
        ∃ ds, s.run fuel source file = some ⟨some v, ds, t⟩ ∧ Diagnostic.hasErrors ds = false) ∧
      ∀ d t, (∃ e, s.evaluate fuel source = some (.error e, t) ∧ d = .ofFault file (Source.lines source) e) ↔
        ∃ ds, s.run fuel source file = some ⟨none, ds, t⟩ ∧ Diagnostic.errors ds = [d] ∧ ds.getLast? = some d) ∧
    (∀ w explicit config, readSource w file = .ok source → configFor w file explicit = .ok config →
      (∀ format, (run fuel w file format explicit).map Answer.exit =
        ((Session.ofConfig config w.now .empty).evaluate fuel source).map fun result =>
          if result.1.isOk then 0 else 1) ∧
      ∀ answer, run fuel w file .json explicit = some answer →
        ∃ r, (Session.ofConfig config w.now .empty).run fuel source file = some r ∧
          answer.stdout = r.session.output.textFrom 0 ++ reportText r.diagnostics ∧
          ((Diagnostic.report r.diagnostics).get? "status" = some (.string "ok") ↔ answer.exit = 0)) ∧
    (check source file .json).stdout = reportText (Program.check source file).diagnostics ∧
    ((Diagnostic.report (Program.check source file).diagnostics).get? "status" = some (.string "ok") ↔
      (check source file .json).exit = 0) := by
  refine ⟨fun s => ⟨?_, fun v t => ?_, fun d t => ?_⟩, fun w explicit config hsource hconfig => ⟨?_, ?_⟩, rfl, ?_⟩
  · rw [Session.run_eq_evaluate, Option.map_eq_none_iff]
  · rw [Session.run_eq_evaluate]
    constructor
    · intro h
      rw [h]
      exact ⟨_, rfl, Diagnostic.hasErrors_cautions source file⟩
    · rintro ⟨ds, h, -⟩
      obtain ⟨⟨_ | w, u⟩, hresult, hof⟩ := Option.map_eq_some_iff.1 h
      · cases hof
      · cases hof
        exact hresult
  · rw [Session.run_eq_evaluate]
    constructor
    · rintro ⟨e, h, rfl⟩
      rw [h]
      exact ⟨_, rfl, by simp, by simp⟩
    · rintro ⟨ds, h, herrors, hlast⟩
      obtain ⟨⟨e | w, u⟩, hresult, hof⟩ := Option.map_eq_some_iff.1 h
      · cases hof
        refine ⟨e, hresult, ?_⟩
        simpa using hlast.symm
      · cases hof
  · exact exit_run hsource hconfig fuel
  · intro answer hanswer
    rw [run_json hsource hconfig] at hanswer
    obtain ⟨r, hr, rfl⟩ := Option.map_eq_some_iff.1 hanswer
    exact ⟨r, hr, rfl, status_iff r.diagnostics⟩
  · exact status_iff _

private def lateText : String := "let x: Shape = 1; fn f() -> i32 \x7b ret y; \x7d x + f();"

/-- A single script and no configuration. -/
private def lateWorld : World :=
  ⟨fun path => if path = "late.wal" then .text lateText else .missing "no such file", 0⟩

/-- The code of the fault that evaluating the script ends with. -/
private def lateCode : Option String :=
  match (Session.ofConfig .default 0 .empty).evaluate 40 lateText with
  | some (.error e, _) => some e.code
  | _ => none

private theorem evaluate_late :
    ∃ e t, (Session.ofConfig .default 0 .empty).evaluate 40 lateText = some (.error e, t) := by
  have hcode : lateCode = some "E201" := by decide +kernel
  unfold lateCode at hcode
  split at hcode
  · exact ⟨_, _, ‹_›⟩
  · cases hcode

/-- A script with a warning that fails in a call. -/
theorem agrees_evaluate_late : readSource lateWorld "late.wal" = .ok lateText ∧
    configFor lateWorld "late.wal" none = .ok .default ∧
    ∀ format, (run 40 lateWorld "late.wal" format none).map Answer.exit = some 1 := by
  have hsource : readSource lateWorld "late.wal" = .ok lateText := rfl
  have hconfig : configFor lateWorld "late.wal" none = .ok .default := rfl
  refine ⟨hsource, hconfig, fun format => ?_⟩
  obtain ⟨-, hrun, -⟩ := agrees_evaluate 40 lateText "late.wal"
  obtain ⟨e, t, hevaluate⟩ := evaluate_late
  rw [(hrun lateWorld none .default hsource hconfig).1 format]
  change ((Session.ofConfig .default 0 .empty).evaluate 40 lateText).map _ = some 1
  rw [hevaluate]
  rfl

end CommandLine

end BraceScript
