import BraceScript.Config
import BraceScript.Diagnostic
import BraceScript.Eval.Program

/-!
# Checking and running sources

`Program.check` reads a source and reports what is wrong with it.  `Session.evaluate` runs a source and stops at the
first fault; `Session.run` does the same and reports the fault as a diagnostic.  Both answer nothing if the fuel does
not suffice.
-/

namespace BraceScript

/-- A program, if the source is one, and the diagnostics about it. -/
structure Checked where
  program : Option Program
  diagnostics : List Diagnostic

/-- Reads a source. -/
def Program.check (source file : String) : Checked :=
  let lines := Source.lines source
  match Program.parse source file with
  | .ok p => ⟨some p.program, p.warnings.map fun w => (Diagnostic.ofWarning file w).withContext lines⟩
  | .error e => ⟨none, [Diagnostic.ofFault file lines (.parse e)]⟩

namespace Session

/-- A session in which nothing has been declared. -/
def fresh (builtins : Registry) (maxDepth : Nat) (output : Output) : Session where
  scopes := .initial
  builtins := builtins
  output := output
  maxDepth := maxDepth
  depth := 0
  history e := e = .state .initial 0
  recorded := rfl
  timeline := .of [.state .initial 0]
  timed _ := by rw [Ghost.get_of, List.mem_singleton]

/-- The session that a configuration asks for; `now` is the reading of the clock. -/
def ofConfig (config : Config) (now : Nat) (output : Output) : Session :=
  fresh (config.disabled.foldl Registry.remove (.default now)) (Config.clampDepth config.maxCallDepth) output

/-- Runs a program. -/
def execute (fuel : Nat) (p : Program) (s : Session) : Option (Except Fault Value × Session) :=
  match p.run fuel s with
  | .done v s => some (.ok v, s)
  | .failed e s => some (.error (.runtime e), s)
  | .exhausted _ => none

/-- The file name of a source that stands in no file. -/
def inputName : String := "<input>"

/-- Reads and runs a source. -/
def evaluate (fuel : Nat) (source : String) (s : Session) : Option (Except Fault Value × Session) :=
  match Program.parse source inputName with
  | .ok p => s.execute fuel p.program
  | .error e => some (.error (.parse e), s)

/-- What running a source came to. -/
structure Finished where
  value : Option Value
  diagnostics : List Diagnostic
  session : Session

/-- Reads and runs a source, and reports all that is wrong with it. -/
def run (fuel : Nat) (source file : String) (s : Session) : Option Finished :=
  match Program.check source file with
  | ⟨none, diagnostics⟩ => some ⟨none, diagnostics, s⟩
  | ⟨some p, diagnostics⟩ =>
    match s.execute fuel p with
    | none => none
    | some (.ok v, s) => some ⟨some v, diagnostics, s⟩
    | some (.error f, s) => some ⟨none, diagnostics ++ [.ofFault file (Source.lines source) f], s⟩

end Session

end BraceScript
