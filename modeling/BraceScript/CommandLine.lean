import BraceScript.CommandLine.Arguments
import BraceScript.Config
import BraceScript.Run

/-!
# The command line

`CommandLine.perform` carries out a request: it is given what the files hold and the time of day, and answers with
the two output texts and the exit code.  The exit code is 0 if all is well, 1 if the script is at fault, and 2 if a
file or the command line is.
-/

namespace BraceScript

/-- What is found under a path. -/
inductive FileState where
  /-- There is nothing. -/
  | missing (reason : String)
  /-- There is something that is no text. -/
  | unreadable (reason : String)
  | text (content : String)
deriving DecidableEq, Repr

/-- What a command prints and how it exits. -/
structure Answer where
  stdout : String
  stderr : String
  exit : UInt32
deriving DecidableEq, Repr

/-- All that a command can see: the files, and the time in seconds after the epoch. -/
structure World where
  file : String → FileState
  now : Nat

namespace CommandLine

/-- An answer that only complains. -/
def complaint (exit : UInt32) (text : String) : Answer := ⟨"", "error: " ++ text ++ "\n", exit⟩

/-- The content of a script. -/
def readSource (w : World) (file : String) : Except Answer String :=
  match w.file file with
  | .text content => .ok content
  | .missing reason | .unreadable reason =>
    .error (complaint 2 ("Failed to read file '" ++ file ++ "': " ++ reason))

/-! ### Configuration -/

/-- The configuration in a file. -/
def loadConfig (w : World) (path : String) : Except ConfigError Config :=
  match w.file path with
  | .text content => Config.ofToml content path
  | .missing reason | .unreadable reason => .error (.read path reason)

/-- The configuration for a script: the one named, or the one next to it, or the default. -/
def configFor (w : World) (file : String) (explicit : Option String) : Except ConfigError Config :=
  match explicit with
  | some path => loadConfig w path
  | none =>
    let path := Path.inside (Path.parent file) Config.fileName
    match w.file path with
    | .missing _ => .ok .default
    | _ => loadConfig w path

/-! ### Summaries -/

def plural (n : Nat) : String := if n = 1 then "" else "s"

/-- How many errors and warnings there are. -/
def countSummary (ds : List Diagnostic) : String :=
  let errors := (Diagnostic.errors ds).length
  let warnings := (Diagnostic.warnings ds).length
  toString errors ++ " previous error" ++ plural errors ++
    (if 0 < warnings then "; " ++ toString warnings ++ " warning" ++ plural warnings ++ " emitted" else "")

def drawings (ds : List Diagnostic) : String := String.join (ds.map Diagnostic.drawing)

/-- The last line about a script that has errors. -/
def failure (verb file : String) (ds : List Diagnostic) : String :=
  if Diagnostic.hasErrors ds then
    "error: could not " ++ verb ++ " `" ++ file ++ "` due to " ++ countSummary ds ++ "\n"
  else ""

def exitCode (ds : List Diagnostic) : UInt32 := if Diagnostic.hasErrors ds then 1 else 0

/-- Diagnostics as a JSON document. -/
def reportText (ds : List Diagnostic) : String := (Diagnostic.report ds).pretty ++ "\n"

/-! ### Commands -/

/-- Runs a source and reports at the end. -/
def runReported (fuel : Nat) (source file : String) (format : Format) (s : Session) : Option Answer :=
  (s.run fuel source file).map fun r =>
    let printed := r.session.output.textFrom 0
    match format with
    | .json => ⟨printed ++ reportText r.diagnostics, "", exitCode r.diagnostics⟩
    | _ => ⟨printed, drawings r.diagnostics ++ failure "run" file r.diagnostics, exitCode r.diagnostics⟩

/-- Reads a source once more for the fault that it was rejected for. -/
def reread (source file : String) : Except Fault Value :=
  match Program.parse source file with
  | .ok _ => .ok .null
  | .error e => .error (.parse e)

/-- Runs a source up to the first fault, which is drawn last. -/
def runFancy (fuel : Nat) (source file : String) (s : Session) : Option Answer :=
  let checked := Program.check source file
  let warned := drawings (Diagnostic.warnings checked.diagnostics)
  let ended :=
    match checked.program with
    | some p => s.execute fuel p
    | none => some (reread source file, s)
  ended.map fun (result, s) =>
    let printed := s.output.textFrom 0
    match result with
    | .ok _ => ⟨printed, warned, 0⟩
    | .error f => ⟨printed, warned ++ (Diagnostic.ofFault file (Source.lines source) f).drawing, 1⟩

/-- Runs a script. -/
def run (fuel : Nat) (w : World) (file : String) (format : Format) (config : Option String) : Option Answer :=
  match readSource w file with
  | .error a => some a
  | .ok source =>
    match configFor w file config with
    | .error e => some (complaint 2 e.message)
    | .ok config =>
      let s := Session.ofConfig config w.now .empty
      match format with
      | .fancy => runFancy fuel source file s
      | _ => runReported fuel source file format s

/-- The last line about a script that is in order. -/
def success (file : String) (ds : List Diagnostic) : String :=
  match (Diagnostic.warnings ds).length with
  | 0 => "Finished `" ++ file ++ "` validated successfully\n"
  | n => "Finished `" ++ file ++ "` validated with " ++ toString n ++ " warning" ++ plural n ++ "\n"

/-- Checks a source. -/
def check (source file : String) (format : Format) : Answer :=
  let ds := (Program.check source file).diagnostics
  match format with
  | .json => ⟨reportText ds, "", exitCode ds⟩
  | _ =>
    if Diagnostic.hasErrors ds then ⟨drawings ds, failure "validate" file ds, exitCode ds⟩
    else ⟨drawings ds ++ success file ds, "", exitCode ds⟩

/-- Prints the syntax tree of a source. -/
def parse (source file : String) : Answer :=
  let checked := Program.check source file
  match checked.program with
  | some p => ⟨(p.toJson .bare).pretty ++ "\n", drawings checked.diagnostics, 0⟩
  | none => ⟨"", drawings checked.diagnostics, 1⟩

/-- A token with its line and column. -/
def tokenLine (t : Token) : String :=
  Diagnostic.padLeft 4 (toString t.span.start.line) ++ ":" ++ Diagnostic.padRight 4 (toString t.span.start.column)
    ++ " " ++ t.display ++ "\n"

/-- Prints the tokens of a source. -/
def tokens (source file : String) : Answer :=
  match Token.tokenize source with
  | .ok ts => ⟨String.join (ts.map tokenLine), "", 0⟩
  | .error e => ⟨"", (Diagnostic.ofFault file (Source.lines source) (.parse (.lexical e))).drawing, 1⟩

/-! ### Help -/

/-- What a command does. -/
def purpose : Command → String
  | .run => "Run a walrus script"
  | .check => "Check a script for lexical and syntax errors without running it"
  | .parse => "Parse a file and print the AST as JSON (for debugging)"
  | .tokens => "Print the token stream of a file (for debugging)"

def helpPurpose : String := "Print this message or the help of the given subcommand(s)"

/-- Pairs of a term and its explanation, which start in the same column. -/
def glossary (entries : List (String × String)) : String :=
  let width := entries.foldl (fun n e => max n e.1.length) 0
  String.join (entries.map fun (term, text) => "  " ++ Diagnostic.padRight width term ++ "  " ++ text ++ "\n")

def verboseEntry : String × String := ("-v, --verbose", "Verbose mode - log interpreter phases to stderr")

def helpEntry : String × String := ("-h, --help", "Print help")

/-- The options of a command. -/
def optionEntries (c : Command) : List (String × String) :=
  (if c.hasFormat then
    [("-f, --format <FORMAT>",
      "Output format for diagnostics [default: human] [possible values: human, fancy, json]")]
  else []) ++ [verboseEntry] ++
  (if c.hasConfig then
    [("-c, --config <CONFIG>", "Configuration file (defaults to walrus.toml next to the script)")]
  else []) ++ [helpEntry]

/-- How the program or a command is used. -/
def usage : Topic → String
  | .program =>
    "A small statically typed scripting language\n\nUsage: walrus [OPTIONS] <COMMAND>\n\nCommands:\n" ++
      glossary (Command.all.map (fun c => (c.name, purpose c)) ++ [("help", helpPurpose)]) ++
      "\nOptions:\n" ++ glossary [verboseEntry, helpEntry, ("-V, --version", "Print version")]
  | .command c =>
    purpose c ++ "\n\nUsage: walrus " ++ c.name ++ " [OPTIONS] <FILE>\n\nArguments:\n" ++
      glossary [("<FILE>", "Path to the .wal file")] ++ "\nOptions:\n" ++ glossary (optionEntries c)
  | .help =>
    helpPurpose ++ "\n\nUsage: walrus help [COMMAND]...\n\nArguments:\n" ++
      glossary [("[COMMAND]...", "Print help for the subcommand(s)")]

/-! ### Requests -/

/-- The paths at which a request may look for files. -/
def paths : Request → List String
  | .perform .run file _ (some config) => [file, config]
  | .perform .run file _ none => [file, Path.inside (Path.parent file) Config.fileName]
  | .perform _ file _ _ => [file]
  | _ => []

/-- Carries out a request.  There is no answer if the fuel does not suffice for a script. -/
def perform (fuel : Nat) (w : World) : Request → Option Answer
  | .version => some ⟨"walrus 0.1.0\n", "", 0⟩
  | .help topic => some ⟨usage topic, "", 0⟩
  | .misuse => some ⟨"", usage .program, 2⟩
  | .perform .run file format config => run fuel w file format config
  | .perform command file format _ =>
    match readSource w file with
    | .error a => some a
    | .ok source =>
      match command with
      | .parse => some (parse source file)
      | .tokens => some (tokens source file)
      | _ => some (check source file format)

end CommandLine

end BraceScript
