import BraceScript.Fault
import BraceScript.Syntax.Tree

/-!
# Diagnostics

A `Diagnostic` records a fault or a warning with the file and the line that it is about.  Diagnostics are shown in
one line (`Diagnostic.summary`), drawn under the source line (`Diagnostic.drawing`), or collected in a JSON report
(`Diagnostic.report`).
-/

namespace BraceScript

inductive Severity where
  | error | warning
deriving DecidableEq, Repr

def Severity.name : Severity → String
  | error => "error"
  | warning => "warning"

/-- A message about a place in a file. -/
structure Diagnostic where
  severity : Severity
  code : String
  message : String
  file : String
  span : Span
  /-- The source line on which the span starts. -/
  context : Option String
  hints : List String
deriving DecidableEq, Repr

namespace Diagnostic

/-- The line of a source on which a span starts. -/
def contextIn (lines : List String) (span : Span) : Option String := Source.lineAt? lines span.start.line

/-- The record of a fault in a file with the given lines. -/
def ofFault (file : String) (lines : List String) (f : Fault) : Diagnostic where
  severity := .error
  code := f.code
  message := f.message
  file := file
  span := f.span
  context := contextIn lines f.span
  hints := f.hints

/-- The record of a warning, without context. -/
def ofWarning (file : String) (w : SyntaxWarning) : Diagnostic where
  severity := .warning
  code := w.cause.code
  message := w.cause.message
  file := file
  span := w.span
  context := none
  hints := []

/-- The diagnostic with the line it is about. -/
def withContext (lines : List String) (d : Diagnostic) : Diagnostic := { d with context := contextIn lines d.span }

def isError (d : Diagnostic) : Bool := d.severity = .error

def errors (ds : List Diagnostic) : List Diagnostic := ds.filter isError

def warnings (ds : List Diagnostic) : List Diagnostic := ds.filter (·.severity = .warning)

def hasErrors (ds : List Diagnostic) : Bool := ds.any isError

/-! ### Text -/

/-- The diagnostic in one line. -/
def summary (d : Diagnostic) : String :=
  d.severity.name ++ "[" ++ d.code ++ "]: " ++ d.message ++ " at " ++ d.file ++ ":" ++
    toString d.span.start.line ++ ":"
    ++ toString d.span.start.column

/-- The column at which the underline starts. -/
def underlineStart (d : Diagnostic) : Nat := max d.span.start.column 1

/-- The number of characters underlined in the line `context`: those of the span, or the rest of the line if the span
goes on. -/
def underlineWidth (d : Diagnostic) (context : String) : Nat :=
  if d.span.stop.line = d.span.start.line then max (d.span.stop.column - d.underlineStart) 1
  else max (context.length - (d.underlineStart - 1)) 1

def blanks (n : Nat) : String := String.ofList (List.replicate n ' ')

/-- The text after as many blanks as it takes to fill `width` columns. -/
def padLeft (width : Nat) (text : String) : String := blanks (width - text.length) ++ text

/-- The text before as many blanks as it takes to fill `width` columns. -/
def padRight (width : Nat) (text : String) : String := text ++ blanks (width - text.length)

/-- The source line with the span underlined. -/
def excerpt (d : Diagnostic) (context : String) : String :=
  let tildes := String.ofList (List.replicate (d.underlineWidth context - 1) '~')
  "   |\n" ++ padLeft 3 (toString d.span.start.line) ++ " | " ++ context ++ "\n" ++
    "   | " ++ blanks (d.underlineStart - 1) ++ "^" ++ tildes ++ "\n"

/-- The diagnostic over several lines: what it says, where, the source line and the hints. -/
def drawing (d : Diagnostic) : String :=
  d.severity.name ++ "[" ++ d.code ++ "]: " ++ d.message ++ "\n" ++
    "  --> " ++ d.file ++ ":" ++ toString d.span.start.line ++ ":" ++ toString d.span.start.column ++ "\n" ++
    (d.context.map d.excerpt).getD "" ++
    String.join (d.hints.map fun hint => "   = help: " ++ hint ++ "\n") ++ "\n"

/-! ### Documents -/

/-- The diagnostic as a document; context and hints are left out if there are none. -/
def toJson (d : Diagnostic) : Json :=
  .object ([("severity", .string d.severity.name), ("code", .string d.code), ("message", .string d.message),
      ("file", .string d.file), ("span", d.span.toJson)]
    ++ (d.context.map fun line => ("context", Json.string line)).toList
    ++ (if d.hints.isEmpty then [] else [("hints", .strings d.hints)]))

/-- The version of the report format. -/
def reportVersion : String := "0.1.0"

/-- Errors and warnings as one document. -/
def report (ds : List Diagnostic) : Json :=
  .object [
    ("version", .string reportVersion),
    ("status", .string (if hasErrors ds then "error" else "ok")),
    ("errors", .array ((errors ds).map toJson)),
    ("warnings", .array ((warnings ds).map toJson)),
    ("summary", .object [("total_errors", .nat (errors ds).length), ("total_warnings", .nat (warnings ds).length)])]

end Diagnostic

end BraceScript
