import BraceScript.Syntax.Program
import BraceScript.RuntimeError

/-!
# Faults

A `Fault` is anything that stops a program: an error of its text, of its grammar or of its evaluation.  It has a
span, a code, a message and hints, which diagnostics are made from.
-/

namespace BraceScript

/-- Why a program did not run to its end. -/
inductive Fault where
  | parse (error : ParseError)
  | runtime (error : RuntimeError)
deriving DecidableEq, Repr

namespace Fault

def span : Fault → Span
  | parse (.lexical e) => e.span
  | parse (.grammar e) => e.span
  | parse .unfinished => default
  | runtime e => e.span

def code : Fault → String
  | parse (.lexical e) => e.cause.code
  | parse (.grammar e) => e.cause.code
  | parse .unfinished => "E100"
  | runtime e => e.cause.code

def message : Fault → String
  | parse (.lexical e) => e.cause.message
  | parse (.grammar e) => e.cause.message
  | parse .unfinished => "the program is too long to be read"
  | runtime e => e.cause.message

def hints : Fault → List String
  | parse (.lexical e) => e.cause.hints
  | parse (.grammar e) => e.cause.hints
  | parse .unfinished => []
  | runtime e => e.cause.hints

end Fault

end BraceScript
