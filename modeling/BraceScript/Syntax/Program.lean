import BraceScript.Syntax.Statement
import BraceScript.Token.Lexer
import BraceScript.Source.Path

/-!
# Reading programs

`Program.ofTokens` reads a whole token sequence and `Program.parse` a text.  A program is named by its `module`
declaration, or else by the file it stands in (`Path.stem`).
-/

namespace BraceScript

/-- The tokens of a `module` declaration.  Elsewhere `module` is an ordinary name. -/
def Program.moduleStart : List Kind := [.ident, .ident, .symbol .semicolon]

/-- A program as far as it has been read: the declared module name, and the imports and statements, latest first. -/
structure Program.Draft where
  name : Option Ident
  imports : List Import
  contents : List Stmt

namespace Program

/-- Whether a `module` declaration comes next. -/
def atModule (c : Cursor) : Bool := c.next.text = "module" && c.startsWith moduleStart

/-- A `module` declaration; there may be only one. -/
def readModule (draft : Draft) : Reader Draft := do
  let _ ← Reader.advance
  let name ← Reader.ident
  let _ ← Reader.expectSymbol .semicolon
  match draft.name with
  | some previous => Reader.fail (.repeatedModule previous.name) name.span
  | none => return { draft with name := some name }

/-- The draft with one more statement. -/
def Draft.add (draft : Draft) : Stmt → Draft
  | .imports i => { draft with imports := i :: draft.imports }
  | s => { draft with contents := s :: draft.contents }

/-- Everything up to the end of the text. -/
def readDraft : Nat → Draft → Reader Draft
  | 0, _ => Reader.exhausted
  | fuel + 1, draft => do
    let c ← Reader.cursor
    if c.next.kind = .eof then return draft
    else if atModule c then
      let draft ← readModule draft
      readDraft fuel draft
    else
      let s ← Stmt.read fuel false
      readDraft fuel (draft.add s)

/-- A whole program, named after the file `file` unless it names itself. -/
def read (fuel : Nat) (file : String) : Reader Program := do
  let first ← Reader.current
  let draft ← readDraft fuel ⟨none, [], []⟩
  let last ← Reader.lastSpan
  return {
    moduleName := (draft.name.map Ident.name).getD (Path.stem file)
    imports := draft.imports.reverse
    contents := draft.contents.reverse
    span := first.span.merge last }

/-- Fuel for reading `n` tokens: between two tokens the reader goes through fewer than sixteen steps. -/
def fuelFor (n : Nat) : Nat := 16 * (n + 1)

end Program

/-- A program with the warnings given on the way. -/
structure Parsed where
  program : Program
  warnings : List SyntaxWarning

/-- Why a text is no program. -/
inductive ParseError where
  | lexical (error : LexicalError)
  | grammar (error : SyntaxError)
  /-- The reader gave up; with the fuel it is given this does not happen. -/
  | unfinished
deriving DecidableEq, Repr

namespace Program

/-- Reads a token sequence that ends with an end-of-file token. -/
def ofTokens (tokens : List Token) (file : String) : Except ParseError Parsed :=
  match read (fuelFor tokens.length) file (Cursor.ofTokens tokens) with
  | .done program c => .ok ⟨program, c.warnings.reverse⟩
  | .failed e => .error (.grammar e)
  | .exhausted => .error .unfinished

/-- Reads the text of a program. -/
def parse (source file : String) : Except ParseError Parsed :=
  match Token.tokenize source with
  | .ok tokens => ofTokens tokens file
  | .error e => .error (.lexical e)

end Program

end BraceScript
