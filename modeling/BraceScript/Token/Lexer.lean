import BraceScript.Token

/-!
# Cutting a text into tokens

`Lexeme.read` says what stands at the head of a text: a token, something to skip, or the start of a fault.  In each
case it consumes at least one character, so `Token.scan` ends.  `Token.scan` returns the tokens up to the first
fault, or all of them closed by an end-of-file token.
-/

namespace BraceScript

/-- Why a text is not a sequence of tokens. -/
inductive LexicalError.Cause where
  | unexpectedCharacter (c : Char) (line : Nat)
  | unterminatedComment
deriving DecidableEq, Repr

namespace LexicalError.Cause

def code : Cause → String
  | unexpectedCharacter .. => "E001"
  | unterminatedComment => "E002"

def message : Cause → String
  | unexpectedCharacter c line => "unexpected character `" ++ c.toString ++ "` on line " ++ toString line
  | unterminatedComment => "block comment is never closed"

def hints : Cause → List String
  | unexpectedCharacter .. => []
  | unterminatedComment => ["add `*/` to close the comment"]

end LexicalError.Cause

/-- A fault in the text and where it stands. -/
structure LexicalError where
  cause : LexicalError.Cause
  span : Span
deriving DecidableEq, Repr

/-- What a stretch of text is. -/
inductive Lexeme.Role where
  | token (kind : Kind)
  | blank
  | unterminatedComment
  | unexpected
deriving DecidableEq, Repr

/-- The stretch of text that starts at a given character: its role and how many characters it has after the first. -/
structure Lexeme where
  role : Lexeme.Role
  tail : Nat
deriving DecidableEq, Repr

namespace Lexeme

/-- The characters that separate tokens. -/
def isBlank (c : Char) : Bool := c = ' ' || c = '\t' || c = '\r' || c = '\n' || c = '\x0c'

/-- The characters that can start an identifier. -/
def isIdentStart (c : Char) : Bool := c.isAlpha || c = '_'

/-- The characters that can continue an identifier. -/
def isIdentPart (c : Char) : Bool := c.isAlphanum || c = '_'

/-- The number of characters through the first `*/` of `cs`. -/
def commentEnd? : List Char → Option Nat
  | [] => none
  | '*' :: '/' :: _ => some 2
  | _ :: cs => (commentEnd? cs).map (· + 1)

/-- The number of characters that the digits of `cs`, and a fraction after them, take up.  A point belongs to the
number only if a digit follows it. -/
def numberTail (cs : List Char) : Nat :=
  let whole := cs.takeWhile Char.isDigit
  match cs.dropWhile Char.isDigit with
  | '.' :: rest =>
    match rest.takeWhile Char.isDigit with
    | [] => whole.length
    | fraction => whole.length + 1 + fraction.length
  | _ => whole.length

/-- An identifier or a reserved word. -/
def readWord (c : Char) (cs : List Char) : Lexeme :=
  let part := cs.takeWhile isIdentPart
  match Keyword.ofWord? (String.ofList (c :: part)) with
  | some k => ⟨.token (.keyword k), part.length⟩
  | none => ⟨.token .ident, part.length⟩

/-- A string literal, after its opening quote.  An unclosed one is a fault up to the end of the text. -/
def readString (cs : List Char) : Lexeme :=
  let body := cs.takeWhile (· ≠ '"')
  if body.length < cs.length then ⟨.token .string, body.length + 1⟩ else ⟨.unexpected, cs.length⟩

/-- A character literal, after its opening quote: one character other than a quote, then a quote. -/
def readChar : List Char → Lexeme
  | c :: '\'' :: _ => if c = '\'' then ⟨.unexpected, 0⟩ else ⟨.token .char, 2⟩
  | _ => ⟨.unexpected, 0⟩

/-- A symbol: two characters if they make one, else one. -/
def readSymbol (c : Char) (cs : List Char) : Lexeme :=
  match cs.head?.bind (Symbol.ofPair? c), Symbol.ofChar? c with
  | some s, _ => ⟨.token (.symbol s), 1⟩
  | none, some s => ⟨.token (.symbol s), 0⟩
  | none, none => ⟨.unexpected, 0⟩

/-- What stands at the head of the text `c :: cs`. -/
def read (c : Char) (cs : List Char) : Lexeme :=
  if isBlank c then ⟨.blank, (cs.takeWhile isBlank).length⟩
  else if c.isDigit then ⟨.token .number, numberTail cs⟩
  else if isIdentStart c then readWord c cs
  else if c = '"' then readString cs
  else if c = '\'' then readChar cs
  else
    match c, cs with
    | '/', '/' :: rest => ⟨.blank, 1 + (rest.takeWhile (· ≠ '\n')).length⟩
    | '/', '*' :: rest =>
      match commentEnd? rest with
      | some n => ⟨.blank, 1 + n⟩
      | none => ⟨.unterminatedComment, 1 + rest.length⟩
    | _, _ => readSymbol c cs

end Lexeme

namespace Token

/-- The text of a token of the given kind that is spelled `cs` in the source: quotes are left out. -/
def textOf (kind : Kind) (cs : List Char) : String :=
  match kind with
  | .string | .char => String.ofList (cs.drop 1).dropLast
  | _ => String.ofList cs

/-- The tokens of `cs`, which starts at `p`, after the tokens `done` (last first). -/
def scanFrom (p : Position) (done : List Token) : List Char → List Token × Option LexicalError
  | [] => ((eofAt p :: done).reverse, none)
  | c :: cs =>
    let lexeme := Lexeme.read c cs
    let spelled := c :: cs.take lexeme.tail
    let span : Span := ⟨p, p.advance spelled⟩
    match lexeme.role with
    | .token kind => scanFrom span.stop (⟨kind, textOf kind spelled, span⟩ :: done) (cs.drop lexeme.tail)
    | .blank => scanFrom span.stop done (cs.drop lexeme.tail)
    | .unterminatedComment => (done.reverse, some ⟨.unterminatedComment, span⟩)
    | .unexpected => (done.reverse, some ⟨.unexpectedCharacter c p.line, span⟩)
termination_by cs => cs.length
decreasing_by all_goals simp only [List.length_cons, List.length_drop]; omega

/-- The tokens of `source` up to the first fault, which is returned beside them; without a fault the last token is
the end-of-file token. -/
def scan (source : String) : List Token × Option LexicalError := scanFrom .start [] source.toList

/-- All tokens of `source`, or the first fault. -/
def tokenize (source : String) : Except LexicalError (List Token) :=
  match scan source with
  | (tokens, none) => .ok tokens
  | (_, some e) => .error e

end Token

end BraceScript
