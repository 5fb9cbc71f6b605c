import BraceScript.Syntax
import BraceScript.Syntax.Error

/-!
# Reading from a token sequence

A `Cursor` stands before a token.  A `Reader` takes a cursor and either reads something and moves on, or fails with a
`SyntaxError`, or runs out of fuel; readers are combined as a monad.  The cursor never moves past the end-of-file
token.
-/

namespace BraceScript

/-- A place in a token sequence: the next token, the tokens after it, the span of the last token passed and the
warnings given so far, latest first. -/
structure Cursor where
  next : Token
  rest : List Token
  last : Option Span
  warnings : List SyntaxWarning
deriving Repr

namespace Cursor

/-- The start of a token sequence.  An empty one counts as a lone end-of-file token. -/
def ofTokens : List Token → Cursor
  | [] => ⟨Token.eofAt .start, [], none, []⟩
  | t :: ts => ⟨t, ts, none, []⟩

/-- The number of tokens from the next one on. -/
def remaining (c : Cursor) : Nat := c.rest.length + 1

/-- The cursor after the next token.  The end-of-file token is never passed. -/
def advance (c : Cursor) : Cursor :=
  match c.next.kind, c.rest with
  | .eof, _ => c
  | _, [] => c
  | _, t :: ts => { c with next := t, rest := ts, last := some c.next.span }

/-- The span of the last token passed, or of the next one at the start. -/
def lastSpan (c : Cursor) : Span := c.last.getD c.next.span

/-- The kind of the token `n` places after the next one. -/
def peek (c : Cursor) : Nat → Kind
  | 0 => c.next.kind
  | n + 1 => ((c.rest[n]?).map Token.kind).getD .eof

/-- Whether the next tokens have exactly these kinds. -/
def startsWith (c : Cursor) (kinds : List Kind) : Bool :=
  (List.range kinds.length).map c.peek = kinds

end Cursor

/-- What a reader answers. -/
inductive Reply (α : Type) where
  | done (value : α) (rest : Cursor)
  | failed (error : SyntaxError)
  | exhausted

/-- A reader of `α` from a token sequence. -/
def Reader (α : Type) : Type := Cursor → Reply α

namespace Reader

variable {α β : Type}

@[inline] protected def pure (a : α) : Reader α := fun c => .done a c

@[inline] protected def bind (r : Reader α) (f : α → Reader β) : Reader β := fun c =>
  match r c with
  | .done a c => f a c
  | .failed e => .failed e
  | .exhausted => .exhausted

instance : Monad Reader where
  pure := Reader.pure
  bind := Reader.bind

@[simp] theorem pure_apply (a : α) (c : Cursor) : (pure a : Reader α) c = .done a c := rfl

theorem bind_of_done {r : Reader α} {c c₁ : Cursor} {a : α} (h : r c = .done a c₁) (f : α → Reader β) :
    (r >>= f) c = f a c₁ := by
  change Reader.bind r f c = f a c₁
  simp [Reader.bind, h]

theorem bind_of_failed {r : Reader α} {c : Cursor} {e : SyntaxError} (h : r c = .failed e) (f : α → Reader β) :
    (r >>= f) c = .failed e := by
  change Reader.bind r f c = .failed e
  simp [Reader.bind, h]

theorem bind_of_exhausted {r : Reader α} {c : Cursor} (h : r c = .exhausted) (f : α → Reader β) :
    (r >>= f) c = .exhausted := by
  change Reader.bind r f c = .exhausted
  simp [Reader.bind, h]

/-- Two readers in a row succeed if the first does and the second does after it. -/
theorem bind_eq_done_iff {r : Reader α} {f : α → Reader β} {c c₂ : Cursor} {b : β} :
    (r >>= f) c = .done b c₂ ↔ ∃ a c₁, r c = .done a c₁ ∧ f a c₁ = .done b c₂ := by
  cases h : r c with
  | done a c₁ =>
    rw [bind_of_done h]
    constructor
    · exact fun hf => ⟨a, c₁, rfl, hf⟩
    · rintro ⟨_, _, ⟨⟩, hf⟩
      exact hf
  | failed e => simp [bind_of_failed h]
  | exhausted => simp [bind_of_exhausted h]

/-- Gives up for lack of fuel. -/
def exhausted : Reader α := fun _ => .exhausted

def fail (cause : SyntaxError.Cause) (span : Span) : Reader α := fun _ => .failed ⟨cause, span⟩

/-- The cursor itself. -/
def cursor : Reader Cursor := fun c => .done c c

/-- The next token, which is not passed. -/
def current : Reader Token := fun c => .done c.next c

/-- The next token, which is passed. -/
def advance : Reader Token := fun c => .done c.next c.advance

/-- The span of the last token passed. -/
def lastSpan : Reader Span := fun c => .done c.lastSpan c

/-- Fails at the next token. -/
def failHere (cause : SyntaxError.Cause) : Reader α := fun c => .failed ⟨cause, c.next.span⟩

def warn (cause : SyntaxWarning.Cause) (span : Span) : Reader Unit := fun c =>
  .done () { c with warnings := ⟨cause, span⟩ :: c.warnings }

/-- Whether the next token has the given kind. -/
def at? (kind : Kind) : Reader Bool := fun c => .done (c.next.kind == kind) c

/-- Passes the next token if it has the given kind, and says whether it did. -/
def eat (kind : Kind) : Reader Bool := fun c =>
  if c.next.kind = kind then .done true c.advance else .done false c

/-- Passes the next token, which has to have the given kind. -/
def expect (kind : Kind) : Reader Token := fun c =>
  if c.next.kind = kind then .done c.next c.advance
  else .failed ⟨.expected kind c.next.kind, c.next.span⟩

def expectSymbol (s : Symbol) : Reader Token := expect (.symbol s)

def expectKeyword (k : Keyword) : Reader Token := expect (.keyword k)

/-- Passes an identifier. -/
def ident : Reader Ident := do
  let token ← expect .ident
  return ⟨token.text, token.span⟩

/-- Items up to the symbol `closer` or the end of the text.  Each item is read with the items before it, latest
first, at hand. -/
def upTo (closer : Symbol) (item : List α → Reader α) : Nat → List α → Reader (List α)
  | 0, _ => exhausted
  | fuel + 1, before => do
    let token ← current
    if token.kind = .symbol closer ∨ token.kind = .eof then return before.reverse
    else
      let a ← item before
      upTo closer item fuel (a :: before)

/-- An item of a list that ends at `closer`: it is followed by a comma or stands right before the end. -/
def listed (closer : Symbol) (item : Reader α) : Reader α := do
  let a ← item
  if ← at? (.symbol closer) then return a
  else
    let _ ← expectSymbol .comma
    return a

end Reader

end BraceScript
