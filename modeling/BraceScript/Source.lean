/-!
# Places in a source text

A `Position` names a place between two characters of a text, a `Span` the stretch between two places.  Positions are
found by walking over the text (`Position.advance`); spans are joined with `Span.merge`.  `Source.lines` cuts a text
into its physical lines, the form in which diagnostics quote it.
-/

namespace BraceScript

/-- A place in a text.  Lines and columns count from one, columns in characters; the offset counts the bytes before
the place. -/
structure Position where
  line : Nat
  column : Nat
  offset : Nat
deriving DecidableEq, Repr

namespace Position

/-- The place before the first character. -/
def start : Position := ⟨1, 1, 0⟩

instance : Inhabited Position := ⟨start⟩

/-- The place after the character `c` that stands at `p`. -/
def step (p : Position) (c : Char) : Position :=
  if c = '\n' then ⟨p.line + 1, 1, p.offset + c.utf8Size⟩ else ⟨p.line, p.column + 1, p.offset + c.utf8Size⟩

/-- The place after the characters `cs` that stand at `p`. -/
def advance (p : Position) (cs : List Char) : Position := cs.foldl step p

@[simp] theorem advance_nil (p : Position) : p.advance [] = p := rfl

@[simp] theorem advance_cons (p : Position) (c : Char) (cs : List Char) :
    p.advance (c :: cs) = (p.step c).advance cs := rfl

theorem advance_append (p : Position) (cs ds : List Char) :
    p.advance (cs ++ ds) = (p.advance cs).advance ds := List.foldl_append

end Position

/-- The stretch of a text from `start` up to, not including, `stop`. -/
structure Span where
  start : Position
  stop : Position
deriving DecidableEq, Repr, Inhabited

namespace Span

/-- The span that covers `a` and `b`: the earlier of the two starts and the later of the two ends. -/
def merge (a b : Span) : Span where
  start := if a.start.offset < b.start.offset then a.start else b.start
  stop := if a.stop.offset > b.stop.offset then a.stop else b.stop

/-- The number of bytes in the span. -/
def size (s : Span) : Nat := s.stop.offset - s.start.offset

def isEmpty (s : Span) : Bool := s.size == 0

end Span

namespace Source

/-- The lines of a text.  A line ends at a line feed, and a carriage return right before the line feed belongs to the
line ending; text after the last line feed is a line if there is any. -/
def splitLines : List Char → List (List Char)
  | [] => []
  | '\n' :: cs => [] :: splitLines cs
  | '\r' :: '\n' :: cs => [] :: splitLines cs
  | c :: cs =>
    match cs, splitLines cs with
    | _ :: _, l :: ls => (c :: l) :: ls
    | _, ls => [c] :: ls

/-- The physical lines of `text`, without their line endings. -/
def lines (text : String) : List String := (splitLines text.toList).map String.ofList

/-- The line with number `n`, counted from one. -/
def lineAt? (lines : List String) : Nat → Option String
  | 0 => none
  | n + 1 => lines[n]?

end Source

end BraceScript
