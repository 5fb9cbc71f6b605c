import BraceScript.Syntax.TypeReader
import BraceScript.Syntax.Precedence
import BraceScript.Syntax.Text
import BraceScript.Number.Reader

/-!
# Reading expressions

An expression is a head (a literal, a name, something in brackets or a prefixed operand) followed by continuations as
long as these bind tighter than a floor (`Expr.read`).  The right operand of a binary operator is read with the level
of the operator as floor, so equal levels group to the left; the value of an assignment is read one level lower, so
assignments group to the right.
-/

namespace BraceScript

/-- The literal spelled by a number token.  An integer takes the narrowest signed type that holds it; none holds a
number of more than 127 bits. -/
def Literal.ofNumber? (text : String) : Option Literal :=
  if text.toList.contains '.' then (Numeral.float? text).map fun x => .float x (.ofLiteral text x)
  else
    (Numeral.natural? text.toList).bind fun n =>
      if IntType.widest.holds n then some (.integer n (.narrowest n)) else none

namespace Expr

/-- Whether an expression can stand on the left of an assignment. -/
def isAssignable : Expr → Bool
  | ident _ | property .. => true
  | _ => false

/-- A literal of one token. -/
def readLiteral (value : Literal) : Reader Expr := do
  let token ← Reader.advance
  return literal value token.span

/-- A number. -/
def readNumber : Reader Expr := do
  let token ← Reader.advance
  match Literal.ofNumber? token.text with
  | some value => return literal value token.span
  | none => Reader.fail (.literalTooLarge token.text) token.span

/-- The tokens that tell the name of a struct literal from a plain name. -/
def buildStart : List Kind := [.ident, .symbol .lBrace, .ident, .symbol .colon]

mutual

/-- An expression whose continuations bind tighter than `floor`. -/
def read : Nat → Precedence → Reader Expr
  | 0, _ => Reader.exhausted
  | fuel + 1, floor => do
    let head ← readHead fuel
    readTail fuel floor head

/-- The head of an expression. -/
def readHead : Nat → Reader Expr
  | 0 => Reader.exhausted
  | fuel + 1 => do
    let token ← Reader.current
    match token.kind with
    | .number => readNumber
    | .string => readLiteral (.string token.text)
    | .char => readLiteral (.character (token.text.toList.headD '\x00'))
    | .keyword .trueKw => readLiteral (.boolean true)
    | .keyword .falseKw => readLiteral (.boolean false)
    | .keyword .nullKw => readLiteral .null
    | .ident =>
      let c ← Reader.cursor
      let name ← Reader.ident
      if c.startsWith buildStart then readBuild fuel name else return ident name
    | .symbol .lParen =>
      let _ ← Reader.advance
      let inner ← read fuel .lowest
      let _ ← Reader.expectSymbol .rParen
      return inner
    | .symbol .lBracket =>
      let opening ← Reader.advance
      let elements ← Reader.upTo .rBracket (fun _ => Reader.listed .rBracket (read fuel .comma)) fuel []
      let closing ← Reader.expectSymbol .rBracket
      return array elements elements.length (opening.span.merge closing.span)
    | .symbol s =>
      match UnaryOp.ofSymbol? s with
      | some op =>
        let opening ← Reader.advance
        let operand ← read fuel .unary
        return unary ⟨op, opening.span⟩ operand .before (opening.span.merge operand.span)
      | none => Reader.failHere (.expectedExpression token.kind)
    | found => Reader.failHere (.expectedExpression found)

/-- The fields of a struct literal after its name. -/
def readBuild : Nat → Ident → Reader Expr
  | 0, _ => Reader.exhausted
  | fuel + 1, name => do
    let _ ← Reader.expectSymbol .lBrace
    let fields ← Reader.upTo .rBrace (fun before => Reader.listed .rBrace (readField fuel before)) fuel []
    let closing ← Reader.expectSymbol .rBrace
    return build name fields (name.span.merge closing.span)

/-- A field of a struct literal.  Its name has to differ from those of the fields before it. -/
def readField : Nat → List (Ident × Expr) → Reader (Ident × Expr)
  | 0, _ => Reader.exhausted
  | fuel + 1, before => do
    let name ← Reader.ident
    if before.any (·.1.name == name.name) then Reader.fail (.repeatedField name.name) name.span
    else
      let _ ← Reader.expectSymbol .colon
      let value ← read fuel .comma
      return (name, value)

/-- The continuations of `left` that bind tighter than `floor`. -/
def readTail : Nat → Precedence → Expr → Reader Expr
  | 0, _, _ => Reader.exhausted
  | fuel + 1, floor, left => do
    let token ← Reader.current
    match Continuation.ofKind? token.kind with
    | none => return left
    | some c =>
      if floor.rank < c.precedence.rank then
        let longer ← readContinuation fuel left c
        readTail fuel floor longer
      else return left

/-- The expression `left` with the continuation `c`, whose first token is the next one. -/
def readContinuation : Nat → Expr → Continuation → Reader Expr
  | 0, _, _ => Reader.exhausted
  | fuel + 1, left, .binary op => do
    let token ← Reader.advance
    let right ← read fuel (Continuation.binaryPrecedence op)
    return binary ⟨op, token.span⟩ left right (left.span.merge right.span)
  | fuel + 1, left, .assign op => do
    if left.isAssignable then
      let token ← Reader.advance
      let value ← read fuel Precedence.assignment.lower
      return assign left ⟨op, token.span⟩ value (left.span.merge value.span)
    else Reader.fail (.notAssignable left.text) left.span
  | fuel + 1, left, .call => do
    match left with
    | ident callee =>
      let _ ← Reader.expectSymbol .lParen
      let arguments ← Reader.upTo .rParen (fun _ => Reader.listed .rParen (read fuel .comma)) fuel []
      let closing ← Reader.expectSymbol .rParen
      return call callee arguments (callee.span.merge closing.span)
    | _ => Reader.fail (.notCallable left.text) left.span
  | _ + 1, left, .step op => do
    let token ← Reader.advance
    match left with
    | ident _ => return unary ⟨op, token.span⟩ left .after (left.span.merge token.span)
    | _ => Reader.fail (.notSteppable token.kind) (left.span.merge token.span)
  | _ + 1, left, .property => do
    let _ ← Reader.expectSymbol .dot
    let name ← Reader.ident
    return property left name (left.span.merge name.span)
  | fuel + 1, left, .index => do
    match left with
    | ident base =>
      let _ ← Reader.expectSymbol .lBracket
      let position ← read fuel .lowest
      let closing ← Reader.expectSymbol .rBracket
      return index base position (base.span.merge closing.span)
    | _ => Reader.fail (.notIndexable left.text) left.span

end

end Expr

end BraceScript
