import BraceScript.Syntax.Cursor

/-!
# Reading type annotations

A type annotation is a name or `null` with pairs of brackets before or after it; each pair makes an array type.  A
name that is no type means `null` and gives a warning.
-/

namespace BraceScript.Ty

/-- The element type: a name or `null`. -/
def readBase : Reader Ty := do
  let token ← Reader.current
  match token.kind with
  | .ident =>
    let name ← Reader.ident
    match ofName? name.name with
    | some t => return t
    | none =>
      Reader.warn (.unknownType name.name) name.span
      return null
  | .keyword .nullKw =>
    let _ ← Reader.advance
    return null
  | found => Reader.failHere (.expectedType found)

/-- A pair of brackets. -/
def readBrackets : Reader Unit := do
  let _ ← Reader.expectSymbol .lBracket
  let _ ← Reader.expectSymbol .rBracket
  return ()

/-- The pairs of brackets after a type. -/
def readSuffix : Nat → Ty → Reader Ty
  | 0, _ => Reader.exhausted
  | fuel + 1, t => do
    if ← Reader.at? (.symbol .lBracket) then
      readBrackets
      readSuffix fuel (array t)
    else return t

/-- A type annotation.  All brackets after the base are read with the base, so the brackets before it find none. -/
def read : Nat → Reader Ty
  | 0 => Reader.exhausted
  | fuel + 1 => do
    if ← Reader.at? (.symbol .lBracket) then
      readBrackets
      let element ← read fuel
      readSuffix fuel (array element)
    else
      let base ← readBase
      readSuffix fuel base

end BraceScript.Ty
