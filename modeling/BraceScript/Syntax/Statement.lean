import BraceScript.Syntax.Expression

/-!
# Reading statements

`Stmt.read` chooses the form of a statement by its first token; a token that starts no other form starts an
expression statement.  Imports are refused inside a block, so the reader is told whether it is nested.
-/

namespace BraceScript

/-! ### Parts of declarations -/

namespace Param

/-- A parameter.  Its name has to differ from those of the parameters before it. -/
def read (fuel : Nat) (before : List Param) : Reader Param := do
  let name ← Reader.ident
  if before.any (·.name.name == name.name) then Reader.fail (.repeatedParam name.name) name.span
  else
    let _ ← Reader.expectSymbol .colon
    let type ← Ty.read fuel
    return ⟨name, type⟩

/-- A parameter list with its parentheses. -/
def readList (fuel : Nat) : Reader (List Param) := do
  let _ ← Reader.expectSymbol .lParen
  let params ← Reader.upTo .rParen (fun before => Reader.listed .rParen (read fuel before)) fuel []
  let _ ← Reader.expectSymbol .rParen
  return params

end Param

/-- The type after an arrow; without one nothing is returned. -/
def Ty.readReturn (fuel : Nat) : Reader Ty := do
  if ← Reader.eat (.symbol .arrow) then Ty.read fuel else return .void

/-- A member of a struct. -/
inductive Member where
  | property (decl : PropertyDecl)
  | method (decl : MethodDecl)
deriving DecidableEq, Repr

namespace Member

def name : Member → String
  | property d => d.name.name
  | method d => d.name.name

def property? : Member → Option PropertyDecl
  | property d => some d
  | method _ => none

def method? : Member → Option MethodDecl
  | property _ => none
  | method d => some d

/-- What follows the name of a member: parameters make it a method, a type makes it a property. -/
def readRest (fuel : Nat) (name : Ident) (visibility : Visibility) (isStatic isReadonly : Bool) : Reader Member := do
  if ← Reader.at? (.symbol .lParen) then
    let params ← Param.readList fuel
    let returnType ← Ty.readReturn fuel
    let _ ← Reader.expectSymbol .semicolon
    return method ⟨name, visibility, isStatic, params, returnType⟩
  else
    let _ ← Reader.expectSymbol .colon
    let type ← Ty.read fuel
    let _ ← Reader.expectSymbol .semicolon
    return property ⟨name, visibility, isStatic, isReadonly, type⟩

/-- A member of the struct called `struct`.  Its name has to differ from those of the members before it. -/
def read (fuel : Nat) (struct : String) (before : List Member) : Reader Member := do
  let first ← Reader.current
  if first.kind = .keyword .access then
    let _ ← Reader.advance
    let visibility : Visibility := if first.text = "pub" then .isPublic else .isPrivate
    let isStatic ← Reader.eat (.keyword .staticKw)
    let isReadonly ← Reader.eat (.keyword .readonly)
    let name ← Reader.ident
    if before.any (·.name == name.name) then Reader.fail (.repeatedMember name.name struct) name.span
    else readRest fuel name visibility isStatic isReadonly
  else Reader.failHere (.expectedMember first.kind)

end Member

/-! ### Statements without blocks -/

/-- The type and the value of a declaration, after its name. -/
def VariableDecl.readContent (fuel : Nat) (name : Ident) : Reader (Option Ty × Option Expr) := do
  if ← Reader.eat (.symbol .colon) then
    let type ← Ty.read fuel
    if ← Reader.eat (.symbol .assign) then
      let value ← Expr.read fuel .assignment
      return (some type, some value)
    else return (some type, none)
  else
    let _ ← Reader.expectSymbol .define
    if ← Reader.at? (.symbol .semicolon) then Reader.failHere (.missingInitialiser name.name)
    else
      let value ← Expr.read fuel .assignment
      return (none, some value)

/-- A declaration of a variable or a constant. -/
def VariableDecl.read (fuel : Nat) : Reader VariableDecl := do
  let opening ← Reader.advance
  let isConstant := opening.kind == .keyword .constKw
  let name ← Reader.ident
  let (type, value) ← readContent fuel name
  if isConstant && value.isNone then Reader.fail (.uninitialisedConstant name.name) name.span
  else
    let closing ← Reader.expectSymbol .semicolon
    return ⟨name, isConstant, type, value, opening.span.merge closing.span⟩

def StructDecl.read (fuel : Nat) : Reader StructDecl := do
  let opening ← Reader.expectKeyword .structKw
  let name ← Reader.ident
  let _ ← Reader.expectSymbol .lBrace
  let members ← Reader.upTo .rBrace (Member.read fuel name.name) fuel []
  let closing ← Reader.expectSymbol .rBrace
  let properties := members.filterMap Member.property?
  let methods := members.filterMap Member.method?
  return ⟨name, properties, methods, opening.span.merge closing.span⟩

/-- The imported names between braces, and the word after them. -/
def Import.readNames (fuel : Nat) : Reader (List Ident) := do
  if ← Reader.eat (.symbol .lBrace) then
    let names ← Reader.upTo .rBrace (fun _ => Reader.listed .rBrace Reader.ident) fuel []
    let _ ← Reader.expectSymbol .rBrace
    let _ ← Reader.expectKeyword .fromKw
    return names
  else return []

/-- An import, which must not be nested. -/
def Import.read (fuel : Nat) (nested : Bool) : Reader Import := do
  let opening ← Reader.expectKeyword .importKw
  if nested then Reader.fail .nestedImport opening.span
  else
    let names ← readNames fuel
    let path ← Reader.expect .string
    let closing ← Reader.expectSymbol .semicolon
    return ⟨⟨path.text, path.span⟩, names, opening.span.merge closing.span⟩

/-- A `ret` statement. -/
def Stmt.readReturn (fuel : Nat) : Reader Stmt := do
  let opening ← Reader.expectKeyword .ret
  if ← Reader.at? (.symbol .semicolon) then
    let closing ← Reader.advance
    return .ret none (opening.span.merge closing.span)
  else
    let value ← Expr.read fuel .lowest
    let closing ← Reader.expectSymbol .semicolon
    return .ret (some value) (opening.span.merge closing.span)

/-- An expression statement. -/
def Stmt.readExpression (fuel : Nat) : Reader Stmt := do
  let e ← Expr.read fuel .lowest
  let closing ← Reader.expectSymbol .semicolon
  return .expression e (e.span.merge closing.span)

/-! ### Statements with blocks -/

/-- The span of what follows the first block of an `if`, or of that block itself. -/
def Alternate.spanAfter (consequent : Block) : Alternate → Span
  | .nothing => consequent.span
  | .elseIf next => next.span
  | .otherwise body => body.span

mutual

/-- A statement; `nested` says whether it stands inside a block. -/
def Stmt.read : Nat → Bool → Reader Stmt
  | 0, _ => Reader.exhausted
  | fuel + 1, nested => do
    let first ← Reader.current
    match first.kind with
    | .keyword .letKw | .keyword .constKw => return .declare (← VariableDecl.read fuel)
    | .symbol .lBrace => return .block (← Block.read fuel)
    | .keyword .ifKw => return .branch (← IfStmt.read fuel)
    | .keyword .fnKw => return .function (← FunctionDecl.read fuel)
    | .keyword .ret => Stmt.readReturn fuel
    | .keyword .structKw => return .struct (← StructDecl.read fuel)
    | .keyword .whileKw => Stmt.readWhile fuel
    | .keyword .forKw => Stmt.readFor fuel
    | .keyword .foreachKw => Stmt.readForeach fuel
    | .keyword .importKw => return .imports (← Import.read fuel nested)
    | _ => Stmt.readExpression fuel

/-- Statements between braces. -/
def Block.read : Nat → Reader Block
  | 0 => Reader.exhausted
  | fuel + 1 => do
    let opening ← Reader.expectSymbol .lBrace
    let statements ← Reader.upTo .rBrace (fun _ => Stmt.read fuel true) fuel []
    let closing ← Reader.expectSymbol .rBrace
    return ⟨statements, opening.span.merge closing.span⟩

/-- An `if` or `elf` with all that follows it in the chain. -/
def IfStmt.read : Nat → Reader IfStmt
  | 0 => Reader.exhausted
  | fuel + 1 => do
    let opening ← Reader.advance
    let condition ← Expr.read fuel .assignment
    let consequent ← Block.read fuel
    let alternate ← Alternate.read fuel
    return ⟨condition, consequent, alternate, opening.span.merge (alternate.spanAfter consequent)⟩

/-- What follows the first block of an `if`. -/
def Alternate.read : Nat → Reader Alternate
  | 0 => Reader.exhausted
  | fuel + 1 => do
    let first ← Reader.current
    match first.kind with
    | .keyword .elsKw =>
      let _ ← Reader.advance
      return .otherwise (← Block.read fuel)
    | .keyword .elfKw => return .elseIf (← IfStmt.read fuel)
    | _ => return .nothing

def FunctionDecl.read : Nat → Reader FunctionDecl
  | 0 => Reader.exhausted
  | fuel + 1 => do
    let opening ← Reader.expectKeyword .fnKw
    let name ← Reader.ident
    let params ← Param.readList fuel
    let returnType ← Ty.readReturn fuel
    let body ← Block.read fuel
    return ⟨name, params, returnType, body, opening.span.merge body.span⟩

def Stmt.readWhile : Nat → Reader Stmt
  | 0 => Reader.exhausted
  | fuel + 1 => do
    let opening ← Reader.expectKeyword .whileKw
    let condition ← Expr.read fuel .assignment
    let body ← Block.read fuel
    return .whileLoop condition body (opening.span.merge body.span)

def Stmt.readFor : Nat → Reader Stmt
  | 0 => Reader.exhausted
  | fuel + 1 => do
    let opening ← Reader.expectKeyword .forKw
    let counter ← Reader.ident
    let _ ← Reader.expectSymbol .define
    let init ← Expr.read fuel .assignment
    let _ ← Reader.expectSymbol .semicolon
    let condition ← Expr.read fuel .lowest
    let _ ← Reader.expectSymbol .semicolon
    let post ← Expr.read fuel .lowest
    let body ← Block.read fuel
    return .forLoop counter init condition post body (opening.span.merge body.span)

def Stmt.readForeach : Nat → Reader Stmt
  | 0 => Reader.exhausted
  | fuel + 1 => do
    let opening ← Reader.expectKeyword .foreachKw
    let value ← Reader.ident
    let position ← if ← Reader.eat (.symbol .comma) then some <$> Reader.ident else pure none
    let _ ← Reader.expectKeyword .inKw
    let iterable ← Expr.read fuel .assignment
    let body ← Block.read fuel
    return .foreach value position iterable body (opening.span.merge body.span)

end

end BraceScript
