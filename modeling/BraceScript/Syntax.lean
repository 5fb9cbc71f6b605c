import BraceScript.Source
import BraceScript.Number.Integer
import BraceScript.Number.FloatType

/-!
# Syntax trees

Types, operators, expressions, statements and programs.  Every node keeps the span it was read from; nothing here
demands that a tree came from a text, so an array literal may carry any size and a parameter list may repeat a name.
-/

namespace BraceScript

/-- A name and where it stands. -/
structure Ident where
  name : String
  span : Span
deriving DecidableEq, Repr, Inhabited

/-- Something with the place where it stands. -/
structure Located (α : Type) where
  value : α
  span : Span
deriving DecidableEq, Repr

/-! ### Types -/

/-- A type annotation.  The type `null` imposes nothing. -/
inductive Ty where
  | integer (type : IntType)
  | float (type : FloatType)
  | boolean
  | string
  | character
  | null
  | array (element : Ty)
  | void
deriving DecidableEq, Repr, Inhabited

namespace Ty

/-- The type with the given name.  Every other name is unknown. -/
def ofName? (name : String) : Option Ty :=
  match name with
  | "i8" => some (integer ⟨.w8, true⟩)
  | "i16" => some (integer ⟨.w16, true⟩)
  | "i32" => some (integer ⟨.w32, true⟩)
  | "i64" => some (integer ⟨.w64, true⟩)
  | "i128" => some (integer ⟨.w128, true⟩)
  | "u8" => some (integer ⟨.w8, false⟩)
  | "u16" => some (integer ⟨.w16, false⟩)
  | "u32" => some (integer ⟨.w32, false⟩)
  | "u64" => some (integer ⟨.w64, false⟩)
  | "u128" => some (integer ⟨.w128, false⟩)
  | "f32" => some (float .f32)
  | "f64" => some (float .f64)
  | "bool" => some boolean
  | "char" => some character
  | "str" => some string
  | "void" => some void
  | _ => none

/-- The type as it is written. -/
def text : Ty → String
  | integer t => t.name
  | float t => t.name
  | boolean => "bool"
  | string => "str"
  | character => "char"
  | null => "null"
  | array element => "[]" ++ element.text
  | void => "void"

end Ty

/-! ### Operators -/

inductive UnaryOp where
  | plus | minus | not | increment | decrement
deriving DecidableEq, Repr

def UnaryOp.symbol : UnaryOp → String
  | plus => "+"
  | minus => "-"
  | not => "!"
  | increment => "++"
  | decrement => "--"

/-- On which side of its operand a unary operator stands. -/
inductive Fixity where
  | before | after
deriving DecidableEq, Repr

inductive ArithOp where
  | add | sub | mul | div | mod
deriving DecidableEq, Repr

def ArithOp.symbol : ArithOp → String
  | add => "+"
  | sub => "-"
  | mul => "*"
  | div => "/"
  | mod => "%"

/-- The order comparisons. -/
inductive Comparison where
  | less | lessEqual | greater | greaterEqual
deriving DecidableEq, Repr

def Comparison.symbol : Comparison → String
  | less => "<"
  | lessEqual => "<="
  | greater => ">"
  | greaterEqual => ">="

inductive BinaryOp where
  | arith (op : ArithOp)
  | compare (op : Comparison)
  | equal | notEqual | and | or | range
deriving DecidableEq, Repr

namespace BinaryOp

def symbol : BinaryOp → String
  | arith op => op.symbol
  | compare op => op.symbol
  | equal => "=="
  | notEqual => "!="
  | and => "&&"
  | or => "||"
  | range => ".."

def isArithmetic : BinaryOp → Bool
  | arith _ => true
  | _ => false

end BinaryOp

/-- Plain assignment, or assignment of the result of combining the old value with the new one. -/
inductive AssignOp where
  | set
  | update (op : ArithOp)
deriving DecidableEq, Repr

namespace AssignOp

def symbol : AssignOp → String
  | set => "="
  | update op => op.symbol ++ "="

/-- The operator that a compound assignment applies. -/
def arith? : AssignOp → Option ArithOp
  | set => none
  | update op => some op

end AssignOp

/-! ### Expressions -/

/-- A literal value.  A number carries the width chosen for it; nothing ties the two together here. -/
inductive Literal where
  | integer (value : Int) (width : Width)
  | float (value : Float) (type : FloatType)
  | string (value : String)
  | character (value : Char)
  | boolean (value : Bool)
  | null
deriving Repr, Inhabited

inductive Expr where
  | ident (id : Ident)
  | literal (value : Literal) (span : Span)
  | unary (op : Located UnaryOp) (operand : Expr) (side : Fixity) (span : Span)
  | binary (op : Located BinaryOp) (left right : Expr) (span : Span)
  | assign (target : Expr) (op : Located AssignOp) (value : Expr) (span : Span)
  | call (callee : Ident) (arguments : List Expr) (span : Span)
  /-- A struct literal. -/
  | build (name : Ident) (fields : List (Ident × Expr)) (span : Span)
  | property (object : Expr) (name : Ident) (span : Span)
  | array (elements : List Expr) (size : Nat) (span : Span)
  | index (base : Ident) (position : Expr) (span : Span)
deriving Inhabited

def Expr.span : Expr → Span
  | ident id => id.span
  | literal _ s | unary _ _ _ s | binary _ _ _ s | assign _ _ _ s | call _ _ s | build _ _ s | property _ _ s
  | array _ _ s | index _ _ s => s

/-! ### Declarations and statements -/

structure Param where
  name : Ident
  type : Ty
deriving DecidableEq, Repr

inductive Visibility where
  | isPublic | isPrivate
deriving DecidableEq, Repr

/-- A property of a struct.  A static property is declared and never stored. -/
structure PropertyDecl where
  name : Ident
  visibility : Visibility
  isStatic : Bool
  isReadonly : Bool
  type : Ty
deriving DecidableEq, Repr

/-- A method signature of a struct. -/
structure MethodDecl where
  name : Ident
  visibility : Visibility
  isStatic : Bool
  params : List Param
  returnType : Ty
deriving DecidableEq, Repr

structure StructDecl where
  name : Ident
  properties : List PropertyDecl
  methods : List MethodDecl
  span : Span
deriving DecidableEq, Repr

/-- The first property with the given name. -/
def StructDecl.property? (d : StructDecl) (name : String) : Option PropertyDecl :=
  d.properties.find? (·.name.name == name)

structure VariableDecl where
  name : Ident
  isConstant : Bool
  type : Option Ty
  value : Option Expr
  span : Span

structure Import where
  path : Located String
  names : List Ident
  span : Span
deriving DecidableEq, Repr

mutual

/-- Statements between braces. -/
structure Block where
  statements : List Stmt
  span : Span

structure FunctionDecl where
  name : Ident
  params : List Param
  returnType : Ty
  body : Block
  span : Span

structure IfStmt where
  condition : Expr
  consequent : Block
  alternate : Alternate
  span : Span

/-- What follows the first block of an `if`. -/
inductive Alternate where
  | nothing
  | elseIf (next : IfStmt)
  | otherwise (body : Block)

inductive Stmt where
  | expression (expr : Expr) (span : Span)
  | block (body : Block)
  | declare (decl : VariableDecl)
  | function (decl : FunctionDecl)
  | ret (value : Option Expr) (span : Span)
  | branch (stmt : IfStmt)
  | struct (decl : StructDecl)
  | whileLoop (condition : Expr) (body : Block) (span : Span)
  | forLoop (counter : Ident) (init condition post : Expr) (body : Block) (span : Span)
  | foreach (value : Ident) (position : Option Ident) (iterable : Expr) (body : Block) (span : Span)
  | imports (stmt : Import)

end

def Stmt.span : Stmt → Span
  | expression _ s | ret _ s | whileLoop _ _ s | forLoop _ _ _ _ _ s | foreach _ _ _ _ s => s
  | block b => b.span
  | declare d => d.span
  | function d => d.span
  | branch s => s.span
  | struct d => d.span
  | imports i => i.span

/-- A program: its imports and its other top-level statements, each in order. -/
structure Program where
  moduleName : String
  imports : List Import
  contents : List Stmt
  span : Span

end BraceScript
