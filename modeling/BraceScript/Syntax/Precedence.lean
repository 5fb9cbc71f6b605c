import BraceScript.Syntax
import BraceScript.Token

/-!
# Operators by spelling and precedence

Which symbols can follow an expression (`Continuation.ofKind?`), and how tightly each of them binds
(`Continuation.precedence`).  `UnaryOp.ofSymbol?` lists the symbols that can stand in front of an operand.
-/

namespace BraceScript

/-- How tightly an operator binds, from the weakest level to the tightest. -/
inductive Precedence where
  | lowest | comma | assignment | logical | relational | additive | multiplicative | unary | call | member | primary
deriving DecidableEq, Repr

namespace Precedence

/-- All levels, weakest first. -/
def all : List Precedence :=
  [lowest, comma, assignment, logical, relational, additive, multiplicative, unary, call, member, primary]

/-- The rank of the level; a larger one binds tighter. -/
def rank : Precedence → Nat
  | lowest => 0
  | comma => 1
  | assignment => 2
  | logical => 3
  | relational => 4
  | additive => 5
  | multiplicative => 6
  | unary => 7
  | call => 8
  | member => 9
  | primary => 10

def name : Precedence → String
  | lowest => "Default"
  | comma => "Comma"
  | assignment => "Assignment"
  | logical => "Logical"
  | relational => "Relational"
  | additive => "Additive"
  | multiplicative => "Multiplicative"
  | unary => "Unary"
  | call => "Call"
  | member => "Member"
  | primary => "Primary"

/-- The next weaker level; the weakest is its own. -/
def lower : Precedence → Precedence
  | lowest => lowest
  | comma => lowest
  | assignment => comma
  | logical => assignment
  | relational => logical
  | additive => relational
  | multiplicative => additive
  | unary => multiplicative
  | call => unary
  | member => call
  | primary => member

end Precedence

/-- The operator that the symbol stands for in front of an operand. -/
def UnaryOp.ofSymbol? : Symbol → Option UnaryOp
  | .plus => some .plus
  | .minus => some .minus
  | .not => some .not
  | .plusPlus => some .increment
  | .minusMinus => some .decrement
  | _ => none

/-- What a token after an expression starts. -/
inductive Continuation where
  | binary (op : BinaryOp)
  | assign (op : AssignOp)
  | call
  | step (op : UnaryOp)
  | property
  | index
deriving DecidableEq, Repr

namespace Continuation

def ofSymbol? : Symbol → Option Continuation
  | .assign => some (assign .set)
  | .plusAssign => some (assign (.update .add))
  | .minusAssign => some (assign (.update .sub))
  | .starAssign => some (assign (.update .mul))
  | .slashAssign => some (assign (.update .div))
  | .percentAssign => some (assign (.update .mod))
  | .and => some (binary .and)
  | .or => some (binary .or)
  | .dotDot => some (binary .range)
  | .less => some (binary (.compare .less))
  | .lessEquals => some (binary (.compare .lessEqual))
  | .greater => some (binary (.compare .greater))
  | .greaterEquals => some (binary (.compare .greaterEqual))
  | .equals => some (binary .equal)
  | .notEquals => some (binary .notEqual)
  | .plus => some (binary (.arith .add))
  | .minus => some (binary (.arith .sub))
  | .star => some (binary (.arith .mul))
  | .slash => some (binary (.arith .div))
  | .percent => some (binary (.arith .mod))
  | .lParen => some call
  | .plusPlus => some (step .increment)
  | .minusMinus => some (step .decrement)
  | .dot => some property
  | .lBracket => some index
  | _ => none

def ofKind? : Kind → Option Continuation
  | .symbol s => ofSymbol? s
  | _ => none

/-- The level of a binary operator. -/
def binaryPrecedence : BinaryOp → Precedence
  | .and | .or | .range => .logical
  | .compare _ | .equal | .notEqual => .relational
  | .arith .add | .arith .sub => .additive
  | .arith .mul | .arith .div | .arith .mod => .multiplicative

def precedence : Continuation → Precedence
  | binary op => binaryPrecedence op
  | assign _ => .assignment
  | call | step _ => .call
  | property | index => .member

end Continuation

end BraceScript
