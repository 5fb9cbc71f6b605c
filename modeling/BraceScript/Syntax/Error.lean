import BraceScript.Token

/-!
# Faults of grammar

The ways in which a token sequence is not a program, as causes; `SyntaxError.Cause.code`, `message` and `hints` give
each its wording.  A text can also be accepted with a `SyntaxWarning`.
-/

namespace BraceScript

/-- Why a token sequence is not a program.  Expressions are kept as their text. -/
inductive SyntaxError.Cause where
  | expected (wanted found : Kind)
  | expectedExpression (found : Kind)
  | notAssignable (target : String)
  | notCallable (callee : String)
  | notSteppable (op : Kind)
  | notIndexable (base : String)
  | literalTooLarge (text : String)
  | missingInitialiser (name : String)
  | expectedMember (found : Kind)
  | repeatedMember (member struct : String)
  | repeatedField (name : String)
  | repeatedParam (name : String)
  | nestedImport
  | uninitialisedConstant (name : String)
  | expectedType (found : Kind)
  | repeatedModule (name : String)
deriving DecidableEq, Repr

namespace SyntaxError.Cause

def code : Cause → String
  | expected .. => "E101"
  | expectedExpression _ => "E102"
  | notAssignable _ => "E104"
  | notCallable _ => "E105"
  | notSteppable _ => "E106"
  | notIndexable _ => "E107"
  | literalTooLarge _ => "E108"
  | missingInitialiser _ => "E109"
  | expectedMember _ => "E110"
  | repeatedMember .. => "E111"
  | repeatedField _ => "E112"
  | repeatedParam _ => "E113"
  | nestedImport => "E114"
  | uninitialisedConstant _ => "E115"
  | expectedType _ => "E116"
  | repeatedModule _ => "E117"

def message : Cause → String
  | expected wanted found => "expected " ++ wanted.describe ++ ", found " ++ found.describe
  | expectedExpression found => "expected an expression, found " ++ found.describe
  | notAssignable target => "cannot assign to `" ++ target ++ "`"
  | notCallable callee => "`" ++ callee ++ "` cannot be called"
  | notSteppable op => op.describe ++ " can only follow a variable name"
  | notIndexable base => "`" ++ base ++ "` cannot be indexed"
  | literalTooLarge text => "integer literal `" ++ text ++ "` does not fit in 128 bits"
  | missingInitialiser name => "`" ++ name ++ "` needs a value after `:=`"
  | expectedMember found => "expected access modifier, found " ++ found.describe
  | repeatedMember member struct => "member `" ++ member ++ "` is already declared in `" ++ struct ++ "`"
  | repeatedField name => "property `" ++ name ++ "` specified more than once"
  | repeatedParam name => "parameter `" ++ name ++ "` is declared more than once"
  | nestedImport => "imports are only allowed at the top level"
  | uninitialisedConstant name => "constant `" ++ name ++ "` must be initialized"
  | expectedType found => "expected a type, found " ++ found.describe
  | repeatedModule name => "module name is already declared as `" ++ name ++ "`"

def hints : Cause → List String
  | notAssignable _ => ["only variables and struct properties can be assigned"]
  | notCallable _ => ["only functions referenced by name can be called"]
  | notIndexable _ => ["bind the value to a variable and index that"]
  | missingInitialiser name => ["write `" ++ name ++ " := <value>;` or `" ++ name ++ ": <type>;`"]
  | expectedMember _ => ["start every member with `pub` or `priv`", "e.g. `pub readonly name: str;`"]
  | _ => []

end SyntaxError.Cause

/-- A fault of grammar and where it stands. -/
structure SyntaxError where
  cause : SyntaxError.Cause
  span : Span
deriving DecidableEq, Repr

/-- What is doubtful about an accepted text. -/
inductive SyntaxWarning.Cause where
  | unknownType (name : String)
deriving DecidableEq, Repr

namespace SyntaxWarning.Cause

def code : Cause → String
  | unknownType _ => "W001"

def message : Cause → String
  | unknownType name => "unknown type `" ++ name ++ "` is treated as `null`"

end SyntaxWarning.Cause

/-- A warning and the place it is about. -/
structure SyntaxWarning where
  cause : SyntaxWarning.Cause
  span : Span
deriving DecidableEq, Repr

end BraceScript
