import BraceScript.Syntax

/-!
# Faults of evaluation

The ways in which a program can go wrong while it runs, as causes; `RuntimeError.Cause.code`, `message` and `hints`
give each its wording.  Values appear in causes only by the names of their types.
-/

namespace BraceScript

/-- How a value fails to be of the kind that is needed. -/
inductive Mismatch where
  /-- An integer outside the range of the declared type. -/
  | outOfRange (value : Int) (type : Ty)
  | expected (type : Ty) (found : String)
  /-- A new value that a variable cannot take. -/
  | notStorable (found held : String)
  | operands (op left right : String)
  | operand (op wanted found : String)
  | argument (param function : String) (inner : Mismatch)
  | result (function : String) (inner : Mismatch)
  | position (found : String)
  | notIndexable (found : String)
  | notIterable (found : String)
  | noProperties (property found : String)
deriving DecidableEq, Repr

def Mismatch.message : Mismatch → String
  | outOfRange value type => "`" ++ toString value ++ "` does not fit in `" ++ type.text ++ "` (potential data loss)"
  | expected type found => "expected `" ++ type.text ++ "`, found `" ++ found ++ "`"
  | notStorable found held => "cannot assign `" ++ found ++ "` to a variable of type `" ++ held ++ "`"
  | operands op left right => "`" ++ op ++ "` is not supported between `" ++ left ++ "` and `" ++ right ++ "`"
  | operand op wanted found => "`" ++ op ++ "` expects " ++ wanted ++ ", found `" ++ found ++ "`"
  | argument param function inner => "argument `" ++ param ++ "` of `" ++ function ++ "`: " ++ inner.message
  | result function inner => "`" ++ function ++ "` returned a bad value: " ++ inner.message
  | position found => "index must be an integer, found `" ++ found ++ "`"
  | notIndexable found => "cannot index into `" ++ found ++ "`"
  | notIterable found => "cannot iterate over `" ++ found ++ "`"
  | noProperties property found => "cannot read property `" ++ property ++ "` of `" ++ found ++ "`"

/-- Why nothing can be assigned to a target. -/
inductive BadTarget where
  | notRootedInVariable
  | notATarget (target : String)
  | staticProperty (property struct : String)
  | noProperties (found : String)
deriving DecidableEq, Repr

def BadTarget.message : BadTarget → String
  | notRootedInVariable => "only properties of variables can be assigned"
  | notATarget target => "cannot assign to `" ++ target ++ "`"
  | staticProperty property struct =>
    "static property `" ++ property ++ "` of `" ++ struct ++ "` cannot be set on an instance"
  | noProperties found => "cannot set a property on `" ++ found ++ "`"

/-- The most elements that a range may have. -/
def maxRangeSize : Nat := 1048576

/-- What went wrong. -/
inductive RuntimeError.Cause where
  | undeclared (name : String)
  | alreadyDeclared (name : String)
  | constantReassignment (name : String)
  | typeMismatch (mismatch : Mismatch)
  | divisionByZero
  | invalidAssignment (target : BadTarget)
  | notCallable (name : String)
  | arityMismatch (name : String) (expected found : Nat)
  | unknownStruct (name : String)
  | unknownProperty (struct property : String)
  | readonlyProperty (struct property : String)
  | indexOutOfBounds (index : Int) (size : Nat)
  | overflow (op : String)
  | missingReturn (name : String) (expected : Ty)
  | rangeTooLarge (size : Nat)
  | callDepthExceeded (limit : Nat)
  | staleScope (name : String)
  | builtin (name message : String)
deriving DecidableEq, Repr

namespace RuntimeError.Cause

def code : Cause → String
  | undeclared _ => "E201"
  | alreadyDeclared _ => "E202"
  | constantReassignment _ => "E203"
  | typeMismatch _ => "E204"
  | divisionByZero => "E205"
  | invalidAssignment _ => "E206"
  | notCallable _ => "E207"
  | arityMismatch .. => "E208"
  | unknownStruct _ => "E209"
  | unknownProperty .. => "E210"
  | readonlyProperty .. => "E211"
  | indexOutOfBounds .. => "E212"
  | overflow _ => "E213"
  | missingReturn .. => "E214"
  | callDepthExceeded _ => "E215"
  | staleScope _ => "E216"
  | builtin .. => "E217"
  | rangeTooLarge _ => "E218"

def message : Cause → String
  | undeclared name => "`" ++ name ++ "` is not declared"
  | alreadyDeclared name => "`" ++ name ++ "` is already declared in this scope"
  | constantReassignment name => "cannot reassign constant `" ++ name ++ "`"
  | typeMismatch mismatch => mismatch.message
  | divisionByZero => "division by zero is forbidden"
  | invalidAssignment target => target.message
  | notCallable name => "`" ++ name ++ "` is not a function"
  | arityMismatch name expected found =>
    "`" ++ name ++ "` expects " ++ toString expected ++ " argument" ++ (if expected = 1 then "" else "s")
      ++ ", found " ++ toString found
  | unknownStruct name => "struct `" ++ name ++ "` is not declared"
  | unknownProperty struct property => "struct `" ++ struct ++ "` has no property `" ++ property ++ "`"
  | readonlyProperty struct property => "property `" ++ property ++ "` of `" ++ struct ++ "` is readonly"
  | indexOutOfBounds index size =>
    "index " ++ toString index ++ " is out of bounds for length " ++ toString size
  | overflow op => "integer overflow in `" ++ op ++ "`"
  | missingReturn name expected => "function `" ++ name ++ "` must return a value of type `" ++ expected.text ++ "`"
  | rangeTooLarge size =>
    "range of " ++ toString size ++ " elements exceeds the limit of " ++ toString maxRangeSize
  | callDepthExceeded limit => "call depth exceeded the limit of " ++ toString limit
  | staleScope name => "scope of `" ++ name ++ "` is no longer alive"
  | builtin name message => name ++ ": " ++ message

def hints : Cause → List String
  | undeclared name => ["declare it first with `let " ++ name ++ " := ...;`"]
  | constantReassignment name => ["declare `" ++ name ++ "` with `let` to make it mutable"]
  | missingReturn .. => ["add a `ret` statement to every path through the body"]
  | readonlyProperty .. => ["readonly properties can only be set in a struct literal"]
  | callDepthExceeded _ => ["raise `interpreter.max_call_depth` in walrus.toml (at most 1024)"]
  | rangeTooLarge _ => ["iterate with a `for` loop instead of building the range"]
  | _ => []

end RuntimeError.Cause

/-- A fault and the place in the program that it is reported at. -/
structure RuntimeError where
  cause : RuntimeError.Cause
  span : Span
deriving DecidableEq, Repr

end BraceScript
