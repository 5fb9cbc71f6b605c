import BraceScript.Syntax
import BraceScript.Number.Layout

/-!
# Values

The values that programs compute with.  Integers and floats carry the type they are tagged with; an array is the list
of its items; an instance keeps its declaration and its fields, sorted by name.  A function value is the declaration
together with the scope it was declared in; as a scope declares a name once, the two identify it.
-/

namespace BraceScript

/-- A handle on a scope: a slot and which of its successive tenants is meant. -/
structure ScopeId where
  index : Nat
  generation : UInt32
deriving DecidableEq, Repr

inductive Value where
  | integer (value : Int) (type : IntType)
  | float (value : Float) (type : FloatType)
  | boolean (value : Bool)
  | string (value : String)
  | character (value : Char)
  | null
  | void
  | function (decl : FunctionDecl) (closure : ScopeId)
  /-- A built-in function, by name. -/
  | builtin (name : String)
  | array (items : List Value)
  | struct (decl : StructDecl) (fields : List (String × Value))

namespace Value

instance : Inhabited Value := ⟨null⟩

/-- A signed integer of the narrowest type that holds it. -/
def int (n : Int) : Value := integer n ⟨.narrowest n, true⟩

def i64 (n : Int) : Value := integer n .i64

def ofLiteral : Literal → Value
  | .integer value width => integer value ⟨width, true⟩
  | .float value type => float value type
  | .string value => string value
  | .character value => character value
  | .boolean value => boolean value
  | .null => null

/-! ### Fields -/

/-- The field called `name`. -/
def field? (name : String) : List (String × Value) → Option Value
  | [] => none
  | (n, v) :: fields => if n = name then some v else field? name fields

/-- The fields with the one called `name` set to `value`.  The order by name is kept. -/
def setField (name : String) (value : Value) : List (String × Value) → List (String × Value)
  | [] => [(name, value)]
  | (n, v) :: fields =>
    if n = name then (name, value) :: fields
    else if name < n then (name, value) :: (n, v) :: fields
    else (n, v) :: setField name value fields

/-! ### Observations -/

/-- The name of the type of a value.  An array is named after its first item. -/
def typeName : Value → String
  | integer _ t => t.name
  | float _ t => t.name
  | boolean _ => "bool"
  | string _ => "str"
  | character _ => "char"
  | null => "null"
  | void => "void"
  | function .. | builtin _ => "fn"
  | array [] => "[]"
  | array (item :: _) => "[]" ++ item.typeName
  | struct d _ => d.name.name

/-- Whether a condition with this value holds. -/
def isTruthy : Value → Bool
  | integer n _ => n ≠ 0
  | float x _ => x != 0
  | boolean b => b
  | string s => s ≠ ""
  | character c => c ≠ '\x00'
  | null | void => false
  | array items => !items.isEmpty
  | function .. | builtin _ | struct .. => true

/-- Whether the value can be joined to a string. -/
def isPrintable : Value → Bool
  | integer .. | float .. | boolean _ | string _ | character _ | null => true
  | _ => false

mutual

/-- The text that programs print for a value. -/
def text : Value → String
  | integer n _ => toString n
  | float x _ => Layout.plain.write x
  | boolean true => "true"
  | boolean false => "false"
  | string s => s
  | character c => c.toString
  | null => "null"
  | void => "void"
  | function d _ => "<fn " ++ d.name.name ++ ">"
  | builtin name => "<native fn " ++ name ++ ">"
  | array items => "[" ++ itemsText "" items ++ "]"
  | struct d fields => d.name.name ++ " \x7b" ++ fieldsText " " fields ++ " \x7d"

/-- Items separated by commas, the first one after the text `before`. -/
def itemsText (before : String) : List Value → String
  | [] => ""
  | item :: items => before ++ item.text ++ itemsText ", " items

/-- Named fields separated by commas, the first one after the text `before`. -/
def fieldsText (before : String) : List (String × Value) → String
  | [] => ""
  | (name, value) :: fields => before ++ name ++ ": " ++ value.text ++ fieldsText ", " fields

end

mutual

/-- Whether two values are the same.  The tags of numbers do not count, and instances are compared by the name of
their struct and by their fields. -/
def same : Value → Value → Bool
  | integer a _, integer b _ => a == b
  | float a _, float b _ => a == b
  | boolean a, boolean b => a == b
  | string a, string b => a == b
  | character a, character b => a == b
  | null, null => true
  | void, void => true
  | function d c, function e k => d.name.name == e.name.name && c == k
  | builtin a, builtin b => a == b
  | array xs, array ys => sameItems xs ys
  | struct d fs, struct e gs => d.name.name == e.name.name && sameFields fs gs
  | _, _ => false

def sameItems : List Value → List Value → Bool
  | [], [] => true
  | x :: xs, y :: ys => x.same y && sameItems xs ys
  | _, _ => false

def sameFields : List (String × Value) → List (String × Value) → Bool
  | [], [] => true
  | (n, x) :: fs, (m, y) :: gs => n == m && x.same y && sameFields fs gs
  | _, _ => false

end

end Value

end BraceScript
