import BraceScript.Value.Conform

/-!
# Operators on values

Integer arithmetic is exact as long as it stays within 128 bits (`Value.integerArith`); the result is tagged with the
narrowest type that is no narrower than the operands (`Value.combined`).  With a float on either side the operation
is done on doubles.  Strings are joined with `+`, also to a value that can be printed.
-/

namespace BraceScript.Value

/-- What an operator yields: a value, or what is wrong. -/
abbrev Result := Except RuntimeError.Cause Value

/-! ### Arithmetic -/

/-- The exact result of an operation on integers.  Division goes toward zero, and the remainder has the sign of the
dividend. -/
def exactArith (op : ArithOp) (a b : Int) : Int :=
  match op with
  | .add => a + b
  | .sub => a - b
  | .mul => a * b
  | .div => a.tdiv b
  | .mod => a.tmod b

/-- Whether an operation on integers leaves the widest range.  A remainder is out of range with its quotient. -/
def overflows (op : ArithOp) (a b : Int) : Bool :=
  match op with
  | .mod => !IntType.widest.holds (a.tdiv b)
  | _ => !IntType.widest.holds (exactArith op a b)

/-- Whether an operation divides by its right operand. -/
def divides : ArithOp → Bool
  | .div | .mod => true
  | _ => false

/-- The result `n` of combining integers of types `s` and `t`.  It is signed if one of them is or if it is
negative. -/
def combined (s t : IntType) (n : Int) : Value :=
  let signed := s.signed || t.signed || n < 0
  integer n ⟨.joined s.width t.width signed n, signed⟩

/-- An operation on integers. -/
def integerArith (op : ArithOp) (a : Int) (s : IntType) (b : Int) (t : IntType) : Result :=
  if divides op && b == 0 then .error .divisionByZero
  else if overflows op a b then .error (.overflow op.symbol)
  else .ok (combined s t (exactArith op a b))

/-- An operation on doubles. -/
def floatArith (op : ArithOp) (x : Float) (s : FloatType) (y : Float) (t : FloatType) : Result :=
  if divides op && y == 0 then .error .divisionByZero
  else
    let z :=
      match op with
      | .add => x + y
      | .sub => x - y
      | .mul => x * y
      | .div => x / y
      | .mod => Binary64.remainder x y
    .ok (float z (s.join t))

/-- A number as a double for arithmetic; an integer counts as one of the narrow type. -/
def asFloat? : Value → Option (Float × FloatType)
  | float x t => some (x, t)
  | integer n _ => some (Binary64.ofInt n, .f32)
  | _ => none

/-- An operator between values that it does not support. -/
def unsupported (op : String) (left right : Value) : RuntimeError.Cause :=
  .typeMismatch (.operands op left.typeName right.typeName)

/-- An operation on values other than two integers or a string and something printable. -/
def mixedArith (op : ArithOp) (left right : Value) : Result :=
  match left.asFloat?, right.asFloat? with
  | some (x, s), some (y, t) => floatArith op x s y t
  | _, _ => .error (unsupported op.symbol left right)

/-- The result of joining two values as text, if one is a string and the other can be printed. -/
def joined? (left right : Value) : Option Value :=
  match left, right with
  | string a, b => if b.isPrintable then some (string (a ++ b.text)) else none
  | a, string b => if a.isPrintable then some (string (a.text ++ b)) else none
  | _, _ => none

def arith (op : ArithOp) (left right : Value) : Result :=
  match left, right with
  | integer a s, integer b t => integerArith op a s b t
  | _, _ =>
    match op, joined? left right with
    | .add, some v => .ok v
    | _, _ => mixedArith op left right

/-! ### Comparisons -/

/-- A value as a double for comparisons.  Characters count by their code. -/
def asNumber? : Value → Option Float
  | integer n _ => some (Binary64.ofInt n)
  | float x _ => some x
  | character c => some (Binary64.ofInt c.toNat)
  | _ => none

/-- The order of two doubles; a NaN has none. -/
def floatOrder? (x y : Float) : Option Ordering :=
  if x < y then some .lt else if x == y then some .eq else if y < x then some .gt else none

/-- The order of two values that are numbers or characters.  Two integers are compared exactly.  The inner option is
empty for a NaN. -/
def order? (left right : Value) : Option (Option Ordering) :=
  match left, right with
  | integer a _, integer b _ => some (some (compare a b))
  | _, _ =>
    match left.asNumber?, right.asNumber? with
    | some x, some y => some (floatOrder? x y)
    | _, _ => none

/-- Whether a comparison holds of two values in the given order. -/
def holdsOf : Comparison → Ordering → Bool
  | .less, o => o == .lt
  | .lessEqual, o => o != .gt
  | .greater, o => o == .gt
  | .greaterEqual, o => o != .lt

/-- An order comparison.  Nothing holds of a NaN. -/
def comparison (op : Comparison) (left right : Value) : Result :=
  match order? left right with
  | none => .error (unsupported op.symbol left right)
  | some none => .ok (boolean false)
  | some (some o) => .ok (boolean (holdsOf op o))

/-- Whether two values are equal, where the language compares them.  `null` equals only itself. -/
def equal? (left right : Value) : Option Bool :=
  match left, right with
  | null, null => some true
  | null, _ => some false
  | _, null => some false
  | string a, string b => some (a == b)
  | boolean a, boolean b => some (a == b)
  | _, _ => (order? left right).map (· == some .eq)

/-! ### Ranges -/

/-- The number of integers from `a` up to, not including, `b`.  A difference of more than 128 bits counts as the
largest number of 128 bits. -/
def rangeSize (a b : Int) : Nat :=
  if IntType.widest.holds (b - a) then (b - a).toNat else (IntType.maxValue ⟨.w128, false⟩).toNat

/-- The wider of two widths. -/
def widerOf (a b : Width) : Width := if a.bits < b.bits then b else a

/-- The array of the integers from `left` up to, not including, `right`. -/
def range (left right : Value) : Result :=
  match left, right with
  | integer a s, integer b t =>
    let size := rangeSize a b
    if maxRangeSize < size then .error (.rangeTooLarge size)
    else
      let type : IntType := ⟨widerOf s.width t.width, true⟩
      .ok (array ((List.range size).map fun (i : Nat) => integer (a + i) type))
  | _, _ => .error (unsupported ".." left right)

/-! ### The operators -/

/-- A binary operator. -/
def binary (op : BinaryOp) (left right : Value) : Result :=
  match op with
  | .arith op => arith op left right
  | .compare op => comparison op left right
  | .equal => test op id (equal? left right)
  | .notEqual => test op not (equal? left right)
  | .and => .ok (boolean (left.isTruthy && right.isTruthy))
  | .or => .ok (boolean (left.isTruthy || right.isTruthy))
  | .range => range left right
where
  test (op : BinaryOp) (f : Bool → Bool) : Option Bool → Result
    | some b => .ok (boolean (f b))
    | none => .error (unsupported op.symbol left right)

/-- An operand that a unary operator does not take. -/
def badOperand (op : UnaryOp) (wanted : String) (v : Value) : RuntimeError.Cause :=
  .typeMismatch (.operand op.symbol wanted v.typeName)

/-- The integer `n`, computed from one of type `t`. -/
def stepped (op : UnaryOp) (t : IntType) (signed : Bool) (n : Int) : Result :=
  if IntType.widest.holds n then .ok (integer n ⟨.joined t.width t.width signed n, signed⟩)
  else .error (.overflow op.symbol)

/-- A unary operator.  For `++` and `--` this is the new value. -/
def unary (op : UnaryOp) (v : Value) : Result :=
  match op, v with
  | .plus, integer .. | .plus, float .. => .ok v
  | .plus, _ => .error (badOperand op "a number" v)
  | .minus, integer n t => stepped op t true (-n)
  | .minus, float x t => .ok (float (-x) t)
  | .minus, _ => .error (badOperand op "a number" v)
  | .not, boolean b => .ok (boolean !b)
  | .not, _ => .error (badOperand op "a `bool`" v)
  | .increment, integer n t => stepped op t (t.signed || n + 1 < 0) (n + 1)
  | .decrement, integer n t => stepped op t (t.signed || n - 1 < 0) (n - 1)
  | .increment, _ | .decrement, _ => .error (badOperand op "an integer" v)

end BraceScript.Value
