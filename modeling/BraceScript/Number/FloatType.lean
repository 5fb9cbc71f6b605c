import BraceScript.Number.Binary32

/-!
# Float types

Floats are doubles with a width; a value of the narrow type is a double that single precision represents
(`FloatType.round`).  `FloatType.ofLiteral` chooses the width of a literal from its text.
-/

namespace BraceScript

/-- A float type. -/
inductive FloatType where
  | f32 | f64
deriving DecidableEq, Repr

namespace FloatType

def bits : FloatType → Nat
  | f32 => 32
  | f64 => 64

def ofBits? : Nat → Option FloatType
  | 32 => some f32
  | 64 => some f64
  | _ => none

/-- The name of the type. -/
def name (t : FloatType) : String := "f" ++ toString t.bits

/-- The value of the type nearest to `x`. -/
def round : FloatType → Float → Float
  | f32, x => Binary32.nearest x
  | f64, x => x

/-- The wider of two types. -/
def join : FloatType → FloatType → FloatType
  | f32, f32 => f32
  | _, _ => f64

/-- The number of decimal digits that single precision keeps. -/
def singleDigits : Nat := 7

/-- The type of the literal `text` with value `x`: single precision if it has few enough digits, leading zeros apart,
and is not too large. -/
def ofLiteral (text : String) (x : Float) : FloatType :=
  let digits := (text.toList.filter Char.isDigit).dropWhile (· = '0')
  if digits.length ≤ singleDigits ∧ (round f32 x).isFinite then f32 else f64

end FloatType

end BraceScript
