/-!
# Doubles as integers times powers of two

A finite double is `± m · 2 ^ q` with natural `m` (`Binary64`).  On this form three things are exact that the float
operations do not offer: rounding a ratio of naturals to the nearest double (`Binary64.ofRatio`), the remainder of a
truncated division (`Binary64.remainder`), and the interval of reals that round to a double, from which its shortest
decimal is found.
-/

namespace BraceScript

/-- The finite double `± mantissa · 2 ^ exponent`. -/
structure Binary64 where
  negative : Bool
  mantissa : Nat
  exponent : Int
deriving DecidableEq, Repr

namespace Binary64

/-- The exponent of the smallest positive double. -/
def minExponent : Int := -1074

/-- The bit in front of the fraction, which the mantissa of every normal double has. -/
def hiddenBit : Nat := 4503599627370496

/-- The parts of a finite double; infinities and NaN have none. -/
def ofFloat? (x : Float) : Option Binary64 :=
  let bits := x.toBits.toNat
  let negative := 2048 ≤ bits / hiddenBit
  let biased : Nat := bits / hiddenBit % 2048
  let fraction : Nat := bits % hiddenBit
  if biased = 2047 then none
  else if biased = 0 then some ⟨negative, fraction, minExponent⟩
  else some ⟨negative, hiddenBit + fraction, minExponent + (biased - 1)⟩

/-- The double with these parts.  It is exact for a mantissa of at most 53 bits and an exponent of at least
`minExponent`, and infinite if the value is too large. -/
def toFloat (b : Binary64) : Float :=
  let x := Float.scaleB b.mantissa.toUInt64.toFloat b.exponent
  if b.negative then -x else x

/-- The natural number nearest to `num / den`; a half goes to the even neighbour. -/
def roundDiv (num den : Nat) : Nat :=
  let q := num / den
  let r := num % den
  if 2 * r < den then q else if den < 2 * r then q + 1 else q + q % 2

/-- The ratio `num / den` in units of `2 ^ e`, as a numerator and a denominator. -/
def inUnits (num den : Nat) (e : Int) : Nat × Nat :=
  let power := Nat.pow 2 e.natAbs
  if e < 0 then (num * power, den) else (num, den * power)

/-- The double nearest to `num / den`; a half goes to the even mantissa. -/
def ofRatio (num den : Nat) : Float :=
  if num = 0 then 0
  else
    let estimate : Int := (num.log2 : Int) - (den.log2 : Int) - 53
    let (n, d) := inUnits num den estimate
    let e := max minExponent (if n / d < 2 * hiddenBit then estimate else estimate + 1)
    let (n, d) := inUnits num den e
    toFloat ⟨false, roundDiv n d, e⟩

/-- The double nearest to `n`. -/
def ofInt (n : Int) : Float := if n < 0 then -ofRatio n.natAbs 1 else ofRatio n.natAbs 1

/-- The remainder of the division of `x` by `y` truncated toward zero.  It has the sign of `x`. -/
def remainder (x y : Float) : Float :=
  match ofFloat? x, ofFloat? y with
  | some a, some b =>
    if b.mantissa = 0 then 0 / 0
    else
      let e := min a.exponent b.exponent
      let dividend := a.mantissa * Nat.pow 2 (a.exponent - e).natAbs
      let divisor := b.mantissa * Nat.pow 2 (b.exponent - e).natAbs
      toFloat ⟨a.negative, dividend % divisor, e⟩
  | some _, none => if y.isNaN then y else x
  | none, _ => 0 / 0

end Binary64

end BraceScript
