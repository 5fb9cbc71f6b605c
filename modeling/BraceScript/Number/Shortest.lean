import BraceScript.Number.Binary64

/-!
# The shortest decimal of a double

`Decimal.shortest` finds the decimal with the fewest digits among those that round to a given double, and of several
with that many digits the one nearest to it.  For one digit, two digits and so on the two neighbours of the value on
the grid of that many digits are tried: if any point of the grid rounds to the double, so does one of these.
-/

namespace BraceScript

/-- The positive decimal `digits · 10 ^ exponent`. -/
structure Decimal where
  digits : Nat
  exponent : Int
deriving DecidableEq, Repr

namespace Decimal

/-- Which neighbour is taken when both are equally near. -/
inductive Tie where
  | upper
  | even
deriving DecidableEq, Repr

/-- The number of decimal digits of `n`. -/
def digitCount (n : Nat) : Nat := (Nat.toDigits 10 n).length

/-- The same value with no trailing zero among the digits. -/
def stripZeros (d : Decimal) : Decimal :=
  if h : d.digits ≠ 0 ∧ d.digits % 10 = 0 then stripZeros ⟨d.digits / 10, d.exponent + 1⟩ else d
termination_by d.digits
decreasing_by omega

/-- The values that round to a double, as numerators over one denominator: the double itself and the two ends of the
interval, which belong to it if `closed`. -/
structure Neighbourhood where
  low : Nat
  value : Nat
  high : Nat
  den : Nat
  closed : Bool
deriving DecidableEq, Repr

namespace Neighbourhood

/-- The neighbourhood of a positive double.  Its ends lie halfway to the next doubles; below a power of two these are
twice as dense.  An end rounds to the even mantissa. -/
def of (b : Binary64) : Neighbourhood :=
  let m := b.mantissa
  let dense := m = Binary64.hiddenBit ∧ Binary64.minExponent < b.exponent
  let scale := if b.exponent < 2 then 1 else Nat.pow 2 (b.exponent - 2).natAbs
  { low := (4 * m - if dense then 1 else 2) * scale
    value := 4 * m * scale
    high := (4 * m + 2) * scale
    den := if b.exponent < 2 then Nat.pow 2 (2 - b.exponent).natAbs else 1
    closed := m % 2 = 0 }

/-- Whether the decimal `d` rounds to the double. -/
def holds (n : Neighbourhood) (d : Decimal) : Bool :=
  let power := Nat.pow 10 d.exponent.natAbs
  let (num, den) := if d.exponent < 0 then (d.digits, power) else (d.digits * power, 1)
  if n.closed then n.low * den ≤ num * n.den && num * n.den ≤ n.high * den
  else n.low * den < num * n.den && num * n.den < n.high * den

/-- The value in units of `10 ^ e`, as a numerator and a denominator. -/
def inUnits (n : Neighbourhood) (e : Int) : Nat × Nat :=
  let power := Nat.pow 10 e.natAbs
  if e < 0 then (n.value * power, n.den) else (n.value, n.den * power)

/-- The least `e` with `value < 10 ^ e`.  No positive double is less than `10 ^ (-400)`. -/
def magnitude (n : Neighbourhood) : Int := digitCount (n.value * Nat.pow 10 400 / n.den) - 400

/-- The point of the grid `10 ^ e` that rounds to the double and is nearest to it. -/
def nearest? (n : Neighbourhood) (tie : Tie) (e : Int) : Option Decimal :=
  let (num, den) := n.inUnits e
  let below : Decimal := ⟨num / den, e⟩
  let above : Decimal := ⟨num / den + 1, e⟩
  let rest := 2 * (num % den)
  match n.holds below, n.holds above with
  | true, true =>
    if rest < den then below
    else if den < rest then above
    else if tie = .even ∧ below.digits % 2 = 0 then below
    else above
  | true, false => below
  | false, true => above
  | false, false => none

end Neighbourhood

/-- The shortest decimal that rounds to the positive double `b`.  Seventeen digits always suffice. -/
def shortest (tie : Tie) (b : Binary64) : Decimal :=
  let n := Neighbourhood.of b
  let e := n.magnitude
  let hit := (List.range 17).findSome? fun (k : Nat) => n.nearest? tie (e - (k + 1))
  (hit.getD ⟨0, 0⟩).stripZeros

end Decimal

end BraceScript
