import BraceScript.Number.Binary64

/-!
# Doubles that single precision represents

The bits of a double are its sign and its magnitude, and magnitudes are in the order of the numbers: the next larger
double has the next larger magnitude.  So the double nearest to another one among those that single precision
represents (`Binary32.nearest`) is found by rounding the mantissa, where a carry into the exponent does no harm.
-/

namespace BraceScript.Binary32

/-- The sign of a double; the bits below are its magnitude. -/
def signBit : Nat := 9223372036854775808

/-- The exponent of the magnitudes of infinity and NaN. -/
def specialExponent : Nat := 2047

/-- The exponent of the smallest double that has full precision in single precision. -/
def normalExponent : Nat := 897

/-- The exponent of the smallest double that is too large for single precision. -/
def largeExponent : Nat := 1151

/-- What the last bit of single precision is worth in a double with the given exponent, measured in last bits of the
double: 29 bits are dropped, and more below the smallest number of full precision. -/
def lastBit (exponent : Nat) : Nat := Nat.pow 2 (29 + (normalExponent - exponent))

/-- The magnitude nearest to `m` among those that single precision represents; a half goes to the even neighbour. -/
def roundMagnitude (m : Nat) : Nat :=
  let exponent := m / Binary64.hiddenBit
  if exponent = specialExponent then m
  else
    let mantissa := Binary64.hiddenBit + m % Binary64.hiddenBit
    let rounded := Binary64.roundDiv mantissa (lastBit exponent) * lastBit exponent
    if rounded = 0 then 0
    else
      let nearest := (exponent - 1) * Binary64.hiddenBit + rounded
      if nearest < largeExponent * Binary64.hiddenBit then nearest else specialExponent * Binary64.hiddenBit

/-- The double nearest to `x` among those that single precision represents. -/
def nearest (x : Float) : Float :=
  let bits := x.toBits.toNat
  Float.ofBits (bits / signBit * signBit + roundMagnitude (bits % signBit)).toUInt64

end BraceScript.Binary32
