import BraceScript.Number.Shortest

/-!
# The text of a double

A `Layout` is one way to write a double from its shortest digits: which magnitudes are written without an exponent,
whether a whole number keeps a fraction, and how an exponent is signed.  `Layout.tagged` tells floats from integers,
`Layout.plain` is the text that programs print, and `Layout.json` is the one in printed syntax trees.
-/

namespace BraceScript

/-- A way to write doubles. -/
structure Layout where
  /-- The exponents (of the first digit) that are written without exponent: from the first up to, not including, the
  second.  Without bounds no exponent is ever written. -/
  positional : Option (Int × Int)
  /-- Whether a whole number ends in `.0`. -/
  keepsFraction : Bool
  /-- Whether a positive exponent has a plus sign. -/
  plusSign : Bool
  tie : Decimal.Tie
deriving DecidableEq, Repr

namespace Layout

/-- Floats told apart from integers: `1.0`, `0.0001`, `1e16`, `1.5e-7`. -/
def tagged : Layout := ⟨some (-4, 16), true, false, .upper⟩

/-- Floats without exponent: `1`, `0.1`, `100000000000000000000`. -/
def plain : Layout := ⟨none, false, false, .upper⟩

/-- Floats as JSON numbers: `1.0`, `0.00001`, `1e-6`, `1e+16`. -/
def json : Layout := ⟨some (-5, 16), true, true, .even⟩

/-- The digits `ds`, whose first one has the weight `10 ^ magnitude`, without an exponent. -/
def writePositional (keepsFraction : Bool) (ds : String) (magnitude : Int) : String :=
  if magnitude < 0 then "0." ++ String.ofList (List.replicate (magnitude.natAbs - 1) '0') ++ ds
  else
    let whole := magnitude.toNat + 1
    let cs := ds.toList
    if whole < cs.length then String.ofList (cs.take whole) ++ "." ++ String.ofList (cs.drop whole)
    else
      ds ++ String.ofList (List.replicate (whole - cs.length) '0') ++ (if keepsFraction then ".0" else "")

/-- The digits `ds`, whose first one has the weight `10 ^ magnitude`, with an exponent. -/
def writeScientific (plusSign : Bool) (ds : String) (magnitude : Int) : String :=
  let cs := ds.toList
  let point := if 1 < cs.length then "." else ""
  let sign := if magnitude < 0 then "-" else if plusSign then "+" else ""
  String.ofList (cs.take 1) ++ point ++ String.ofList (cs.drop 1) ++ "e" ++ sign ++ toString magnitude.natAbs

/-- The positive double `b`. -/
def writePositive (l : Layout) (b : Binary64) : String :=
  let d := Decimal.shortest l.tie b
  let ds := toString d.digits
  let magnitude : Int := d.exponent + (ds.length : Int) - 1
  match l.positional with
  | none => writePositional l.keepsFraction ds magnitude
  | some (low, high) =>
    if low ≤ magnitude ∧ magnitude < high then writePositional l.keepsFraction ds magnitude
    else writeScientific l.plusSign ds magnitude

/-- The double `x`. -/
def write (l : Layout) (x : Float) : String :=
  match Binary64.ofFloat? x with
  | none => if x.isNaN then "NaN" else if x < 0 then "-inf" else "inf"
  | some b =>
    let sign := if b.negative then "-" else ""
    if b.mantissa = 0 then sign ++ writePositional l.keepsFraction "0" 0 else sign ++ l.writePositive b

end Layout

end BraceScript
