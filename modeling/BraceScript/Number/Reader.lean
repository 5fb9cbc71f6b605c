import BraceScript.Number.Binary64

/-!
# Reading numbers

`Numeral.natural?` reads decimal digits and `Numeral.float?` the usual spellings of a double: an optional sign, then
`inf`, `infinity` or `nan` in any case, or digits with an optional point and an optional exponent.  The result is the
double nearest to the written value.
-/

namespace BraceScript.Numeral

/-- The value of a decimal digit. -/
def digitValue (c : Char) : Nat := c.toNat - '0'.toNat

/-- The number that the decimal digits `cs` spell. -/
def ofDigits (cs : List Char) : Nat := cs.foldl (fun n c => 10 * n + digitValue c) 0

/-- The number spelled by `cs`, which has to be one or more decimal digits. -/
def natural? (cs : List Char) : Option Nat :=
  if cs ≠ [] ∧ cs.all Char.isDigit then some (ofDigits cs) else none

/-- The sign in front of `cs` (true for a minus) and what follows it. -/
def splitSign : List Char → Bool × List Char
  | '-' :: cs => (true, cs)
  | '+' :: cs => (false, cs)
  | cs => (false, cs)

/-- The double nearest to `digits · 10 ^ exponent`. -/
def scaled (digits : Nat) (exponent : Int) : Float :=
  let magnitude := exponent + ((Nat.toDigits 10 digits).length : Int)
  if digits = 0 ∨ magnitude < -400 then 0
  else if 400 < magnitude then 1 / 0
  else if exponent < 0 then Binary64.ofRatio digits (Nat.pow 10 exponent.natAbs)
  else Binary64.ofRatio (digits * Nat.pow 10 exponent.natAbs) 1

/-- The exponent written in `cs`: nothing, or `e` with a whole number. -/
def exponent? : List Char → Option Int
  | [] => some 0
  | c :: cs =>
    if c = 'e' ∨ c = 'E' then
      let (negative, ds) := splitSign cs
      (natural? ds).map fun n => if negative then -n else n
    else none

/-- The double spelled by `cs`, which has no sign. -/
def unsignedFloat? (cs : List Char) : Option Float :=
  let word := String.ofList (cs.map Char.toLower)
  if word = "inf" ∨ word = "infinity" then some (1 / 0)
  else if word = "nan" then some (0 / 0)
  else
    let whole := cs.takeWhile Char.isDigit
    let (fraction, rest) :=
      match cs.dropWhile Char.isDigit with
      | '.' :: ds => (ds.takeWhile Char.isDigit, ds.dropWhile Char.isDigit)
      | ds => ([], ds)
    if whole = [] ∧ fraction = [] then none
    else (exponent? rest).map fun e => scaled (ofDigits (whole ++ fraction)) (e - (fraction.length : Int))

/-- The double spelled by `text`. -/
def float? (text : String) : Option Float :=
  let (negative, cs) := splitSign text.toList
  (unsignedFloat? cs).map fun x => if negative then -x else x

end BraceScript.Numeral
