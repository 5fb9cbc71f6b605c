import BraceScript.Config.Toml.Text

/-!
# Dates and times in configuration files

A moment is a date, a time of day, or both, and then the distance from universal time may follow.  Dates are those of
the Gregorian calendar.  The seconds of a time can be left out, and there can be 60 of them.  Readers yield the
characters after what they read, since no setting is a moment.
-/

namespace BraceScript.Toml

/-- A number of exactly `count` decimal digits, which is at most `high`. -/
def fixed (count high : Nat) (cs : List Char) : Read Nat :=
  let ds := cs.take count
  let n := ds.foldl (fun n c => 10 * n + (c.toNat - '0'.toNat)) 0
  if ds.length = count ∧ ds.all Char.isDigit ∧ n ≤ high then some (n, cs.drop count) else none

def isLeapYear (year : Nat) : Bool := year % 4 = 0 && (year % 100 ≠ 0 || year % 400 = 0)

/-- The number of days of a month, counted from one. -/
def monthLength (year month : Nat) : Nat :=
  if month = 2 then (if isLeapYear year then 29 else 28)
  else if month = 4 ∨ month = 6 ∨ month = 9 ∨ month = 11 then 30
  else 31

/-- The characters after a date. -/
def date? (cs : List Char) : Option (List Char) :=
  match fixed 4 9999 cs with
  | some (year, '-' :: cs) =>
    match fixed 2 12 cs with
    | some (month, '-' :: cs) =>
      match fixed 2 (monthLength year month) cs with
      | some (day, rest) => if 1 ≤ month ∧ 1 ≤ day then some rest else none
      | none => none
    | _ => none
  | _ => none

/-- The characters after hours and minutes. -/
def minutes? (cs : List Char) : Option (List Char) :=
  match fixed 2 23 cs with
  | some (_, ':' :: cs) => (fixed 2 59 cs).map (·.2)
  | _ => none

/-- The characters after seconds and their decimals, if there are any. -/
def seconds? : List Char → Option (List Char)
  | ':' :: cs =>
    match fixed 2 60 cs with
    | some (_, '.' :: cs) => if cs.takeWhile Char.isDigit = [] then none else some (cs.dropWhile Char.isDigit)
    | some (_, rest) => some rest
    | none => none
  | cs => some cs

/-- The characters after a time of day. -/
def time? (cs : List Char) : Option (List Char) := (minutes? cs).bind seconds?

/-- The characters after a distance from universal time, if there is one. -/
def distance? : List Char → Option (List Char)
  | 'Z' :: cs => some cs
  | 'z' :: cs => some cs
  | '+' :: cs => minutes? cs
  | '-' :: cs => minutes? cs
  | cs => some cs

/-- Whether a word is a moment. -/
def isMoment (word : List Char) : Bool :=
  match date? word with
  | none => time? word = some []
  | some [] => true
  | some (c :: cs) => (c = 'T' || c = 't' || c = ' ') && (time? cs).bind distance? = some []

end BraceScript.Toml
