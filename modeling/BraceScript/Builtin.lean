import BraceScript.Value
import BraceScript.Output

/-!
# Built-in functions

A `Builtin` is a function that every program can call unless it declares the name itself.  `Registry` holds the
built-ins by name; the default ones are `print`, `len` and `time`.
-/

namespace BraceScript

/-- A built-in function: its name, how many arguments it takes (any number if left open), and what a call does to the
output and yields, a value or a message. -/
structure Builtin where
  name : String
  arity : Option Nat
  call : List Value → Output → Except String Value × Output

namespace Builtin

/-- Writes its arguments one after another, then ends the line. -/
def print : Builtin where
  name := "print"
  arity := none
  call args out :=
    match out.writeAll (args.map Value.text ++ ["\n"]) with
    | (true, out) => (.ok .void, out)
    | (false, out) => (.error ("failed to write output: " ++ Output.fullMessage), out)

/-- A number as a 64-bit integer, unless it is too large for one. -/
def i64 (what : String) (n : Nat) : Except String Value :=
  if IntType.i64.holds n then .ok (.i64 n) else .error (what ++ " does not fit in i64")

/-- The number of items of an array or of characters of a string. -/
def lengthOf : List Value → Except String Value
  | .array items :: _ => i64 "length" items.length
  | .string s :: _ => i64 "length" s.length
  | v :: _ => .error ("expected an array or a string, found `" ++ v.typeName ++ "`")
  | [] => .error "missing argument"

def len : Builtin where
  name := "len"
  arity := some 1
  call args out := (lengthOf args, out)

/-- The time of day, `now` seconds after the epoch. -/
def time (now : Nat) : Builtin where
  name := "time"
  arity := some 0
  call _ out := (i64 "timestamp" now, out)

end Builtin

/-- Built-in functions with different names. -/
structure Registry where
  entries : List Builtin

namespace Registry

def empty : Registry := ⟨[]⟩

def get? (r : Registry) (name : String) : Option Builtin := r.entries.find? (·.name == name)

def has (r : Registry) (name : String) : Bool := (r.get? name).isSome

/-- The registry without the function called `name`. -/
def remove (r : Registry) (name : String) : Registry := ⟨r.entries.filter (·.name != name)⟩

/-- The registry with `b` in place of any function of its name. -/
def register (r : Registry) (b : Builtin) : Registry := ⟨b :: (r.remove b.name).entries⟩

/-- The names of the functions, in order. -/
def names (r : Registry) : List String := (r.entries.map Builtin.name).mergeSort fun a b => decide (a ≤ b)

/-- The functions that are there by default; `now` is the reading of the clock. -/
def default (now : Nat) : Registry :=
  ((empty.register .print).register .len).register (.time now)

end Registry

end BraceScript
