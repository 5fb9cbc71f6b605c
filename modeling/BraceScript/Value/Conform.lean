import BraceScript.Value
import BraceScript.RuntimeError

/-!
# Values and declared types

`Value.conform` checks a value against a declared type and tags numbers with it; `Value.retag` does the same for a
value that is assigned over an old one.  `Value.defaultFor` is the value of a variable that is declared without one.
-/

namespace BraceScript.Value

/-- The value of a declared type that stands for nothing. -/
def defaultFor : Ty → Value
  | .integer t => integer 0 t
  | .float t => float 0 t
  | .boolean => boolean false
  | .string => string ""
  | .character => character '\x00'
  | .null => null
  | .array _ => array []
  | .void => void

/-- The value seen as one of the type `t`: an integer has to be in the range of an integer type, and becomes a float
for a float type; array items conform one by one.  The type `null` accepts everything. -/
def conform : Ty → Value → Except Mismatch Value
  | .null, v => .ok v
  | .integer t, integer n _ => if t.holds n then .ok (integer n t) else .error (.outOfRange n (.integer t))
  | .float t, float x _ => .ok (float (t.round x) t)
  | .float t, integer n _ => .ok (float (t.round (Binary64.ofInt n)) t)
  | .boolean, boolean b => .ok (boolean b)
  | .string, string s => .ok (string s)
  | .character, character c => .ok (character c)
  | .void, void => .ok void
  | .void, null => .ok null
  | .array t, array items => (items.mapM (conform t)).map array
  | t, v => .error (.expected t v.typeName)

/-- The value that a variable holding `old` gets when `new` is assigned to it.  Numbers keep the type of the old
value, and other values have to be of the same kind.  A variable that holds `null` takes everything. -/
def retag (old new : Value) : Except Mismatch Value :=
  match old, new with
  | null, _ => .ok new
  | integer _ t, integer .. => new.conform (.integer t)
  | float _ t, float .. => new.conform (.float t)
  | float _ t, integer .. => new.conform (.float t)
  | struct d _, struct e _ => if d.name.name = e.name.name then .ok new else mismatch
  | function .., function .. | function .., builtin _ | builtin _, function .. | builtin _, builtin _ => .ok new
  | boolean _, boolean _ | string _, string _ | character _, character _ | void, void | array _, array _ => .ok new
  | _, _ => mismatch
where
  mismatch : Except Mismatch Value := .error (.notStorable new.typeName old.typeName)

end BraceScript.Value
