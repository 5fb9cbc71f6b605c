import BraceScript.Value.Operator

/-!
# Properties of instances

Reading a property, and assigning through a path of properties.  An assignment changes one field at the end of the
path.  Whether a property is readonly is looked at there only, and not for the properties on the way.
-/

namespace BraceScript

/-- The value of the property `name` of `object`. -/
def Value.readProperty (object : Value) (name : Ident) : Except RuntimeError Value :=
  match object with
  | .struct d fields =>
    match Value.field? name.name fields with
    | some v => .ok v
    | none => .error ⟨.unknownProperty d.name.name name.name, name.span⟩
  | _ => .error ⟨.typeMismatch (.noProperties name.name object.typeName), name.span⟩

/-- The variable and the properties that `a.b.c` consists of.  Other expressions are no paths. -/
def Expr.path? : Expr → Option (Ident × List Ident)
  | ident id => some (id, [])
  | property object name _ => object.path?.map fun (root, names) => (root, names ++ [name])
  | _ => none

/-- The value that an assignment stores over `old`. -/
def AssignOp.apply (op : AssignOp) (old new : Value) : Value.Result :=
  match op with
  | set => .ok new
  | update op => Value.binary (.arith op) old new

/-- An error of the operator at its own place. -/
def Located.reported {α β : Type} (op : Located α) : Except RuntimeError.Cause β → Except RuntimeError β
  | .ok b => .ok b
  | .error cause => .error ⟨cause, op.span⟩

/-- The value to be stored in a property of type `t` that holds `old`. -/
def Value.newProperty (t : Ty) (op : Located AssignOp) (old new : Value) (span : Span) :
    Except RuntimeError Value := do
  let combined ← op.reported (op.value.apply old new)
  match combined.conform t with
  | .ok v => .ok v
  | .error m => .error ⟨.typeMismatch m, span⟩

/-- The object with the property at the end of a path assigned, and the value stored there.  Errors about the new
value are reported at `span`. -/
def Value.setProperty (op : Located AssignOp) (new : Value) (span : Span) :
    List Ident → Value → Except RuntimeError (Value × Value)
  | name :: rest, .struct d fields =>
    match d.property? name.name, Value.field? name.name fields with
    | some p, some old =>
      match rest with
      | [] =>
        if p.isReadonly then .error ⟨.readonlyProperty d.name.name name.name, name.span⟩
        else do
          let v ← Value.newProperty p.type op old new span
          return (.struct d (Value.setField name.name v fields), v)
      | _ :: _ => do
        let (inner, v) ← setProperty op new span rest old
        return (.struct d (Value.setField name.name inner fields), v)
    | _, _ => .error ⟨.unknownProperty d.name.name name.name, name.span⟩
  | _, object => .error ⟨.invalidAssignment (.noProperties object.typeName), span⟩

end BraceScript
