import BraceScript.Builtin
import BraceScript.Eval.Property

/-!
# Values with other labels

A value keeps the declarations of the functions and structs in it and the scopes of the functions.  A `Relabelling`
puts others of the same names in their place.  No operator and no conversion looks at more than the names, so each of
them does the same to relabelled values as to the values themselves.  If only the scopes are others, this is also
true of properties (`Value.setProperty_relabel`).
-/

namespace BraceScript

/-- Other declarations, of the same names, and other scopes. -/
structure Relabelling where
  function : FunctionDecl → FunctionDecl
  struct : StructDecl → StructDecl
  scope : ScopeId → ScopeId
  functionName : ∀ d, (function d).name.name = d.name.name
  structName : ∀ d, (struct d).name.name = d.name.name

/-- The same declarations in other scopes. -/
def Relabelling.ofScopes (f : ScopeId → ScopeId) : Relabelling := ⟨id, id, f, fun _ => rfl, fun _ => rfl⟩

namespace Value

mutual

/-- The value with its functions and instances relabelled. -/
def relabel (r : Relabelling) : Value → Value
  | integer n t => integer n t
  | float x t => float x t
  | boolean b => boolean b
  | string s => string s
  | character c => character c
  | null => null
  | void => void
  | function d closure => function (r.function d) (r.scope closure)
  | builtin name => builtin name
  | array items => array (relabelItems r items)
  | struct d fields => struct (r.struct d) (relabelFields r fields)

def relabelItems (r : Relabelling) : List Value → List Value
  | [] => []
  | v :: vs => v.relabel r :: relabelItems r vs

def relabelFields (r : Relabelling) : List (String × Value) → List (String × Value)
  | [] => []
  | (n, v) :: fields => (n, v.relabel r) :: relabelFields r fields

end

/-- The field with its value relabelled. -/
def relabelField (r : Relabelling) (f : String × Value) : String × Value := (f.1, f.2.relabel r)

variable {r : Relabelling}

theorem relabelItems_eq (items : List Value) : relabelItems r items = items.map (relabel r) := by
  induction items with
  | nil => rfl
  | cons v vs ih => rw [relabelItems, ih, List.map_cons]

private theorem relabelFields_eq (fields : List (String × Value)) :
    relabelFields r fields = fields.map (relabelField r) := by
  induction fields with
  | nil => rfl
  | cons f fields ih =>
    rw [relabelFields, ih]
    rfl

@[simp] theorem relabel_array (items : List Value) : (array items).relabel r = array (items.map (relabel r)) := by
  rw [relabel, relabelItems_eq]

@[simp] theorem relabel_struct (d : StructDecl) (fields : List (String × Value)) :
    (struct d fields).relabel r = struct (r.struct d) (fields.map (relabelField r)) := by
  rw [relabel, relabelFields_eq]

/-! ### Observations -/

@[simp] theorem typeName_relabel : ∀ v : Value, (v.relabel r).typeName = v.typeName
  | integer _ _ | float _ _ | boolean _ | string _ | character _ | null | void | function _ _ | builtin _
  | array [] => rfl
  | struct d fields => by rw [relabel, typeName, typeName, r.structName]
  | array (item :: items) => by
    rw [relabel, relabelItems, typeName, typeName, typeName_relabel item]

@[simp] theorem isTruthy_relabel (v : Value) : (v.relabel r).isTruthy = v.isTruthy := by
  cases v with
  | array items => cases items <;> rfl
  | _ => rfl

mutual

@[simp] theorem text_relabel : ∀ v : Value, (v.relabel r).text = v.text
  | integer _ _ | float _ _ | boolean true | boolean false | string _ | character _ | null | void | builtin _ => rfl
  | function d _ => by rw [relabel, text, text, r.functionName]
  | array items => by rw [relabel, text, text, itemsText_relabel "" items]
  | struct d fields => by rw [relabel, text, text, fieldsText_relabel " " fields, r.structName]

private theorem itemsText_relabel (before : String) :
    ∀ items : List Value, itemsText before (relabelItems r items) = itemsText before items
  | [] => rfl
  | v :: vs => by rw [relabelItems, itemsText, itemsText, text_relabel v, itemsText_relabel ", " vs]

private theorem fieldsText_relabel (before : String) :
    ∀ fields : List (String × Value), fieldsText before (relabelFields r fields) = fieldsText before fields
  | [] => rfl
  | (n, v) :: fields => by rw [relabelFields, fieldsText, fieldsText, text_relabel v, fieldsText_relabel ", " fields]

end

/-! ### Fields -/

theorem field?_relabel (name : String) (fields : List (String × Value)) :
    field? name (fields.map (relabelField r)) = (field? name fields).map (relabel r) := by
  induction fields with
  | nil => rfl
  | cons f fields ih =>
    obtain ⟨n, v⟩ := f
    rw [List.map_cons, relabelField, field?, field?]
    split
    · rfl
    · exact ih

theorem setField_relabel (name : String) (value : Value) (fields : List (String × Value)) :
    setField name (value.relabel r) (fields.map (relabelField r)) =
      (setField name value fields).map (relabelField r) := by
  induction fields with
  | nil => rfl
  | cons f fields ih =>
    obtain ⟨n, v⟩ := f
    rw [List.map_cons, relabelField, setField, setField]
    split
    · rfl
    · split
      · rfl
      · rw [ih]
        rfl

/-! ### Types -/

@[simp] theorem relabel_defaultFor (t : Ty) : (defaultFor t).relabel r = defaultFor t := by
  cases t <;> rfl

private theorem mapM_relabel {f : Value → Except Mismatch Value} (h : ∀ v, f (v.relabel r) = (f v).map (relabel r))
    (items : List Value) : (items.map (relabel r)).mapM f = (items.mapM f).map (List.map (relabel r)) := by
  induction items with
  | nil => rfl
  | cons v vs ih =>
    rw [List.map_cons, List.mapM_cons, List.mapM_cons, ih, h v]
    cases f v with
    | error m => rfl
    | ok w =>
      cases vs.mapM f with
      | error m => rfl
      | ok ws => rfl

theorem conform_relabel (t : Ty) (v : Value) : conform t (v.relabel r) = (conform t v).map (relabel r) := by
  -- a value of the wrong kind is named in the same way
  have hmismatch : ∀ (t : Ty) (v : Value), (.error (.expected t (v.relabel r).typeName) : Except Mismatch Value) =
      .error (.expected t v.typeName) := fun t v => by rw [typeName_relabel]
  induction t generalizing v with
  | array t ih =>
    cases v with
    | array items =>
      rw [relabel_array, conform, conform, mapM_relabel ih]
      cases items.mapM (conform t) with
      | error m => rfl
      | ok ws => simp [Except.map]
    | _ => exact hmismatch _ _
  | integer t =>
    cases v with
    | integer n s =>
      rw [relabel, conform]
      split <;> rfl
    | _ => exact hmismatch _ _
  | null => rfl
  | float t => cases v <;> first | rfl | exact hmismatch _ _
  | boolean => cases v <;> first | rfl | exact hmismatch _ _
  | string => cases v <;> first | rfl | exact hmismatch _ _
  | character => cases v <;> first | rfl | exact hmismatch _ _
  | void => cases v <;> first | rfl | exact hmismatch _ _

theorem retag_relabel (old new : Value) :
    retag (old.relabel r) (new.relabel r) = (retag old new).map (relabel r) := by
  have hmismatch : retag.mismatch (old.relabel r) (new.relabel r) = (retag.mismatch old new).map (relabel r) := by
    simp only [retag.mismatch, typeName_relabel, Except.map]
  cases old with
  | null => rfl
  | integer n t => cases new <;> first | exact conform_relabel (.integer t) _ | exact hmismatch
  | float x t => cases new <;> first | exact conform_relabel (.float t) _ | exact hmismatch
  | struct d fields =>
    cases new with
    | struct e fields' =>
      rw [relabel_struct, relabel_struct, retag, retag, r.structName, r.structName]
      by_cases h : d.name.name = e.name.name
      · rw [if_pos h, if_pos h, Except.map, relabel_struct]
      · rw [if_neg h, if_neg h]
        rw [relabel_struct, relabel_struct] at hmismatch
        exact hmismatch
    | _ => exact hmismatch
  | _ => cases new <;> first | rfl | exact hmismatch

/-! ### Operators -/

private theorem order?_relabel (a b : Value) : order? (a.relabel r) (b.relabel r) = order? a b := by
  cases a <;> cases b <;> rfl

private theorem equal?_relabel (a b : Value) : equal? (a.relabel r) (b.relabel r) = equal? a b := by
  cases a <;> cases b <;> rfl

private theorem unsupported_relabel (op : String) (a b : Value) :
    unsupported op (a.relabel r) (b.relabel r) = unsupported op a b := by
  simp only [unsupported, typeName_relabel]

/-- Values without labels. -/
def isFlat : Value → Bool
  | function .. | array _ | struct .. => false
  | _ => true

theorem relabel_of_isFlat {v : Value} (h : v.isFlat = true) : v.relabel r = v := by
  cases v <;> first | rfl | cases h

private theorem isFlat_arith {op : ArithOp} {a b w : Value} (h : arith op a b = .ok w) : w.isFlat = true := by
  have hinteger : ∀ {x s y t}, integerArith op x s y t = .ok w → w.isFlat = true := by
    intro x s y t h
    unfold integerArith at h
    split at h
    · cases h
    · split at h
      · cases h
      · cases h
        rfl
  have hfloat : ∀ {x s y t}, floatArith op x s y t = .ok w → w.isFlat = true := by
    intro x s y t h
    unfold floatArith at h
    split at h
    · cases h
    · cases h
      rfl
  have hmixed : mixedArith op a b = .ok w → w.isFlat = true := by
    intro h
    unfold mixedArith at h
    split at h
    · exact hfloat h
    · cases h
  have hjoined : ∀ {v}, joined? a b = some v → v.isFlat = true := by
    intro v hv
    unfold joined? at hv
    split at hv
    · split at hv
      · cases hv
        rfl
      · cases hv
    · split at hv
      · cases hv
        rfl
      · cases hv
    · cases hv
  unfold arith at h
  split at h
  · exact hinteger h
  · split at h
    · rename_i hv
      cases h
      exact hjoined hv
    · exact hmixed h

/-- Functions, arrays and instances are no operands. -/
private theorem arith_of_not_flat {op : ArithOp} {a b : Value} (h : a.isFlat = false ∨ b.isFlat = false) :
    arith op a b = .error (unsupported op.symbol a b) := by
  rcases h with h | h
  · cases a with
    | function d closure => cases b <;> cases op <;> rfl
    | array items => cases b <;> cases op <;> rfl
    | struct d fields => cases b <;> cases op <;> rfl
    | _ => cases h
  · cases b with
    | function d closure => cases a <;> cases op <;> rfl
    | array items => cases a <;> cases op <;> rfl
    | struct d fields => cases a <;> cases op <;> rfl
    | _ => cases h

theorem isFlat_relabel (v : Value) : (v.relabel r).isFlat = v.isFlat := by
  cases v <;> rfl

private theorem arith_relabel (op : ArithOp) (a b : Value) :
    arith op (a.relabel r) (b.relabel r) = (arith op a b).map (relabel r) := by
  by_cases h : a.isFlat = false ∨ b.isFlat = false
  · have h' : (a.relabel r).isFlat = false ∨ (b.relabel r).isFlat = false := by rwa [isFlat_relabel, isFlat_relabel]
    rw [arith_of_not_flat h, arith_of_not_flat h', unsupported_relabel]
    rfl
  · simp only [not_or, Bool.not_eq_false] at h
    rw [relabel_of_isFlat h.1, relabel_of_isFlat h.2]
    cases harith : arith op a b with
    | error cause => rfl
    | ok w => exact congrArg Except.ok (relabel_of_isFlat (isFlat_arith harith)).symm

private theorem range_relabel (a b : Value) : range (a.relabel r) (b.relabel r) = (range a b).map (relabel r) := by
  have hunsupported : (.error (unsupported ".." (a.relabel r) (b.relabel r)) : Result) =
      .error (unsupported ".." a b) := by
    rw [unsupported_relabel]
  cases a with
  | integer m s =>
    cases b with
    | integer n t =>
      rw [relabel, relabel, range]
      split
      · rfl
      · rw [Except.map, relabel_array, List.map_map]
        rfl
    | _ => exact hunsupported
  | _ => exact hunsupported

theorem binary_relabel (op : BinaryOp) (a b : Value) :
    binary op (a.relabel r) (b.relabel r) = (binary op a b).map (relabel r) := by
  cases op with
  | arith op => exact arith_relabel op a b
  | compare op =>
    simp only [binary, comparison, order?_relabel, unsupported_relabel]
    split <;> rfl
  | equal =>
    simp only [binary, equal?_relabel]
    cases equal? a b with
    | none => simp only [binary.test, unsupported_relabel, Except.map]
    | some b => rfl
  | notEqual =>
    simp only [binary, equal?_relabel]
    cases equal? a b with
    | none => simp only [binary.test, unsupported_relabel, Except.map]
    | some b => rfl
  | and =>
    simp only [binary, isTruthy_relabel]
    rfl
  | or =>
    simp only [binary, isTruthy_relabel]
    rfl
  | range => exact range_relabel a b

theorem unary_relabel (op : UnaryOp) (v : Value) : unary op (v.relabel r) = (unary op v).map (relabel r) := by
  have hbad : ∀ wanted, (.error (badOperand op wanted (v.relabel r)) : Result) =
      .error (badOperand op wanted v) := by
    intro wanted
    simp only [badOperand, typeName_relabel]
  have hstepped : ∀ t signed n, (stepped op t signed n).map (relabel r) = stepped op t signed n := by
    intro t signed n
    unfold stepped
    split <;> rfl
  cases op <;> cases v <;> first | rfl | exact (hstepped _ _ _).symm | exact hbad _

/-! ### Properties of values in other scopes -/

section Scopes

variable {f : ScopeId → ScopeId}

theorem readProperty_relabel (object : Value) (name : Ident) :
    (object.relabel (.ofScopes f)).readProperty name = (object.readProperty name).map (relabel (.ofScopes f)) := by
  cases object with
  | struct d fields =>
    rw [relabel_struct, readProperty, readProperty]
    simp only [field?_relabel]
    cases field? name.name fields <;> rfl
  | array items =>
    have hname := typeName_relabel (r := .ofScopes f) (array items)
    rw [relabel_array] at hname ⊢
    simp only [readProperty, hname]
    rfl
  | _ => rfl

private theorem newProperty_relabel (t : Ty) (op : Located AssignOp) (old new : Value) (span : Span) :
    newProperty t op (old.relabel r) (new.relabel r) span = (newProperty t op old new span).map (relabel r) := by
  have happly : op.value.apply (old.relabel r) (new.relabel r) = (op.value.apply old new).map (relabel r) := by
    cases op.value with
    | set => rfl
    | update f => exact binary_relabel (.arith f) old new
  unfold newProperty
  rw [happly]
  cases op.value.apply old new with
  | error cause => rfl
  | ok combined =>
    simp only [Except.map, Located.reported, bind, Except.bind, conform_relabel]
    cases conform t combined <;> rfl

theorem setProperty_relabel (op : Located AssignOp) (new : Value) (span : Span) (path : List Ident)
    (object : Value) :
    setProperty op (new.relabel (.ofScopes f)) span path (object.relabel (.ofScopes f)) =
      (setProperty op new span path object).map fun p => (p.1.relabel (.ofScopes f), p.2.relabel (.ofScopes f)) := by
  -- what is no instance has no properties to set
  have hbad : ∀ v : Value, (.error ⟨.invalidAssignment (.noProperties (v.relabel (.ofScopes f)).typeName), span⟩ :
      Except RuntimeError (Value × Value)) = .error ⟨.invalidAssignment (.noProperties v.typeName), span⟩ :=
    fun v => by rw [typeName_relabel]
  induction path generalizing object with
  | nil => cases object <;> exact hbad _
  | cons name rest ih =>
    cases object with
    | struct d fields =>
      have hset : ∀ v w : Value, (.ok (.struct d (setField name.name (v.relabel (.ofScopes f))
          (fields.map (relabelField (.ofScopes f)))), w.relabel (.ofScopes f)) :
          Except RuntimeError (Value × Value)) =
          .ok ((Value.struct d (setField name.name v fields)).relabel (.ofScopes f), w.relabel (.ofScopes f)) :=
        fun v w => by rw [relabel_struct, setField_relabel]; rfl
      rw [relabel_struct, show (Relabelling.ofScopes f).struct d = d from rfl, setProperty, setProperty]
      simp only [field?_relabel]
      cases d.property? name.name with
      | none => rfl
      | some p =>
        cases field? name.name fields with
        | none => rfl
        | some old =>
          cases rest with
          | nil =>
            simp only [Option.map_some]
            split
            · rfl
            · rw [newProperty_relabel p.type op old new span]
              cases newProperty p.type op old new span with
              | error e => rfl
              | ok v => exact hset v v
          | cons name' rest =>
            have hinner := ih old
            simp only [Option.map_some] at hinner ⊢
            rw [hinner]
            cases setProperty op new span (name' :: rest) old with
            | error e => rfl
            | ok p => exact hset p.1 p.2
    | _ => exact hbad _

end Scopes

end Value

/-! ### Built-in functions -/

namespace Builtin

theorem print_relabel (r : Relabelling) (args : List Value) (output : Output) :
    print.call (args.map (Value.relabel r)) output = print.call args output := by
  have htexts : (args.map (Value.relabel r)).map Value.text = args.map Value.text := by simp
  simp only [print, htexts]

theorem lengthOf_relabel (r : Relabelling) (args : List Value) :
    lengthOf (args.map (Value.relabel r)) = lengthOf args := by
  cases args with
  | nil => rfl
  | cons v vs =>
    cases v with
    | array items => simp only [List.map_cons, Value.relabel_array, lengthOf, List.length_map]
    | struct d fields =>
      have hname := Value.typeName_relabel (r := r) (.struct d fields)
      rw [Value.relabel_struct] at hname
      simp only [List.map_cons, Value.relabel_struct, lengthOf, hname]
    | _ => rfl

end Builtin

end BraceScript
