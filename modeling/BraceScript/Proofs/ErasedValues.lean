import BraceScript.Proofs.Erasure
import BraceScript.Proofs.Relabelling
import BraceScript.Scope

/-!
# Values and scopes without places

A value keeps the declarations of the functions and structs in it, and with them the places where these stand.
`Value.erase` strips them off.  Operators, conversions and properties do the same to stripped values as to the values
themselves, and so do all operations on scopes that hold stripped values (`Scopes.erase`).
-/

namespace BraceScript

def RuntimeError.erase (e : RuntimeError) : RuntimeError := ⟨e.cause, default⟩

namespace Value

mutual

/-- The value with all spans in its declarations replaced by one and the same. -/
def erase : Value → Value
  | integer n t => integer n t
  | float x t => float x t
  | boolean b => boolean b
  | string s => string s
  | character c => character c
  | null => null
  | void => void
  | function d closure => function d.erase closure
  | builtin name => builtin name
  | array items => array (eraseItems items)
  | struct d fields => struct d.erase (eraseFields fields)

def eraseItems : List Value → List Value
  | [] => []
  | v :: vs => v.erase :: eraseItems vs

def eraseFields : List (String × Value) → List (String × Value)
  | [] => []
  | (n, v) :: fields => (n, v.erase) :: eraseFields fields

end

private theorem eraseItems_eq (items : List Value) : eraseItems items = items.map erase := by
  induction items with
  | nil => rfl
  | cons v vs ih => rw [eraseItems, ih, List.map_cons]

/-- The field with its value stripped of places. -/
def eraseField (f : String × Value) : String × Value := (f.1, f.2.erase)

private theorem eraseFields_eq (fields : List (String × Value)) : eraseFields fields = fields.map eraseField := by
  induction fields with
  | nil => rfl
  | cons f fields ih =>
    rw [eraseFields, ih]
    rfl

@[simp] theorem erase_array (items : List Value) : (array items).erase = array (items.map erase) := by
  rw [erase, eraseItems_eq]

@[simp] theorem erase_struct (d : StructDecl) (fields : List (String × Value)) :
    (struct d fields).erase = struct d.erase (fields.map eraseField) := by
  rw [erase, eraseFields_eq]

/-! ### Stripping as relabelling -/

@[simp] private theorem name_eraseDecl (d : FunctionDecl) : d.erase.name.name = d.name.name := by
  cases d
  rfl

end Value

/-- Declarations without places, in the same scopes. -/
def Relabelling.erasure : Relabelling :=
  ⟨FunctionDecl.erase, StructDecl.erase, id, Value.name_eraseDecl, fun _ => rfl⟩

namespace Value

mutual

private theorem erase_eq_relabel : ∀ v : Value, v.erase = v.relabel .erasure
  | integer _ _ | float _ _ | boolean _ | string _ | character _ | null | void | function _ _ | builtin _ => rfl
  | array items => by rw [erase, relabel, eraseItems_eq_relabelItems items]
  | struct d fields => by
    rw [erase, relabel, eraseFields_eq_relabelFields fields]
    rfl

private theorem eraseItems_eq_relabelItems : ∀ items : List Value, eraseItems items = relabelItems .erasure items
  | [] => rfl
  | v :: vs => by rw [eraseItems, relabelItems, erase_eq_relabel v, eraseItems_eq_relabelItems vs]

private theorem eraseFields_eq_relabelFields :
    ∀ fields : List (String × Value), eraseFields fields = relabelFields .erasure fields
  | [] => rfl
  | (n, v) :: fields => by rw [eraseFields, relabelFields, erase_eq_relabel v, eraseFields_eq_relabelFields fields]

end

theorem erase_eq : erase = relabel .erasure := funext erase_eq_relabel

private theorem eraseField_eq : eraseField = relabelField .erasure := by
  funext f
  rw [eraseField, relabelField, erase_eq_relabel]

@[simp] theorem typeName_erase (v : Value) : v.erase.typeName = v.typeName := by
  rw [erase_eq, typeName_relabel]

@[simp] theorem isTruthy_erase (v : Value) : v.erase.isTruthy = v.isTruthy := by
  rw [erase_eq, isTruthy_relabel]

@[simp] theorem text_erase (v : Value) : v.erase.text = v.text := by
  rw [erase_eq, text_relabel]

private theorem field?_erase (name : String) (fields : List (String × Value)) :
    field? name (fields.map eraseField) = (field? name fields).map erase := by
  rw [eraseField_eq, erase_eq, field?_relabel]

theorem setField_erase (name : String) (value : Value) (fields : List (String × Value)) :
    setField name value.erase (fields.map eraseField) = (setField name value fields).map eraseField := by
  rw [eraseField_eq, erase_eq, setField_relabel]

@[simp] theorem erase_defaultFor (t : Ty) : (defaultFor t).erase = defaultFor t := by
  rw [erase_eq, relabel_defaultFor]

theorem conform_erase (t : Ty) (v : Value) : conform t v.erase = (conform t v).map erase := by
  rw [erase_eq, conform_relabel]

theorem retag_erase (old new : Value) : retag old.erase new.erase = (retag old new).map erase := by
  rw [erase_eq, retag_relabel]

theorem binary_erase (op : BinaryOp) (a b : Value) : binary op a.erase b.erase = (binary op a b).map erase := by
  rw [erase_eq, binary_relabel]

theorem unary_erase (op : UnaryOp) (v : Value) : unary op v.erase = (unary op v).map erase := by
  rw [erase_eq, unary_relabel]

end Value

/-! ### Properties -/

theorem StructDecl.property?_erase (d : StructDecl) (name : String) :
    d.erase.property? name = (d.property? name).map PropertyDecl.erase := by
  unfold property? erase
  rw [List.find?_map]
  rfl

theorem Expr.path?_erase (e : Expr) :
    e.erase.path? = e.path?.map fun p => (eraseIdent p.1, p.2.map eraseIdent) := by
  fun_induction path? e with
  | case1 id => rfl
  | case2 object name span ih =>
    rw [erase, path?, ih]
    cases object.path? with
    | none => rfl
    | some p => simp
  | case3 e hident hproperty =>
    cases e with
    | ident id => exact absurd rfl (hident id)
    | property object name span => exact absurd rfl (hproperty object name span)
    | _ => rfl

namespace Value

theorem readProperty_erase (object : Value) (name : Ident) :
    object.erase.readProperty (Expr.eraseIdent name) =
      ((object.readProperty name).map erase).mapError RuntimeError.erase := by
  cases object with
  | struct d fields =>
    rw [erase_struct, readProperty, readProperty]
    simp only [Expr.eraseIdent, field?_erase]
    cases field? name.name fields <;> rfl
  | array items =>
    have hname := typeName_erase (array items)
    rw [erase_array] at hname ⊢
    simp only [readProperty, hname]
    rfl
  | _ => rfl

private theorem newProperty_erase (t : Ty) (op : Located AssignOp) (old new : Value) (span : Span) :
    newProperty t ⟨op.value, default⟩ old.erase new.erase default =
      ((newProperty t op old new span).map erase).mapError RuntimeError.erase := by
  have happly : op.value.apply old.erase new.erase = (op.value.apply old new).map erase := by
    cases op.value with
    | set => rfl
    | update f => exact binary_erase (.arith f) old new
  unfold newProperty
  rw [happly]
  cases op.value.apply old new with
  | error cause => rfl
  | ok combined =>
    simp only [Except.map, Located.reported, bind, Except.bind, conform_erase]
    cases conform t combined <;> rfl

theorem setProperty_erase (op : Located AssignOp) (new : Value) (span : Span) (path : List Ident) (object : Value) :
    setProperty ⟨op.value, default⟩ new.erase default (path.map Expr.eraseIdent) object.erase =
      ((setProperty op new span path object).map fun r => (r.1.erase, r.2.erase)).mapError RuntimeError.erase := by
  -- what is no instance has no properties to set
  have hbad : ∀ v : Value, (.error ⟨.invalidAssignment (.noProperties v.erase.typeName), default⟩ :
      Except RuntimeError (Value × Value)) = .error ⟨.invalidAssignment (.noProperties v.typeName), default⟩ :=
    fun v => by rw [typeName_erase]
  induction path generalizing object with
  | nil => cases object <;> exact hbad _
  | cons name rest ih =>
    cases object with
    | struct d fields =>
      have hset : ∀ v w : Value,
          (.ok (.struct d.erase (setField name.name v.erase (fields.map eraseField)), w.erase) :
            Except RuntimeError (Value × Value)) =
          .ok ((Value.struct d (setField name.name v fields)).erase, w.erase) :=
        fun v w => by rw [erase_struct, setField_erase]
      rw [erase_struct, List.map_cons, setProperty, setProperty]
      simp only [Expr.eraseIdent, StructDecl.property?_erase, field?_erase]
      cases d.property? name.name with
      | none => rfl
      | some p =>
        cases field? name.name fields with
        | none => rfl
        | some old =>
          cases rest with
          | nil =>
            simp only [Option.map_some, List.map_nil, PropertyDecl.erase]
            split
            · rfl
            · rw [newProperty_erase p.type op old new span]
              cases newProperty p.type op old new span with
              | error e => rfl
              | ok v => exact hset v v
          | cons name' rest =>
            have hinner := ih old
            simp only [Option.map_some, List.map_cons] at hinner ⊢
            rw [hinner]
            cases setProperty op new span (name' :: rest) old with
            | error e => rfl
            | ok r => exact hset r.1 r.2
    | _ => exact hbad _

end Value

/-! ### Scopes -/

def Binding.erase (b : Binding) : Binding := { b with value := b.value.erase }

namespace Scope

def erase (s : Scope) : Scope :=
  ⟨s.parent, s.bindings.map fun nb => (nb.1, nb.2.erase), s.structs.map StructDecl.erase⟩

private theorem binding?_erase (s : Scope) (name : String) :
    s.erase.binding? name = (s.binding? name).map Binding.erase := by
  obtain ⟨parent, bindings, structs⟩ := s
  unfold binding? erase
  induction bindings with
  | nil => rfl
  | cons nb bindings ih =>
    obtain ⟨n, b⟩ := nb
    simp only [List.map_cons, List.lookup_cons]
    split
    · rfl
    · exact ih

private theorem struct?_erase (s : Scope) (name : String) :
    s.erase.struct? name = (s.struct? name).map StructDecl.erase := by
  unfold struct? erase
  rw [List.find?_map]
  rfl

private theorem bind_erase (s : Scope) (name : String) (b : Binding) :
    (s.bind name b).erase = s.erase.bind name b.erase := rfl

private theorem set_erase (s : Scope) (name : String) (value : Value) :
    (s.set name value).erase = s.erase.set name value.erase := by
  unfold set erase
  simp only [List.map_map, Scope.mk.injEq, true_and, and_true]
  refine List.map_congr_left fun nb _ => ?_
  simp only [Function.comp_apply]
  split <;> rfl

end Scope

def Slot.erase (s : Slot) : Slot := ⟨s.generation, s.scope.erase⟩

namespace Scopes

def erase (s : Scopes) : Scopes := ⟨s.slots.map Slot.erase, s.live⟩

variable (s : Scopes) (id : ScopeId)

theorem root_erase : s.erase.root = s.root := by
  simp only [root, erase, Array.getElem?_map, Option.map_map]
  rfl

private theorem get?_erase : s.erase.get? id = (s.get? id).map Scope.erase := by
  unfold get?
  simp only [erase, Array.getElem?_map]
  split
  · cases s.slots[id.index]? with
    | none => rfl
    | some slot =>
      simp only [Option.map_some, Slot.erase]
      split <;> rfl
  · rfl

theorem isAlive_erase : s.erase.isAlive id = s.isAlive id := by
  unfold isAlive
  rw [get?_erase, Option.isSome_map]

theorem push_erase (parent : ScopeId) : s.erase.push parent = ((s.push parent).1.erase, (s.push parent).2) := by
  unfold push
  simp only [erase, Array.getElem?_map]
  cases s.slots[s.live]? with
  | none =>
    simp only [Option.map_none, Array.map_push]
    rfl
  | some slot =>
    simp only [Option.map_some, Array.map_setIfInBounds]
    rfl

private theorem modify_erase {f f' : Scope → Scope} (h : ∀ scope, (f scope).erase = f' scope.erase) :
    (s.modify id f).erase = s.erase.modify id f' := by
  unfold modify erase
  simp only [Scopes.mk.injEq, and_true]
  apply Array.ext_getElem?
  intro i
  simp only [Array.getElem?_map, Array.getElem?_modify]
  split
  · cases s.slots[i]? with
    | none => rfl
    | some slot => simp only [Option.map_some, Slot.erase, h]
  · rfl

theorem pop_erase : s.erase.pop id = (s.pop id).map erase := by
  have hmodify : (s.modify id fun _ => .empty none).erase = s.erase.modify id fun _ => .empty none :=
    s.modify_erase id fun _ => rfl
  unfold pop
  rw [isAlive_erase]
  split
  · rfl
  · split
    · rename_i h
      rw [if_pos (show id.index = 0 ∨ id.index + 1 ≠ s.live from h)]
      rfl
    · rename_i h
      rw [if_neg (show ¬ (id.index = 0 ∨ id.index + 1 ≠ s.live) from h), ← hmodify]
      rfl

private theorem walk_erase {α β : Type} {find : Scope → Option α} {find' : Scope → Option β} {g : α → β}
    (h : ∀ scope, find' scope.erase = (find scope).map g) (rounds : Nat) (id : ScopeId) :
    s.erase.walk find' rounds id =
      (s.walk find rounds id).map (Except.map (Option.map fun found => (found.1, g found.2))) := by
  induction rounds generalizing id with
  | zero => rfl
  | succ rounds ih =>
    rw [walk, walk, get?_erase]
    cases s.get? id with
    | none => rfl
    | some scope =>
      simp only [Option.map_some, h]
      cases find scope with
      | some a => rfl
      | none =>
        obtain ⟨parent, bindings, structs⟩ := scope
        cases parent with
        | none => rfl
        | some parent => exact ih parent

private theorem search_erase {α β : Type} {find : Scope → Option α} {find' : Scope → Option β} {g : α → β}
    (h : ∀ scope, find' scope.erase = (find scope).map g) :
    s.erase.search find' id = (s.search find id).map (Option.map fun found => (found.1, g found.2)) := by
  unfold search
  rw [s.walk_erase h]
  change (Option.map _ (s.walk find s.live id)).getD _ = _
  cases s.walk find s.live id <;> rfl

private theorem lookup_erase (name : String) :
    s.erase.lookup id name = (s.lookup id name).map fun found => (found.1, found.2.erase) := by
  unfold lookup
  rw [s.search_erase id fun scope => scope.binding?_erase name]
  cases s.search (·.binding? name) id with
  | error e => rfl
  | ok found => cases found <;> rfl

theorem get_erase (name : String) : s.erase.get id name = (s.get id name).map Value.erase := by
  unfold get
  rw [lookup_erase]
  cases s.lookup id name <;> rfl

theorem isConstant_erase (name : String) : s.erase.isConstant id name = s.isConstant id name := by
  unfold isConstant
  rw [lookup_erase]
  cases s.lookup id name <;> rfl

theorem declare_erase (name : String) (b : Binding) :
    s.erase.declare id name b.erase = (s.declare id name b).map erase := by
  unfold declare
  rw [get?_erase]
  cases s.get? id with
  | none => rfl
  | some scope =>
    simp only [Option.map_some, Scope.binding?_erase, Option.isSome_map]
    split
    · rfl
    · exact congrArg Except.ok (s.modify_erase id fun scope => scope.bind_erase name b).symm

theorem assign_erase (name : String) (value : Value) :
    s.erase.assign id name value.erase = (s.assign id name value).map erase := by
  unfold assign
  rw [lookup_erase]
  cases s.lookup id name with
  | error e => rfl
  | ok found =>
    obtain ⟨owner, b⟩ := found
    simp only [Except.map, Binding.erase]
    split
    · rfl
    · exact congrArg Except.ok (s.modify_erase owner fun scope => scope.set_erase name value).symm

theorem declareStruct_erase (d : StructDecl) :
    s.erase.declareStruct id d.erase = (s.declareStruct id d).map erase := by
  unfold declareStruct
  rw [get?_erase]
  cases s.get? id with
  | none => rfl
  | some scope =>
    have hname : d.erase.name.name = d.name.name := rfl
    simp only [Option.map_some, Scope.struct?_erase, Option.isSome_map, hname]
    split
    · rfl
    · refine congrArg Except.ok (s.modify_erase id ?_).symm
      exact fun _ => rfl

theorem getStruct_erase (name : String) :
    s.erase.getStruct id name = (s.getStruct id name).map StructDecl.erase := by
  unfold getStruct
  rw [s.search_erase id fun scope => scope.struct?_erase name]
  cases s.search (·.struct? name) id with
  | error e => rfl
  | ok found => cases found <;> rfl

end Scopes

end BraceScript
