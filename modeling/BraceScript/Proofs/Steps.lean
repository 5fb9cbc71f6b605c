import BraceScript.Proofs.Nesting
import BraceScript.Proofs.Bindings

/-!
# What the steps of an evaluation can do

Evaluation reads names and structs, stores into variables and declares names.  For each of these steps there is one
lemma that lists all ways in which it can end when scopes are nested and the scope it starts from is alive
(`Eval.lookup_cases`, `Eval.store_cases` and so on): it does its work on a scope that is alive, or it fails and
leaves the session as it is, with another error than that of a dead scope.
-/

namespace BraceScript

/-! ### Searching nested scopes -/

namespace Scopes

variable {s : Scopes} {id : ScopeId}

theorem Nested.parent_of_root (h : s.Nested) {scope : Scope} (hget : s.get? s.root = some scope) :
    scope.parent = none := by
  obtain ⟨-, hslot⟩ := get?_eq_some_iff.1 hget
  obtain ⟨generation, htop⟩ := h.top
  obtain ⟨scope', hslot', hparent⟩ := outline_eq_some_iff.1 htop
  have hsame : scope' = scope := congrArg Slot.scope (Option.some.inj (hslot'.symm.trans hslot))
  rw [← hsame, hparent]

/-- From a scope that is alive the walk only meets scopes that are alive, each older than the one before. -/
private theorem Nested.walk_eq {α : Type} (h : s.Nested) (find : Scope → Option α) {rounds : Nat}
    (ha : s.isAlive id = true) (hr : id.index < rounds) :
    s.walk find rounds id = some (.ok none) ∨ ∃ owner scope a, s.walk find rounds id = some (.ok (some (owner, a))) ∧
      s.get? owner = some scope ∧ find scope = some a := by
  induction rounds generalizing id with
  | zero => omega
  | succ rounds ih =>
    obtain ⟨scope, hget⟩ := Option.isSome_iff_exists.1 ha
    simp only [walk, hget]
    cases hfind : find scope with
    | some a => exact .inr ⟨id, scope, a, rfl, hget, hfind⟩
    | none =>
      cases hparent : scope.parent with
      | none => exact .inl rfl
      | some parent =>
        have hroot : id ≠ s.root := by
          rintro rfl
          rw [h.parent_of_root hget] at hparent
          cases hparent
        obtain ⟨p, hp, halive, hlt⟩ := h.parent id scope hget hroot
        obtain rfl : p = parent := Option.some.inj (hp.symm.trans hparent)
        exact ih halive (by omega)

private theorem Nested.search_eq {α : Type} (h : s.Nested) (find : Scope → Option α) (ha : s.isAlive id = true) :
    s.search find id = .ok none ∨
      ∃ owner scope a, s.search find id = .ok (some (owner, a)) ∧ s.get? owner = some scope ∧
      find scope = some a := by
  unfold search
  rcases h.walk_eq find ha (isAlive_iff.1 ha).1 with hw | ⟨owner, scope, a, hw, hget, hfind⟩
  · exact .inl (by rw [hw]; rfl)
  · exact .inr ⟨owner, scope, a, by rw [hw]; rfl, hget, hfind⟩

theorem Nested.lookup_eq (h : s.Nested) (name : String) (ha : s.isAlive id = true) :
    s.lookup id name = .error (.notDeclared name) ∨
      ∃ owner b, s.lookup id name = .ok (owner, b) ∧ s.Binds owner name b := by
  unfold lookup
  rcases h.search_eq (·.binding? name) ha with hw | ⟨owner, scope, b, hw, hget, hfind⟩
  · exact .inl (by rw [hw])
  · exact .inr ⟨owner, b, by rw [hw], scope, hget, hfind⟩

private theorem Nested.getStruct_eq (h : s.Nested) (name : String) (ha : s.isAlive id = true) :
    s.getStruct id name = .error (.notDeclared name) ∨ ∃ d, s.getStruct id name = .ok d ∧ s.Declares d := by
  unfold getStruct
  rcases h.search_eq (·.struct? name) ha with hw | ⟨owner, scope, d, hw, hget, hfind⟩
  · exact .inl (by rw [hw])
  · exact .inr ⟨d, by rw [hw], owner, scope, hget, List.mem_of_find?_eq_some hfind⟩

end Scopes

/-! ### Errors of operators -/

namespace Value

private theorem isStale_integerArith {op : ArithOp} {a b : Int} {s t : IntType} {cause : RuntimeError.Cause}
    (h : integerArith op a s b t = .error cause) : cause.isStale = false := by
  unfold integerArith at h
  split at h
  · cases h; rfl
  · split at h
    · cases h; rfl
    · cases h

private theorem isStale_mixedArith {op : ArithOp} {left right : Value} {cause : RuntimeError.Cause}
    (h : mixedArith op left right = .error cause) : cause.isStale = false := by
  unfold mixedArith at h
  split at h
  · unfold floatArith at h
    split at h
    · cases h; rfl
    · cases h
  · cases h; rfl

private theorem isStale_arith {op : ArithOp} {left right : Value} {cause : RuntimeError.Cause}
    (h : arith op left right = .error cause) : cause.isStale = false := by
  unfold arith at h
  split at h
  · exact isStale_integerArith h
  · split at h
    · cases h
    · exact isStale_mixedArith h

theorem isStale_binary {op : BinaryOp} {left right : Value} {cause : RuntimeError.Cause}
    (h : binary op left right = .error cause) : cause.isStale = false := by
  have htest : ∀ {f : Bool → Bool} {r : Option Bool}, binary.test left right op f r = .error cause →
      cause.isStale = false := by
    intro f r h
    cases r <;> cases h
    rfl
  cases op with
  | arith op => exact isStale_arith h
  | compare op =>
    simp only [binary, comparison] at h
    split at h <;> cases h
    rfl
  | equal => exact htest h
  | notEqual => exact htest h
  | and => cases h
  | or => cases h
  | range =>
    simp only [binary, range] at h
    split at h
    · split at h <;> cases h
      rfl
    · cases h; rfl

theorem isStale_unary {op : UnaryOp} {v : Value} {cause : RuntimeError.Cause} (h : unary op v = .error cause) :
    cause.isStale = false := by
  have hstep : ∀ {t : IntType} {signed : Bool} {n : Int}, stepped op t signed n = .error cause →
      cause.isStale = false := by
    intro t signed n h
    unfold stepped at h
    split at h <;> cases h
    rfl
  cases op <;> cases v <;> first | exact hstep h | (cases h; done) | (cases h; rfl)

/-- A variable gets the new value, seen as one of some type if it is a number. -/
theorem retag_cases {old new w : Value} (h : old.retag new = .ok w) : w = new ∨ ∃ t, conform t new = .ok w := by
  unfold retag at h
  split at h
  · exact .inl (Except.ok.inj h).symm
  · exact .inr ⟨_, h⟩
  · exact .inr ⟨_, h⟩
  · exact .inr ⟨_, h⟩
  · split at h
    · exact .inl (Except.ok.inj h).symm
    · cases h
  all_goals first | exact .inl (Except.ok.inj h).symm | cases h

theorem isStale_readProperty {object : Value} {name : Ident} {e : RuntimeError}
    (h : object.readProperty name = .error e) : e.cause.isStale = false := by
  unfold readProperty at h
  split at h
  · split at h <;> cases h
    rfl
  · cases h; rfl

theorem readProperty_eq_ok {object : Value} {name : Ident} {v : Value} (h : object.readProperty name = .ok v) :
    ∃ d fields, object = .struct d fields ∧ field? name.name fields = some v := by
  unfold readProperty at h
  split at h
  · rename_i d fields
    split at h <;> cases h
    rename_i hfield
    exact ⟨d, fields, rfl, hfield⟩
  · cases h

/-- A property is given the combined value, brought to its type, unless there is no such value. -/
theorem newProperty_cases (t : Ty) (op : Located AssignOp) (old new : Value) (span : Span) :
    (∃ combined v, op.value.apply old new = .ok combined ∧ combined.conform t = .ok v ∧
      newProperty t op old new span = .ok v) ∨
      ∃ e, newProperty t op old new span = .error e ∧ e.cause.isStale = false := by
  cases hc : op.value.apply old new with
  | error cause =>
    refine .inr ⟨⟨cause, op.span⟩, by rw [newProperty, hc]; rfl, ?_⟩
    cases hop : op.value with
    | set => rw [hop] at hc; cases hc
    | update f => rw [hop] at hc; exact isStale_arith hc
  | ok combined =>
    cases hconform : combined.conform t with
    | error m =>
      refine .inr ⟨⟨.typeMismatch m, span⟩, ?_, rfl⟩
      simp only [newProperty, hc, Located.reported, bind, Except.bind, hconform]
    | ok v =>
      refine .inl ⟨combined, v, rfl, hconform, ?_⟩
      simp only [newProperty, hc, Located.reported, bind, Except.bind, hconform]

/-- An assignment through a path changes one property of an instance, or one inside a property, unless there is no
such property. -/
theorem setProperty_cases (op : Located AssignOp) (new : Value) (span : Span) (path : List Ident) (object : Value) :
    (∃ name rest d fields p old, path = name :: rest ∧ object = .struct d fields ∧ d.property? name.name = some p ∧
      field? name.name fields = some old ∧
      ((rest = [] ∧ p.isReadonly = false ∧ setProperty op new span path object =
          (newProperty p.type op old new span).map fun v => (.struct d (setField name.name v fields), v)) ∨
        setProperty op new span path object = (setProperty op new span rest old).map fun r =>
          (.struct d (setField name.name r.1 fields), r.2))) ∨
      ∃ e, setProperty op new span path object = .error e ∧ e.cause.isStale = false := by
  cases path with
  | nil => exact .inr ⟨_, by simp only [setProperty]; rfl, rfl⟩
  | cons name rest =>
    cases object with
    | struct d fields =>
      cases hp : d.property? name.name with
      | none => exact .inr ⟨_, by simp only [setProperty, hp]; rfl, rfl⟩
      | some p =>
        cases hf : field? name.name fields with
        | none => exact .inr ⟨_, by simp only [setProperty, hp, hf]; rfl, rfl⟩
        | some old =>
          cases rest with
          | nil =>
            cases hr : p.isReadonly with
            | true => exact .inr ⟨_, by simp only [setProperty, hp, hf, hr, ↓reduceIte]; rfl, rfl⟩
            | false =>
              refine .inl ⟨name, [], d, fields, p, old, rfl, rfl, hp, hf, .inl ⟨rfl, hr, ?_⟩⟩
              simp only [setProperty, hp, hf, hr, Bool.false_eq_true, ↓reduceIte]
              cases newProperty p.type op old new span <;> rfl
          | cons next more =>
            refine .inl ⟨name, next :: more, d, fields, p, old, rfl, rfl, hp, hf, .inr ?_⟩
            rw [setProperty]
            simp only [hp, hf]
            cases setProperty op new span (next :: more) old <;> rfl
    | _ => exact .inr ⟨_, by simp only [setProperty]; rfl, rfl⟩

private theorem isStale_setProperty {op : Located AssignOp} {new : Value} {span : Span} {path : List Ident}
    {object : Value} {e : RuntimeError} (h : setProperty op new span path object = .error e) :
    e.cause.isStale = false := by
  induction path generalizing object with
  | nil =>
    simp only [setProperty] at h
    cases h; rfl
  | cons name rest ih =>
    rcases setProperty_cases op new span (name :: rest) object with
      ⟨_, _, d, fields, p, old, ⟨⟩, -, -, -, hset⟩ | ⟨e', hset, hstale⟩
    · rcases hset with ⟨-, -, hset⟩ | hset
      · rcases newProperty_cases p.type op old new span with ⟨_, v, -, -, hn⟩ | ⟨e', hn, hstale⟩
        · rw [hset, hn] at h
          cases h
        · rw [hset, hn] at h
          cases h
          exact hstale
      · cases hi : setProperty op new span rest old with
        | error e' =>
          rw [hset, hi] at h
          cases h
          exact ih hi
        | ok r =>
          rw [hset, hi] at h
          cases h
    · rw [hset] at h
      cases h
      exact hstale

end Value

/-! ### Steps in a session -/

namespace Eval

variable {s : Session} {scope : ScopeId}

theorem isStale_itemAt {α : Type} {items : List α} {position : Int} {cause : RuntimeError.Cause}
    (h : itemAt items position = .error cause) : cause.isStale = false := by
  unfold itemAt at h
  split at h <;> cases h
  rfl

theorem mem_of_itemAt {α : Type} {items : List α} {position : Int} {a : α} (h : itemAt items position = .ok a) :
    a ∈ items := by
  unfold itemAt at h
  split at h
  · rename_i hitem
    cases h
    split at hitem
    · cases hitem
    · exact List.mem_of_getElem? hitem
  · cases h

theorem lookup_cases (hs : s.scopes.Nested) (ha : s.scopes.isAlive scope = true) (id : Ident) :
    (∃ owner b, s.scopes.Binds owner id.name b ∧ lookup scope id s = .done b.value s) ∨
      lookup scope id s = .done (.builtin id.name) s ∨
      ∃ e, lookup scope id s = .failed e s ∧ e.cause.isStale = false := by
  unfold lookup Scopes.get
  rcases hs.lookup_eq id.name ha with hl | ⟨owner, b, hl, hb⟩
  · rw [hl]
    simp only [Except.map]
    split
    · exact .inr (.inl rfl)
    · exact .inr (.inr ⟨_, rfl, rfl⟩)
  · rw [hl]
    exact .inl ⟨owner, b, hb, rfl⟩

theorem structNamed_cases (hs : s.scopes.Nested) (ha : s.scopes.isAlive scope = true) (name : Ident) :
    (∃ d, structNamed scope name s = .done d s ∧ s.scopes.Declares d) ∨
      ∃ e, structNamed scope name s = .failed e s ∧ e.cause.isStale = false := by
  unfold structNamed
  rcases hs.getStruct_eq name.name ha with hd | ⟨d, hd, hdeclares⟩
  · rw [hd]
    exact .inr ⟨_, rfl, rfl⟩
  · rw [hd]
    exact .inl ⟨d, rfl, hdeclares⟩

theorem valueOf_of_ok {name : String} {owner : ScopeId} {b : Binding}
    (h : s.scopes.lookup scope name = .ok (owner, b)) (span : Span) :
    valueOf scope name span s = .done b.value s := by
  simp only [valueOf, query, Scopes.get, h, Except.map]

theorem valueOf_of_notDeclared {name : String} (h : s.scopes.lookup scope name = .error (.notDeclared name))
    (span : Span) : valueOf scope name span s = .failed ⟨.undeclared name, span⟩ s := by
  simp only [valueOf, query, Scopes.get, h, Except.map, scopeFault]

/-- The session after the value of a variable has been replaced. -/
def assigned (s : Session) (scope owner : ScopeId) (name : String) (value : Value) : Session :=
  (s.note (.assigned s.scopes scope name)).moveTo (s.scopes.modify owner (·.set name value)) s.depth

theorem replace_of_ok {name : Ident} {owner : ScopeId} {b : Binding}
    (h : s.scopes.lookup scope name.name = .ok (owner, b)) (hc : b.isConstant = false) (value : Value) :
    replace scope name value s = .done () (assigned s scope owner name.name value) := by
  simp only [replace, Scopes.assign, h, hc, Bool.false_eq_true, ↓reduceIte, assigned]

theorem replace_of_constant {name : Ident} {owner : ScopeId} {b : Binding}
    (h : s.scopes.lookup scope name.name = .ok (owner, b)) (hc : b.isConstant = true) (value : Value) :
    replace scope name value s = .failed ⟨.constantReassignment name.name, name.span⟩ s := by
  simp only [replace, Scopes.assign, h, hc, ↓reduceIte, scopeFault]

theorem store_cases (hs : s.scopes.Nested) (ha : s.scopes.isAlive scope = true) (id : Ident) (value : Value)
    (span : Span) :
    (∃ owner b new, s.scopes.lookup scope id.name = .ok (owner, b) ∧ s.scopes.Binds owner id.name b ∧
      b.isConstant = false ∧ b.value.retag value = .ok new ∧
      store scope id value span s = .done new (assigned s scope owner id.name new)) ∨
    ∃ e, store scope id value span s = .failed e s ∧ e.cause.isStale = false := by
  unfold store
  rcases hs.lookup_eq id.name ha with hl | ⟨owner, b, hl, hb⟩
  · exact .inr ⟨_, bind_of_failed (valueOf_of_notDeclared hl span) _, rfl⟩
  have hconstant : query id.name span (·.isConstant scope id.name) s = .done b.isConstant s := by
    simp only [query, Scopes.isConstant, hl, Except.map]
  rw [bind_of_done (valueOf_of_ok hl span), bind_of_done hconstant]
  cases hc : b.isConstant with
  | true => exact .inr ⟨_, rfl, rfl⟩
  | false =>
    simp only [Bool.false_eq_true, ↓reduceIte]
    cases hr : b.value.retag value with
    | error m => exact .inr ⟨_, rfl, rfl⟩
    | ok new =>
      have hdone := replace_of_ok hl hc new
      refine .inl ⟨owner, b, new, hl, hb, hc, hr, ?_⟩
      change (replace scope id new >>= fun _ => pure new) s = _
      rw [bind_of_done hdone, pure_apply]

theorem assignPath_cases (hs : s.scopes.Nested) (ha : s.scopes.isAlive scope = true) (object : Expr) (name : Ident)
    (place : Span) (op : Located AssignOp) (new : Value) (span : Span) :
    (∃ root path owner b changed stored, (Expr.property object name place).path? = some (root, path) ∧
      s.scopes.lookup scope root.name = .ok (owner, b) ∧ s.scopes.Binds owner root.name b ∧ b.isConstant = false ∧
      Value.setProperty op new span path b.value = .ok (changed, stored) ∧
      assign scope (.property object name place) op new span s =
        .done stored (assigned s scope owner root.name changed)) ∨
    ∃ e, assign scope (.property object name place) op new span s = .failed e s ∧ e.cause.isStale = false := by
  simp only [assign]
  cases hpath : (Expr.property object name place).path? with
  | none => exact .inr ⟨_, rfl, rfl⟩
  | some r =>
    obtain ⟨root, path⟩ := r
    simp only
    rcases hs.lookup_eq root.name ha with hl | ⟨owner, b, hl, hb⟩
    · exact .inr ⟨_, bind_of_failed (valueOf_of_notDeclared hl span) _, rfl⟩
    rw [bind_of_done (valueOf_of_ok hl span)]
    cases hset : Value.setProperty op new span path b.value with
    | error e => exact .inr ⟨e, rfl, Value.isStale_setProperty hset⟩
    | ok r =>
      obtain ⟨changed, stored⟩ := r
      cases hc : b.isConstant with
      | true =>
        have hfailed := replace_of_constant hl hc changed
        exact .inr ⟨_, bind_of_failed hfailed fun _ => pure stored, rfl⟩
      | false =>
        have hdone := replace_of_ok hl hc changed
        exact .inl ⟨root, path, owner, b, changed, stored, rfl, hl, hb, hc, hset,
          bind_of_done hdone fun _ => pure stored⟩

/-- The session after a name has been bound. -/
def bound (s : Session) (scope : ScopeId) (name : String) (b : Binding) : Session :=
  s.moveTo (s.scopes.modify scope (·.bind name b)) s.depth

theorem declare_cases (ha : s.scopes.isAlive scope = true) (name : Ident) (value : Value) (isConstant : Bool) :
    (∃ here, s.scopes.get? scope = some here ∧ here.binding? name.name = none ∧
      declare scope name value isConstant s = .done () (bound s scope name.name ⟨value, isConstant⟩)) ∨
    ∃ e, declare scope name value isConstant s = .failed e s ∧ e.cause.isStale = false := by
  obtain ⟨here, hget⟩ := Option.isSome_iff_exists.1 ha
  cases hb : here.binding? name.name with
  | none =>
    refine .inl ⟨here, hget, hb, ?_⟩
    simp [declare, change, Scopes.declare, hget, hb, bound]
  | some b =>
    refine .inr ⟨⟨.alreadyDeclared name.name, name.span⟩, ?_, rfl⟩
    simp only [declare, change, Scopes.declare, hget, hb, Option.isSome_some, ↓reduceIte, scopeFault]

theorem declareStruct_cases (ha : s.scopes.isAlive scope = true) (d : StructDecl) :
    (∃ here, s.scopes.get? scope = some here ∧ here.struct? d.name.name = none ∧
      change d.name.name d.name.span (·.declareStruct scope d) s =
        .done () (s.moveTo (s.scopes.modify scope fun here => { here with structs := d :: here.structs }) s.depth)) ∨
    ∃ e, change d.name.name d.name.span (·.declareStruct scope d) s = .failed e s ∧ e.cause.isStale = false := by
  obtain ⟨here, hget⟩ := Option.isSome_iff_exists.1 ha
  cases hd : here.struct? d.name.name with
  | none =>
    refine .inl ⟨here, hget, hd, ?_⟩
    simp [change, Scopes.declareStruct, hget, hd]
  | some d' =>
    refine .inr ⟨⟨.alreadyDeclared d.name.name, d.name.span⟩, ?_, rfl⟩
    simp only [change, Scopes.declareStruct, hget, hd, Option.isSome_some, ↓reduceIte, scopeFault]

theorem callBuiltin_cases (name : String) (args : List Value) (span : Span) (s : Session) :
    (∃ b v output, s.builtins.get? name = some b ∧ b.call args s.output = (.ok v, output) ∧
      callBuiltin name args span s = .done v { s with output }) ∨
    ∃ cause output, callBuiltin name args span s = .failed ⟨cause, span⟩ { s with output } ∧
    cause.isStale = false := by
  unfold callBuiltin
  split
  · exact .inr ⟨_, s.output, rfl, rfl⟩
  · rename_i b hb
    split
    · exact .inr ⟨_, s.output, rfl, rfl⟩
    · split
      · rename_i v output hcall
        exact .inl ⟨b, v, output, hb, hcall, rfl⟩
      · exact .inr ⟨_, _, rfl, rfl⟩

end Eval

/-! ### Default built-in functions -/

theorem Registry.mem_register {r : Registry} {b c : Builtin} (h : c ∈ (r.register b).entries) :
    c = b ∨ c ∈ r.entries := by
  rcases List.mem_cons.1 h with rfl | h
  · exact .inl rfl
  · exact .inr (List.mem_filter.1 h).1

/-- The default built-in functions yield nothing or a 64-bit integer. -/
theorem Registry.call_default {now : Nat} {b : Builtin} {args : List Value} {v : Value} {output rest : Output}
    (hb : b ∈ (Registry.default now).entries) (h : b.call args output = (.ok v, rest)) :
    v = .void ∨ ∃ n : Nat, IntType.i64.holds n = true ∧ v = .i64 n := by
  have hi64 : ∀ {what n}, Builtin.i64 what n = .ok v → ∃ n : Nat, IntType.i64.holds n = true ∧ v = .i64 n := by
    intro what n h
    unfold Builtin.i64 at h
    split at h
    · rename_i hholds
      cases h
      exact ⟨n, hholds, rfl⟩
    · cases h
  rcases mem_register hb with rfl | hb
  · exact .inr (hi64 (Prod.mk.inj h).1)
  rcases mem_register hb with rfl | hb
  · have hlength : Builtin.lengthOf args = .ok v := (Prod.mk.inj h).1
    unfold Builtin.lengthOf at hlength
    split at hlength
    · exact .inr (hi64 hlength)
    · exact .inr (hi64 hlength)
    · cases hlength
    · cases hlength
  rcases mem_register hb with rfl | hb
  · simp only [Builtin.print] at h
    split at h
    · cases h
      exact .inl rfl
    · cases h
  · cases hb

end BraceScript
