import BraceScript.Proofs.ErasedValues
import BraceScript.Proofs.Nesting

/-!
# Running does not depend on places

A program without places, run in a session without places, does what the program does in the session, without places
(`Eval.Erases`): it ends with the same value, the same error or for lack of fuel, after the same output
(`Program.erases_run`).  Built-in functions have to play along: they must not look at places in their arguments
(`Builtin.Blind`).
-/

namespace BraceScript

/-! ### Built-in functions -/

/-- The function that yields values without places. -/
def Builtin.erase (b : Builtin) : Builtin :=
  { b with call := fun args output => ((b.call args output).1.map Value.erase, (b.call args output).2) }

/-- The function does the same for its arguments without places as for the arguments themselves. -/
def Builtin.Blind (b : Builtin) : Prop :=
  ∀ args output, b.erase.call (args.map Value.erase) output = b.erase.call args output

namespace Registry

def erase (r : Registry) : Registry := ⟨r.entries.map Builtin.erase⟩

private theorem get?_erase (r : Registry) (name : String) : r.erase.get? name = (r.get? name).map Builtin.erase := by
  unfold get? erase
  rw [List.find?_map]
  rfl

private theorem has_erase (r : Registry) (name : String) : r.erase.has name = r.has name := by
  unfold has
  rw [get?_erase, Option.isSome_map]

end Registry

/-! ### Sessions and outcomes -/

/-- `s'` is the session `s` without places; what has happened before does not count. -/
structure Session.Erases (s s' : Session) : Prop where
  scopes : s'.scopes = s.scopes.erase
  builtins : s'.builtins = s.builtins.erase
  blind : ∀ b ∈ s.builtins.entries, b.Blind
  output : s'.output = s.output
  maxDepth : s'.maxDepth = s.maxDepth
  depth : s'.depth = s.depth

namespace Session.Erases

variable {s s' : Session}

private theorem note (h : s.Erases s') (e e' : Event) : (s.note e).Erases (s'.note e') :=
  ⟨h.scopes, h.builtins, h.blind, h.output, h.maxDepth, h.depth⟩

private theorem moveTo (h : s.Erases s') {scopes scopes' : Scopes} {depth depth' : Nat}
    (hscopes : scopes' = scopes.erase) (hdepth : depth' = depth) :
    (s.moveTo scopes depth).Erases (s'.moveTo scopes' depth') :=
  ⟨hscopes, h.builtins, h.blind, h.output, h.maxDepth, hdepth⟩

end Session.Erases

/-- The second computation has ended as the first, without places, where `f` strips the results. -/
inductive Outcome.Erases {α β : Type} (f : α → β) : Outcome α → Outcome β → Prop where
  | done {a : α} {b : β} {t t' : Session} (hb : b = f a) (h : t.Erases t') : Erases f (.done a t) (.done b t')
  | failed {e e' : RuntimeError} {t t' : Session} (he : e'.cause = e.cause) (h : t.Erases t') :
    Erases f (.failed e t) (.failed e' t')
  | exhausted {t t' : Session} (h : t.Erases t') : Erases f (.exhausted t) (.exhausted t')

namespace Eval

variable {α β γ δ : Type} {f : α → β}

/-- In a session without places, `x'` does what `x` does in the session, without places. -/
def Erases (f : α → β) (x : Eval α) (x' : Eval β) : Prop :=
  ∀ s s' : Session, s.Erases s' → (x s).Erases f (x' s')

/-! ### Rules -/

private theorem erases_pure {a : α} {b : β} (h : b = f a) : Erases f (pure a) (pure b) := fun _ _ hs => .done h hs

private theorem erases_exhausted : Erases f exhausted exhausted := fun _ _ hs => .exhausted hs

private theorem erases_fail (cause : RuntimeError.Cause) (span span' : Span) :
    Erases f (fail cause span) (fail cause span') :=
  fun _ _ hs => .failed rfl hs

private theorem erases_record (e e' : Event) : Erases id (record e) (record e') :=
  fun _ _ hs => .done rfl (hs.note e e')

private theorem Erases.bind {g : γ → δ} {x : Eval α} {x' : Eval β} {k : α → Eval γ} {k' : β → Eval δ}
    (h : Erases f x x') (hk : ∀ a, Erases g (k a) (k' (f a))) : Erases g (x >>= k) (x' >>= k') := by
  intro s s' hs
  have hx := h s s' hs
  generalize hxs : x s = o at hx
  generalize hxs' : x' s' = o' at hx
  cases hx with
  | done hb ht =>
    rw [bind_of_done hxs, bind_of_done hxs', hb]
    exact hk _ _ _ ht
  | failed he ht =>
    rw [bind_of_failed hxs, bind_of_failed hxs']
    exact .failed he ht
  | exhausted ht =>
    rw [bind_of_exhausted hxs, bind_of_exhausted hxs']
    exact .exhausted ht

private theorem erases_ofExcept {r : Except RuntimeError.Cause α} {r' : Except RuntimeError.Cause β}
    (h : r' = r.map f) (span span' : Span) : Erases f (ofExcept span r) (ofExcept span' r') := by
  subst h
  cases r with
  | ok a => exact erases_pure rfl
  | error cause => exact erases_fail _ _ _

private theorem erases_checked {r : Except Mismatch α} {r' : Except Mismatch β} (h : r' = r.map f)
    (span span' : Span) : Erases f (checked span r) (checked span' r') := by
  subst h
  cases r with
  | ok a => exact erases_pure rfl
  | error m => exact erases_fail _ _ _

private theorem erases_located {r : Except RuntimeError α} {r' : Except RuntimeError β}
    (h : r' = (r.map f).mapError RuntimeError.erase) : Erases f (located r) (located r') := by
  subst h
  cases r with
  | ok a => exact erases_pure rfl
  | error e => exact erases_fail _ _ _

private theorem erases_query (name : String) (span span' : Span) {q : Scopes → Except ScopeError α}
    {q' : Scopes → Except ScopeError β} (h : ∀ scopes : Scopes, q' scopes.erase = (q scopes).map f) :
    Erases f (query name span q) (query name span' q') := by
  intro s s' hs
  unfold query
  rw [hs.scopes, h]
  cases q s.scopes with
  | ok a => exact .done rfl hs
  | error e => exact .failed rfl hs

private theorem erases_change (name : String) (span span' : Span) {q q' : Scopes → Except ScopeError Scopes}
    (h : ∀ scopes : Scopes, q' scopes.erase = (q scopes).map Scopes.erase) :
    Erases id (change name span q) (change name span' q') := by
  intro s s' hs
  unfold change
  rw [hs.scopes, h]
  cases q s.scopes with
  | ok scopes => exact .done rfl (hs.moveTo rfl hs.depth)
  | error e => exact .failed rfl hs

/-- Leaving a scope fails or succeeds without regard to places. -/
private theorem leave_erases (id : ScopeId) {s s' : Session} (hs : s.Erases s') :
    (leave id s').1 = (leave id s).1 ∧ (leave id s).2.Erases (leave id s').2 := by
  have hnote := hs.note (.leaving s.scopes id) (.leaving s'.scopes id)
  unfold leave
  rw [hs.scopes, Scopes.pop_erase] at *
  cases s.scopes.pop id with
  | ok scopes => exact ⟨rfl, hnote.moveTo rfl hs.depth⟩
  | error e => exact ⟨rfl, hnote⟩

private theorem Erases.inScope {x : ScopeId → Eval α} {x' : ScopeId → Eval β} (h : ∀ id, Erases f (x id) (x' id))
    (parent : ScopeId) (span span' : Span) : Erases f (inScope parent span x) (inScope parent span' x') := by
  intro s s' hs
  have hpush : s'.scopes.push parent = ((s.scopes.push parent).1.erase, (s.scopes.push parent).2) := by
    rw [hs.scopes, Scopes.push_erase]
  have hentered : (s.entered parent).Erases (s'.entered parent) := by
    unfold Session.entered
    exact (hs.note _ _).moveTo (by rw [hpush]) hs.depth
  have hbody := h (s.scopes.push parent).2 _ _ hentered
  rw [inScope_eq, inScope_eq, show (s'.scopes.push parent).2 = (s.scopes.push parent).2 by rw [hpush]]
  generalize x (s.scopes.push parent).2 (s.entered parent) = o at hbody
  generalize x' (s.scopes.push parent).2 (s'.entered parent) = o' at hbody
  cases hbody with
  | exhausted ht => exact .exhausted ht
  | failed he ht => exact .failed he (leave_erases _ ht).2
  | @done a b t t' hb ht =>
    obtain ⟨hfault, hleft⟩ := leave_erases (s.scopes.push parent).2 ht
    dsimp only
    generalize leave (s.scopes.push parent).2 t = left at hfault hleft
    generalize leave (s.scopes.push parent).2 t' = left' at hfault hleft
    obtain ⟨fault, u⟩ := left
    obtain ⟨fault', u'⟩ := left'
    cases hfault
    cases fault with
    | none => exact .done hb hleft
    | some e => exact .failed rfl hleft

private theorem Erases.deeper {x : Eval α} {x' : Eval β} (h : Erases f x x') : Erases f (deeper x) (deeper x') := by
  intro s s' hs
  have hdepth : s'.depth + 1 = s.depth + 1 := by rw [hs.depth]
  have hbody := h _ _ (hs.moveTo hs.scopes hdepth)
  unfold Eval.deeper
  generalize x (s.moveTo s.scopes (s.depth + 1)) = o at hbody
  generalize x' (s'.moveTo s'.scopes (s'.depth + 1)) = o' at hbody
  cases hbody with
  | exhausted ht => exact .exhausted ht
  | failed he ht => exact .failed he (ht.moveTo ht.scopes (by rw [ht.depth]))
  | done hb ht => exact .done hb (ht.moveTo ht.scopes (by rw [ht.depth]))

private theorem erases_each {g : γ → δ} {k : α → Eval γ} {k' : β → Eval δ} (h : ∀ a, Erases g (k a) (k' (f a)))
    (as : List α) : Erases (List.map g) (each k as) (each k' (as.map f)) := by
  induction as with
  | nil => exact erases_pure rfl
  | cons a as ih => exact (h a).bind fun b => ih.bind fun bs => erases_pure rfl

/-! ### Names, properties and items -/

private theorem erases_lookup (scope : ScopeId) (id : Ident) :
    Erases Value.erase (lookup scope id) (lookup scope (Expr.eraseIdent id)) := by
  intro s s' hs
  unfold lookup
  rw [hs.scopes, hs.builtins, Registry.has_erase, Expr.eraseIdent, Scopes.get_erase]
  cases s.scopes.get scope id.name with
  | ok v => exact .done rfl hs
  | error e =>
    cases e with
    | notDeclared n =>
      simp only [Except.map]
      split
      · exact .done rfl hs
      · exact .failed rfl hs
    | _ => exact .failed rfl hs

private theorem erases_valueOf (scope : ScopeId) (name : String) (span span' : Span) :
    Erases Value.erase (valueOf scope name span) (valueOf scope name span') :=
  erases_query name span span' fun scopes => scopes.get_erase scope name

private theorem erases_isConstant (scope : ScopeId) (name : String) (span span' : Span) :
    Erases id (query name span (·.isConstant scope name)) (query name span' (·.isConstant scope name)) := by
  refine erases_query name span span' fun scopes => ?_
  rw [Scopes.isConstant_erase]
  cases scopes.isConstant scope name <;> rfl

private theorem erases_replace (scope : ScopeId) (name : Ident) (value : Value) :
    Erases id (replace scope name value) (replace scope (Expr.eraseIdent name) value.erase) := by
  intro s s' hs
  have herase := s.scopes.assign_erase scope name.name value
  unfold replace
  rw [hs.scopes, show (Expr.eraseIdent name).name = name.name from rfl, herase]
  cases s.scopes.assign scope name.name value with
  | ok scopes => exact .done rfl ((hs.note _ _).moveTo rfl hs.depth)
  | error e => exact .failed rfl hs

private theorem erases_store (scope : ScopeId) (id : Ident) (value : Value) (span span' : Span) :
    Erases Value.erase (store scope id value span) (store scope (Expr.eraseIdent id) value.erase span') := by
  refine (erases_valueOf scope id.name span span').bind fun old => ?_
  refine (erases_isConstant scope id.name span span').bind fun constant => ?_
  cases constant with
  | true => exact erases_fail _ _ _
  | false =>
    refine (erases_checked (Value.retag_erase old value) _ _).bind fun new => ?_
    exact (erases_replace scope id new).bind fun _ => erases_pure rfl

private theorem erases_assign (scope : ScopeId) (target : Expr) (op : Located AssignOp) (new : Value) (span : Span) :
    Erases Value.erase (assign scope target op new span)
      (assign scope target.erase ⟨op.value, default⟩ new.erase default) := by
  obtain ⟨op, opSpan⟩ := op
  have hbad : Erases Value.erase (fail (.invalidAssignment (.notATarget target.text)) target.span)
      (fail (.invalidAssignment (.notATarget target.erase.text)) target.erase.span) := by
    rw [Expr.text_erase]
    exact erases_fail _ _ _
  cases target with
  | ident id =>
    cases op with
    | set => exact erases_store scope id new _ _
    | update g =>
      refine (erases_valueOf scope id.name _ _).bind fun old => ?_
      refine (erases_ofExcept (Value.binary_erase (.arith g) old new) _ _).bind fun combined => ?_
      exact erases_store scope id combined _ _
  | property object name propertySpan =>
    have hpath := Expr.path?_erase (.property object name propertySpan)
    rw [Expr.erase] at hpath
    unfold assign
    simp only [Expr.erase, hpath]
    cases (Expr.property object name propertySpan).path? with
    | none => exact erases_fail _ _ _
    | some found =>
      obtain ⟨root, path⟩ := found
      refine (erases_valueOf scope root.name _ _).bind fun old => ?_
      refine (erases_located (Value.setProperty_erase ⟨op, opSpan⟩ new span path old)).bind fun changed => ?_
      exact (erases_replace scope root changed.1).bind fun _ => erases_pure rfl
  | _ => exact hbad

private theorem erases_storeStep (scope : ScopeId) (op : Located UnaryOp) (operand : Expr) (new : Value) :
    Erases Value.erase (storeStep scope op operand new)
      (storeStep scope ⟨op.value, default⟩ operand.erase new.erase) := by
  obtain ⟨op, span⟩ := op
  cases operand with
  | ident id =>
    cases op with
    | increment => exact erases_store scope id new _ _
    | decrement => exact erases_store scope id new _ _
    | _ => exact erases_pure rfl
  | _ => cases op <;> exact erases_pure rfl

private theorem erases_structNamed (scope : ScopeId) (name : Ident) :
    Erases StructDecl.erase (structNamed scope name) (structNamed scope (Expr.eraseIdent name)) := by
  intro s s' hs
  unfold structNamed
  rw [hs.scopes, Expr.eraseIdent, Scopes.getStruct_erase]
  cases s.scopes.getStruct scope name.name with
  | ok d => exact .done rfl hs
  | error e => cases e <;> exact .failed rfl hs

private theorem erases_settable (struct : String) (d : StructDecl) (name : Ident) :
    Erases PropertyDecl.erase (settable struct d name) (settable struct d.erase (Expr.eraseIdent name)) := by
  unfold settable
  simp only [Expr.eraseIdent, StructDecl.property?_erase]
  cases d.property? name.name with
  | none => exact erases_fail _ _ _
  | some p =>
    obtain ⟨property, visibility, isStatic, isReadonly, type⟩ := p
    cases isStatic with
    | true => exact erases_fail _ _ _
    | false => exact erases_pure rfl

private theorem defaultFields_erase (d : StructDecl) :
    defaultFields d.erase = (defaultFields d).map Value.eraseField := by
  obtain ⟨name, properties, methods, span⟩ := d
  unfold defaultFields StructDecl.erase
  have hfold : ∀ fields : List (String × Value),
      (properties.map PropertyDecl.erase).foldl (fun fields p =>
        if p.isStatic then fields else Value.setField p.name.name (Value.defaultFor p.type) fields)
          (fields.map Value.eraseField) =
      (properties.foldl (fun fields p =>
        if p.isStatic then fields else Value.setField p.name.name (Value.defaultFor p.type) fields)
          fields).map Value.eraseField := by
    induction properties with
    | nil => exact fun _ => rfl
    | cons p properties ih =>
      intro fields
      have hset := Value.setField_erase p.name.name (Value.defaultFor p.type) fields
      rw [Value.erase_defaultFor] at hset
      rw [List.map_cons, List.foldl_cons, List.foldl_cons, ← ih]
      simp only [PropertyDecl.erase, Expr.eraseIdent, hset]
      split <;> rfl
  exact hfold []

private theorem setFields_erase (values fields : List (String × Value)) :
    (values.map Value.eraseField).foldl (fun all (n, v) => Value.setField n v all) (fields.map Value.eraseField) =
      (values.foldl (fun all (n, v) => Value.setField n v all) fields).map Value.eraseField := by
  induction values generalizing fields with
  | nil => rfl
  | cons f values ih =>
    rw [List.map_cons, List.foldl_cons, List.foldl_cons, ← ih]
    congr 1
    exact Value.setField_erase f.1 f.2 fields

private theorem erases_index (base : Ident) (collection position : Value) (span span' : Span) :
    Erases Value.erase (index base collection position span)
      (index (Expr.eraseIdent base) collection.erase position.erase span') := by
  have hposition : Erases Value.erase (fail (.typeMismatch (.position position.typeName)) span)
      (fail (.typeMismatch (.position position.erase.typeName)) span') := by
    rw [Value.typeName_erase]
    exact erases_fail _ _ _
  have hcollection : Erases Value.erase (fail (.typeMismatch (.notIndexable collection.typeName)) base.span)
      (fail (.typeMismatch (.notIndexable collection.erase.typeName)) default) := by
    rw [Value.typeName_erase]
    exact erases_fail _ _ _
  cases position with
  | integer n t =>
    cases collection with
    | array items =>
      rw [Value.erase_array]
      exact erases_ofExcept (itemAt_map Value.erase items n) _ _
    | string text =>
      refine erases_ofExcept ?_ _ _
      cases itemAt text.toList n <;> rfl
    | _ => exact hcollection
  | _ => exact hposition

private theorem erases_iterated (v : Value) (span span' : Span) :
    Erases (List.map Value.erase) (iterated v span) (iterated v.erase span') := by
  have hbad : Erases (List.map Value.erase) (fail (.typeMismatch (.notIterable v.typeName)) span)
      (fail (.typeMismatch (.notIterable v.erase.typeName)) span') := by
    rw [Value.typeName_erase]
    exact erases_fail _ _ _
  cases v with
  | array items =>
    rw [Value.erase_array]
    exact erases_pure rfl
  | string text =>
    refine erases_pure ?_
    rw [List.map_map]
    rfl
  | _ => exact hbad

/-! ### Declarations and calls -/

private theorem erases_declare (scope : ScopeId) (name : Ident) (value : Value) (isConstant : Bool) :
    Erases id (declare scope name value isConstant) (declare scope (Expr.eraseIdent name) value.erase isConstant) :=
  erases_change _ _ _ fun scopes => scopes.declare_erase scope name.name ⟨value, isConstant⟩

private theorem erases_introduce (scope : ScopeId) (name : Ident) (type : Ty) (value : Value) (isConstant : Bool) :
    Erases id (introduce scope name type value isConstant)
      (introduce scope (Expr.eraseIdent name) type value.erase isConstant) :=
  (erases_declare scope name value isConstant).bind fun _ => erases_record _ _

private theorem erases_declareVariable (scope : ScopeId) (d : VariableDecl) (v : Value) :
    Erases id (declareVariable scope d v) (declareVariable scope d.erase v.erase) := by
  obtain ⟨name, isConstant, type, value, span⟩ := d
  cases type with
  | some t => exact erases_introduce scope name t v isConstant
  | none => exact erases_declare scope name v isConstant

private theorem erases_declareFunction (scope : ScopeId) (d : FunctionDecl) :
    Erases Value.erase (declareFunction scope d) (declareFunction scope d.erase) := by
  obtain ⟨name, params, returnType, body, span⟩ := d
  refine (erases_declare scope name _ true).bind fun _ => ?_
  exact (erases_record _ _).bind fun _ => erases_pure rfl

private theorem erases_bindItem (scope : ScopeId) (value : Ident) (position : Option Ident) (i : UInt64)
    (v : Value) :
    Erases id (bindItem scope value position i v)
      (bindItem scope (Expr.eraseIdent value) (position.map Expr.eraseIdent) i v.erase) := by
  refine (erases_declare scope value v false).bind fun _ => ?_
  cases position with
  | none => exact erases_pure rfl
  | some id => exact erases_declare scope id _ false

/-- A value is held against a type, where `wrap` says on whose behalf. -/
private theorem erases_conform (type : Ty) (v : Value) (wrap : Mismatch → Mismatch) (span span' : Span) :
    Erases Value.erase (checked span ((v.conform type).mapError wrap))
      (checked span' ((v.erase.conform type).mapError wrap)) := by
  refine erases_checked ?_ span span'
  rw [Value.conform_erase]
  cases Value.conform type v <;> rfl

private theorem erases_bindParams (function : String) (frame : ScopeId) (span span' : Span) (ps : List Param)
    (vs : List Value) :
    Erases id (bindParams function frame span ps vs)
      (bindParams function frame span' (ps.map Param.erase) (vs.map Value.erase)) := by
  induction ps generalizing vs with
  | nil => exact erases_pure rfl
  | cons p ps ih =>
    cases vs with
    | nil => exact erases_pure rfl
    | cons v vs =>
      refine (erases_conform p.type v (.argument p.name.name function) span span').bind fun w => ?_
      exact (erases_introduce frame p.name p.type w false).bind fun _ => ih vs

private theorem erases_callBuiltin (name : String) (args : List Value) (span span' : Span) :
    Erases Value.erase (callBuiltin name args span) (callBuiltin name (args.map Value.erase) span') := by
  intro s s' hs
  have hget : s'.builtins.get? name = (s.builtins.get? name).map Builtin.erase := by
    rw [hs.builtins, Registry.get?_erase]
  have hprinted : ∀ output, ({ s with output } : Session).Erases { s' with output } := fun _ =>
    ⟨hs.scopes, hs.builtins, hs.blind, rfl, hs.maxDepth, hs.depth⟩
  unfold callBuiltin
  rw [hget, hs.output]
  cases hb : s.builtins.get? name with
  | none => exact .failed rfl hs
  | some b =>
    have hblind := hs.blind b (List.mem_of_find?_eq_some hb) args s.output
    have harity : b.erase.arity = b.arity := rfl
    simp only [Option.map_some, List.length_map, harity]
    split
    · exact .failed rfl hs
    · rw [hblind]
      simp only [Builtin.erase]
      generalize b.call args s.output = answer
      obtain ⟨r, output⟩ := answer
      cases r with
      | ok v => exact .done rfl (hprinted output)
      | error m => exact .failed rfl (hprinted output)

private theorem erases_callable (d : FunctionDecl) (closure : ScopeId) (args : Nat) (span span' : Span) :
    Erases id (callable d closure args span) (callable d.erase closure args span') := by
  intro s s' hs
  obtain ⟨name, params, returnType, body, declSpan⟩ := d
  have hparams : (FunctionDecl.erase ⟨name, params, returnType, body, declSpan⟩).params.length = params.length :=
    List.length_map _
  unfold callable
  rw [hparams, hs.scopes, hs.maxDepth, hs.depth, Scopes.isAlive_erase]
  split
  · exact .failed rfl hs
  · split
    · exact .failed rfl hs
    · split
      · exact .done rfl (hs.note _ _)
      · exact .failed rfl (hs.note _ _)

end Eval

/-- How a statement ends, without places. -/
def Flow.erase : Flow → Flow
  | normal v => normal v.erase
  | returned v => returned v.erase

namespace Eval

private theorem erases_result (d : FunctionDecl) (span span' : Span) (flow : Flow) :
    Erases Value.erase (result d span flow) (result d.erase span' flow.erase) := by
  obtain ⟨name, params, returnType, body, declSpan⟩ := d
  cases flow with
  | returned v => exact erases_conform returnType v (.result name.name) span span'
  | normal v =>
    cases returnType with
    | void => exact erases_pure rfl
    | null => exact erases_pure rfl
    | _ => exact erases_fail _ _ _

private theorem erases_callFunction (d : FunctionDecl) (closure : ScopeId) (args : List Value) (span span' : Span)
    {body body' : ScopeId → Eval Flow} (h : ∀ frame, Erases Flow.erase (body frame) (body' frame)) :
    Erases Value.erase (callFunction d closure args span body)
      (callFunction d.erase closure (args.map Value.erase) span' body') := by
  have hcallable := erases_callable d closure args.length span span'
  have hresult := erases_result d span span'
  obtain ⟨name, params, returnType, block, declSpan⟩ := d
  have hframe : ∀ frame, Erases Flow.erase (bindParams name.name frame span params args >>= fun _ => body frame)
      (bindParams name.name frame span' (params.map Param.erase) (args.map Value.erase) >>= fun _ => body' frame) :=
    fun frame => (erases_bindParams name.name frame span span' params args).bind fun _ => h frame
  unfold callFunction
  rw [List.length_map]
  exact hcallable.bind fun _ => (Erases.inScope hframe closure span span').deeper.bind hresult

private theorem erases_statements {exec exec' : Stmt → Eval Flow}
    (h : ∀ st, Erases Flow.erase (exec st) (exec' st.erase)) (last : Value) (ss : List Stmt) :
    Erases Flow.erase (statements exec last ss) (statements exec' last.erase (ss.map Stmt.erase)) := by
  induction ss generalizing last with
  | nil => exact erases_pure rfl
  | cons st ss ih =>
    refine (h st).bind fun flow => ?_
    cases flow with
    | normal v => exact ih v
    | returned v => exact erases_pure rfl

private theorem erases_forEach {body body' : UInt64 → Value → Eval Flow}
    (h : ∀ i v, Erases Flow.erase (body i v) (body' i v.erase)) (i : UInt64) (items : List Value) :
    Erases Flow.erase (forEach body i items) (forEach body' i (items.map Value.erase)) := by
  induction items generalizing i with
  | nil => exact erases_pure rfl
  | cons v vs ih =>
    refine (h i v).bind fun flow => ?_
    cases flow with
    | normal _ => exact ih (i + 1)
    | returned w => exact erases_pure rfl

private theorem Erases.yields {x x' : Eval Value} (h : Erases Value.erase x x') (e e' : Expr) :
    Erases Value.erase (yields e x) (yields e' x') :=
  h.bind fun _ => (erases_record _ _).bind fun _ => erases_pure rfl

end Eval

/-! ### The evaluators -/

open Eval

/-- With the given fuel, evaluation takes no notice of places. -/
structure BlindEvaluators (fuel : Nat) : Prop where
  expr : ∀ scope (e : Expr), Erases Value.erase (e.eval fuel scope) (e.erase.eval fuel scope)
  field : ∀ scope struct (d : StructDecl) (f : Ident × Expr),
    Erases Value.eraseField (Expr.evalField fuel scope struct d f)
      (Expr.evalField fuel scope struct d.erase (Expr.eraseField f))
  stmts : ∀ scope ss, Erases Flow.erase (Stmt.execAll fuel scope ss) (Stmt.execAll fuel scope (ss.map Stmt.erase))
  stmt : ∀ scope (st : Stmt), Erases Flow.erase (st.exec fuel scope) (st.erase.exec fuel scope)
  initial : ∀ scope (d : VariableDecl), Erases Value.erase (d.initial fuel scope) (d.erase.initial fuel scope)
  block : ∀ scope (b : Block), Erases Flow.erase (b.exec fuel scope) (b.erase.exec fuel scope)
  branch : ∀ scope (i : IfStmt), Erases Flow.erase (i.exec fuel scope) (i.erase.exec fuel scope)
  loop : ∀ scope (condition : Expr) (body : Block) (post : Option Expr),
    Erases Flow.erase (Stmt.loop fuel scope condition body post)
      (Stmt.loop fuel scope condition.erase body.erase (post.map Expr.erase))

private theorem Block.statements_erase (b : Block) : b.erase.statements = b.statements.map Stmt.erase := by
  obtain ⟨statements, span⟩ := b
  exact Stmt.eraseList_eq statements

private theorem FunctionDecl.statements_erase (d : FunctionDecl) :
    d.erase.body.statements = d.body.statements.map Stmt.erase := by
  obtain ⟨name, params, returnType, body, span⟩ := d
  exact Block.statements_erase body

namespace BlindEvaluators

variable {fuel : Nat} (h : BlindEvaluators fuel)
include h

private theorem expr_succ (scope : ScopeId) (e : Expr) :
    Erases Value.erase (e.eval (fuel + 1) scope) (e.erase.eval (fuel + 1) scope) := by
  cases e with
  | ident id => exact (erases_lookup scope id).yields _ _
  | literal l span =>
    refine Erases.yields (erases_pure ?_) _ _
    cases l <;> rfl
  | unary op operand side span =>
    refine Erases.yields ((h.expr scope operand).bind fun v => ?_) _ _
    refine (erases_ofExcept (Value.unary_erase op.value v) _ _).bind fun new => ?_
    exact erases_storeStep scope op operand new
  | binary op left right span =>
    refine Erases.yields ((h.expr scope left).bind fun a => (h.expr scope right).bind fun b => ?_) _ _
    exact erases_ofExcept (Value.binary_erase op.value a b) _ _
  | assign target op value span =>
    refine Erases.yields ((h.expr scope value).bind fun new => ?_) _ _
    rw [Expr.span_erase]
    exact erases_assign scope target op new value.span
  | call callee arguments span =>
    rw [Expr.erase, Expr.eraseList_eq]
    refine Erases.yields ((erases_lookup scope callee).bind fun target => ?_) _ _
    refine (erases_each (h.expr scope) arguments).bind fun args => ?_
    cases target with
    | function d closure =>
      refine erases_callFunction d closure args _ _ fun frame => ?_
      rw [FunctionDecl.statements_erase]
      exact h.stmts frame d.body.statements
    | builtin name => exact erases_callBuiltin name args _ _
    | _ => exact erases_fail _ _ _
  | build name fields span =>
    rw [Expr.erase, Expr.eraseFields_eq]
    refine Erases.yields ((erases_structNamed scope name).bind fun d => ?_) _ _
    refine (erases_each (h.field scope name.name d) fields).bind fun values => erases_pure ?_
    rw [Value.erase_struct, defaultFields_erase, setFields_erase]
  | property object name span =>
    refine Erases.yields ((h.expr scope object).bind fun v => ?_) _ _
    exact erases_located (Value.readProperty_erase v name)
  | array elements size span =>
    rw [Expr.erase, Expr.eraseList_eq]
    refine Erases.yields ((erases_each (h.expr scope) elements).bind fun items => erases_pure ?_) _ _
    rw [Value.erase_array]
  | index base position span =>
    refine Erases.yields ((erases_lookup scope base).bind fun collection => ?_) _ _
    exact (h.expr scope position).bind fun p => erases_index base collection p _ _

private theorem field_succ (scope : ScopeId) (struct : String) (d : StructDecl) (f : Ident × Expr) :
    Erases Value.eraseField (Expr.evalField (fuel + 1) scope struct d f)
      (Expr.evalField (fuel + 1) scope struct d.erase (Expr.eraseField f)) := by
  obtain ⟨name, e⟩ := f
  refine (erases_settable struct d name).bind fun p => (h.expr scope e).bind fun v => ?_
  exact (erases_checked (Value.conform_erase p.type v) _ _).bind fun w => erases_pure rfl

private theorem initial_succ (scope : ScopeId) (d : VariableDecl) :
    Erases Value.erase (d.initial (fuel + 1) scope) (d.erase.initial (fuel + 1) scope) := by
  obtain ⟨name, isConstant, type, value, span⟩ := d
  cases value with
  | some e =>
    cases type with
    | some t => exact (h.expr scope e).bind fun v => erases_checked (Value.conform_erase t v) _ _
    | none => exact h.expr scope e
  | none =>
    cases type with
    | some t => exact erases_pure (Value.erase_defaultFor t).symm
    | none => exact erases_pure rfl

private theorem stmt_succ (scope : ScopeId) (st : Stmt) :
    Erases Flow.erase (st.exec (fuel + 1) scope) (st.erase.exec (fuel + 1) scope) := by
  cases st with
  | expression e span => exact (h.expr scope e).bind fun v => erases_pure rfl
  | block body => exact h.block scope body
  | declare d =>
    refine (h.initial scope d).bind fun v => ?_
    exact (erases_declareVariable scope d v).bind fun _ => erases_pure rfl
  | function d => exact (erases_declareFunction scope d).bind fun f => erases_pure rfl
  | ret value span =>
    cases value with
    | none => exact erases_pure rfl
    | some e => exact (h.expr scope e).bind fun v => erases_pure rfl
  | branch s => exact h.branch scope s
  | struct d =>
    refine (erases_change _ _ _ fun scopes => scopes.declareStruct_erase scope d).bind fun _ => ?_
    exact erases_pure rfl
  | whileLoop condition body span => exact h.loop scope condition body none
  | forLoop counter init condition post body span =>
    simp only [Stmt.erase, Stmt.exec]
    refine Erases.inScope (fun outer => ?_) scope _ _
    refine (h.expr outer init).bind fun v => (erases_declare outer counter v false).bind fun _ => ?_
    exact h.loop outer condition body (some post)
  | foreach value position iterable body span =>
    simp only [Stmt.erase, Stmt.exec, Block.statements_erase]
    refine (h.expr scope iterable).bind fun v => (erases_iterated v _ _).bind fun items => ?_
    refine erases_forEach (fun i item => Erases.inScope (fun inner => ?_) scope _ _) 0 items
    exact (erases_bindItem inner value position i item).bind fun _ => h.stmts inner body.statements
  | imports i => exact erases_pure rfl

private theorem block_succ (scope : ScopeId) (b : Block) :
    Erases Flow.erase (b.exec (fuel + 1) scope) (b.erase.exec (fuel + 1) scope) := by
  simp only [Block.exec, Block.statements_erase]
  exact Erases.inScope (fun inner => h.stmts inner b.statements) scope _ _

private theorem branch_succ (scope : ScopeId) (i : IfStmt) :
    Erases Flow.erase (i.exec (fuel + 1) scope) (i.erase.exec (fuel + 1) scope) := by
  obtain ⟨condition, consequent, alternate, span⟩ := i
  refine (h.expr scope condition).bind fun v => ?_
  rw [Value.isTruthy_erase]
  split
  · exact h.block scope consequent
  · cases alternate with
    | nothing => exact erases_pure rfl
    | elseIf next => exact h.branch scope next
    | otherwise body => exact h.block scope body

private theorem loop_succ (scope : ScopeId) (condition : Expr) (body : Block) (post : Option Expr) :
    Erases Flow.erase (Stmt.loop (fuel + 1) scope condition body post)
      (Stmt.loop (fuel + 1) scope condition.erase body.erase (post.map Expr.erase)) := by
  refine (h.expr scope condition).bind fun v => ?_
  rw [Value.isTruthy_erase]
  split
  · refine (h.block scope body).bind fun flow => ?_
    cases flow with
    | returned w => exact erases_pure rfl
    | normal _ =>
      cases post with
      | some e => exact (h.expr scope e).bind fun _ => h.loop scope condition body (some e)
      | none => exact h.loop scope condition body none
  · exact erases_pure rfl

end BlindEvaluators

/-- Evaluation takes no notice of places, by induction on the fuel. -/
private theorem blindEvaluators (fuel : Nat) : BlindEvaluators fuel := by
  induction fuel with
  | zero =>
    constructor
    · exact fun _ _ => erases_exhausted
    · exact fun _ _ _ _ => erases_exhausted
    · exact fun _ _ => erases_exhausted
    · exact fun _ _ => erases_exhausted
    · exact fun _ _ => erases_exhausted
    · exact fun _ _ => erases_exhausted
    · exact fun _ _ => erases_exhausted
    · exact fun _ _ _ _ => erases_exhausted
  | succ fuel ih =>
    constructor
    · exact ih.expr_succ
    · exact ih.field_succ
    · exact fun scope ss => erases_statements (ih.stmt scope) .null ss
    · exact ih.stmt_succ
    · exact ih.initial_succ
    · exact ih.block_succ
    · exact ih.branch_succ
    · exact ih.loop_succ

theorem Program.erases_run (fuel : Nat) (p : Program) : Erases Value.erase (p.run fuel) (p.erase.run fuel) := by
  intro s s' hs
  have hroot : s'.scopes.root = s.scopes.root := by rw [hs.scopes, Scopes.root_erase]
  have hstmts := (blindEvaluators fuel).stmts s.scopes.root p.contents s s' hs
  unfold run
  rw [hroot, show p.erase.contents = p.contents.map Stmt.erase from rfl]
  generalize Stmt.execAll fuel s.scopes.root p.contents s = o at hstmts
  generalize Stmt.execAll fuel s.scopes.root (p.contents.map Stmt.erase) s' = o' at hstmts
  cases hstmts with
  | @done flow flow' t t' hflow ht =>
    refine .done ?_ ht
    subst hflow
    cases flow <;> rfl
  | failed he ht => exact .failed he ht
  | exhausted ht => exact .exhausted ht

end BraceScript
