import BraceScript.Eval.Program

/-!
# Properties that every evaluation has

The evaluators of expressions and statements are built from few primitive steps.  `Rules` are about a pair of
properties of computations that the primitive steps have and that their combinations keep: `quiet` for computations
that declare nothing in the scope they run in, and `loud` for those that may.  If a computation that gives up for
lack of fuel is `quiet` too, they make up a `Discipline`.  By `Discipline.disciplined` every expression is then
`quiet` and every statement `loud`, unless all its declarations are made in scopes of their own (`Stmt.IsEnclosed`),
so the induction over the evaluators is made here once.
-/

namespace BraceScript

/-- A computation that finds its answer in the scopes and the built-in functions alone and leaves the session as it
is. -/
def Eval.Reads {α : Type} (x : Eval α) : Prop :=
  ∀ s : Session, (∃ a, ∀ t : Session, t.scopes = s.scopes → t.builtins = s.builtins → x t = .done a t) ∨
    ∃ e, ∀ t : Session, t.scopes = s.scopes → t.builtins = s.builtins → x t = .failed e t

namespace Eval

variable {α : Type}

theorem bind_assoc {β γ : Type} (x : Eval α) (f : α → Eval β) (g : β → Eval γ) :
    x >>= f >>= g = x >>= fun a => f a >>= g := by
  funext s
  cases h : x s with
  | done a s₁ =>
    have hf := bind_of_done h f
    rw [bind_of_done h]
    cases h' : f a s₁ with
    | done b s₂ => rw [bind_of_done (hf.trans h'), bind_of_done h']
    | failed e s₂ => rw [bind_of_failed (hf.trans h'), bind_of_failed h']
    | exhausted s₂ => rw [bind_of_exhausted (hf.trans h'), bind_of_exhausted h']
  | failed e s₁ => rw [bind_of_failed (bind_of_failed h f), bind_of_failed h]
  | exhausted s₁ => rw [bind_of_exhausted (bind_of_exhausted h f), bind_of_exhausted h]

theorem Reads.cases {x : Eval α} (h : x.Reads) (s : Session) : (∃ a, x s = .done a s) ∨ ∃ e, x s = .failed e s := by
  rcases h s with ⟨a, ha⟩ | ⟨e, he⟩
  · exact .inl ⟨a, ha s rfl rfl⟩
  · exact .inr ⟨e, he s rfl rfl⟩

theorem reads_pure (a : α) : Reads (pure a) := fun _ => .inl ⟨a, fun _ _ _ => rfl⟩

theorem reads_fail (cause : RuntimeError.Cause) (span : Span) : Reads (fail cause span : Eval α) :=
  fun _ => .inr ⟨_, fun _ _ _ => rfl⟩

theorem reads_ofExcept (span : Span) (r : Except RuntimeError.Cause α) : Reads (ofExcept span r) := by
  cases r with
  | ok a => exact reads_pure a
  | error cause => exact reads_fail cause span

theorem reads_checked (span : Span) (r : Except Mismatch α) : Reads (checked span r) := by
  cases r with
  | ok a => exact reads_pure a
  | error m => exact reads_fail _ span

theorem reads_located (r : Except RuntimeError α) : Reads (located r) := by
  cases r with
  | ok a => exact reads_pure a
  | error e => exact reads_fail _ _

theorem reads_query (name : String) (span : Span) (f : Scopes → Except ScopeError α) :
    Reads (query name span f) := by
  intro s
  cases h : f s.scopes with
  | ok a => exact .inl ⟨a, fun t ht _ => by simp only [query, ht, h]⟩
  | error e => exact .inr ⟨⟨scopeFault name e, span⟩, fun t ht _ => by simp only [query, ht, h]⟩

theorem reads_lookup (scope : ScopeId) (id : Ident) : Reads (lookup scope id) := by
  intro s
  cases h : s.scopes.get scope id.name with
  | ok v => exact .inl ⟨v, fun t ht _ => by simp only [lookup, ht, h]⟩
  | error e =>
    cases e with
    | notDeclared n =>
      by_cases hhas : s.builtins.has id.name = true
      · exact .inl ⟨.builtin id.name, fun t ht hb => by simp only [lookup, ht, h, hb, if_pos hhas]⟩
      · exact .inr ⟨⟨.undeclared n, id.span⟩, fun t ht hb => by simp only [lookup, ht, h, hb, if_neg hhas]⟩
    | _ => exact .inr ⟨⟨scopeFault id.name _, id.span⟩, fun t ht _ => by simp only [lookup, ht, h]; rfl⟩

theorem reads_structNamed (scope : ScopeId) (name : Ident) : Reads (structNamed scope name) := by
  intro s
  cases h : s.scopes.getStruct scope name.name with
  | ok d => exact .inl ⟨d, fun t ht _ => by simp only [structNamed, ht, h]⟩
  | error e =>
    cases e with
    | notDeclared n =>
      exact .inr ⟨⟨.unknownStruct name.name, name.span⟩, fun t ht _ => by simp only [structNamed, ht, h]⟩
    | _ => exact .inr ⟨⟨scopeFault name.name _, name.span⟩, fun t ht _ => by simp only [structNamed, ht, h]; rfl⟩

theorem reads_settable (struct : String) (d : StructDecl) (name : Ident) : Reads (settable struct d name) := by
  unfold settable
  split
  · exact reads_fail _ _
  · split
    · exact reads_fail _ _
    · exact reads_pure _

theorem itemAt_map {β : Type} (g : α → β) (items : List α) (position : Int) :
    itemAt (items.map g) position = (itemAt items position).map g := by
  have hitem : (if position < 0 then none else (items.map g)[position.toNat]?) =
      (if position < 0 then none else items[position.toNat]?).map g := by
    split
    · rfl
    · exact List.getElem?_map
  unfold itemAt
  rw [hitem, List.length_map]
  cases (if position < 0 then none else items[position.toNat]?) <;> rfl

theorem reads_index (base : Ident) (collection position : Value) (span : Span) :
    Reads (index base collection position span) := by
  unfold index
  split
  · split
    · exact reads_ofExcept _ _
    · exact reads_ofExcept _ _
    · exact reads_fail _ _
  · exact reads_fail _ _

theorem reads_iterated (v : Value) (span : Span) : Reads (iterated v span) := by
  unfold iterated
  split
  · exact reads_pure _
  · exact reads_pure _
  · exact reads_fail _ _

theorem reads_result (d : FunctionDecl) (span : Span) (flow : Flow) : Reads (result d span flow) := by
  unfold result
  split
  · exact reads_checked _ _
  · split
    · exact reads_pure _
    · exact reads_pure _
    · exact reads_fail _ _

end Eval

/-- The events that have no part in how scopes and calls are nested. -/
def Event.IsRemark : Event → Prop
  | .value .. | .introduced .. | .assigned .. | .declared .. => True
  | .state .. | .entered _ | .leaving .. | .called .. => False

/-- Two properties of computations in a scope that hold of the primitive steps and are kept by their combinations. -/
structure Rules (quiet loud : ⦃α : Type⦄ → ScopeId → Eval α → Prop) : Prop where
  reads : ∀ {α : Type} {scope : ScopeId} {x : Eval α}, x.Reads → quiet scope x
  record : ∀ (scope : ScopeId) {e : Event}, e.IsRemark → quiet scope (Eval.record e)
  opened : ∀ {α : Type} {scope : ScopeId} {x : Eval α}, quiet scope x → loud scope x
  bind : ∀ {α β : Type} {scope : ScopeId} {x : Eval α} {f : α → Eval β},
    quiet scope x → (∀ a, quiet scope (f a)) → quiet scope (x >>= f)
  bind_loud : ∀ {α β : Type} {scope : ScopeId} {x : Eval α} {f : α → Eval β},
    loud scope x → (∀ a, loud scope (f a)) → loud scope (x >>= f)
  assign : ∀ (scope : ScopeId) (name : Ident) (value : Value), quiet scope (Eval.replace scope name value)
  builtin : ∀ (scope : ScopeId) (name : String) (args : List Value) (span : Span),
    quiet scope (Eval.callBuiltin name args span)
  declare : ∀ (scope : ScopeId) (name : String) (span : Span) (b : Binding),
    loud scope (Eval.change name span (·.declare scope name b))
  declareStruct : ∀ (scope : ScopeId) (name : String) (span : Span) (d : StructDecl),
    loud scope (Eval.change name span (·.declareStruct scope d))
  inScope : ∀ {α : Type} {scope : ScopeId} {span : Span} {body : ScopeId → Eval α},
    (∀ id, loud id (body id)) → quiet scope (Eval.inScope scope span body)
  call : ∀ {α : Type} {scope : ScopeId} {span : Span} {body : ScopeId → Eval α}
    (d : FunctionDecl) (closure : ScopeId) (args : Nat), (∀ id, loud id (body id)) →
    quiet scope (Eval.callable d closure args span >>= fun _ => Eval.deeper (Eval.inScope closure span body))

namespace Rules

variable {quiet loud : ⦃α : Type⦄ → ScopeId → Eval α → Prop} (D : Rules quiet loud)
include D

/-! ### The steps of the evaluators -/

private theorem store (scope : ScopeId) (id : Ident) (value : Value) (span : Span) :
    quiet scope (Eval.store scope id value span) := by
  apply D.bind (D.reads (Eval.reads_query _ _ _))
  intro old
  apply D.bind (D.reads (Eval.reads_query _ _ _))
  intro constant
  cases constant with
  | true => exact D.reads (Eval.reads_fail _ _)
  | false =>
    apply D.bind (D.reads (Eval.reads_checked _ _))
    intro new
    exact D.bind (D.assign scope id new) fun _ => D.reads (Eval.reads_pure new)

theorem assignTo (scope : ScopeId) (target : Expr) (op : Located AssignOp) (new : Value) (span : Span) :
    quiet scope (Eval.assign scope target op new span) := by
  unfold Eval.assign
  split
  · split
    · exact D.store _ _ _ _
    · apply D.bind (D.reads (Eval.reads_query _ _ _))
      intro old
      apply D.bind (D.reads (Eval.reads_ofExcept _ _))
      intro combined
      exact D.store _ _ _ _
  · split
    · exact D.reads (Eval.reads_fail _ _)
    · apply D.bind (D.reads (Eval.reads_query _ _ _))
      intro object
      apply D.bind (D.reads (Eval.reads_located _))
      intro changed
      exact D.bind (D.assign _ _ _) fun _ => D.reads (Eval.reads_pure _)
  · exact D.reads (Eval.reads_fail _ _)

theorem storeStep (scope : ScopeId) (op : Located UnaryOp) (operand : Expr) (new : Value) :
    quiet scope (Eval.storeStep scope op operand new) := by
  unfold Eval.storeStep
  split
  · exact D.store _ _ _ _
  · exact D.store _ _ _ _
  · exact D.reads (Eval.reads_pure _)

theorem each {α β : Type} {scope : ScopeId} {f : α → Eval β} (h : ∀ a, quiet scope (f a)) (as : List α) :
    quiet scope (Eval.each f as) := by
  induction as with
  | nil => exact D.reads (Eval.reads_pure _)
  | cons a as ih => exact D.bind (h a) fun b => D.bind ih fun bs => D.reads (Eval.reads_pure _)

theorem statements {scope : ScopeId} {exec : Stmt → Eval Flow} (h : ∀ st, loud scope (exec st)) (last : Value)
    (ss : List Stmt) : loud scope (Eval.statements exec last ss) := by
  induction ss generalizing last with
  | nil => exact D.opened (D.reads (Eval.reads_pure _))
  | cons st ss ih =>
    apply D.bind_loud (h st)
    intro flow
    cases flow with
    | normal v => exact ih v
    | returned v => exact D.opened (D.reads (Eval.reads_pure _))

theorem forEach {scope : ScopeId} {body : UInt64 → Value → Eval Flow} (h : ∀ i v, quiet scope (body i v))
    (i : UInt64) (items : List Value) : quiet scope (Eval.forEach body i items) := by
  induction items generalizing i with
  | nil => exact D.reads (Eval.reads_pure _)
  | cons v vs ih =>
    apply D.bind (h i v)
    intro flow
    cases flow with
    | normal _ => exact ih (i + 1)
    | returned v => exact D.reads (Eval.reads_pure _)

theorem bindItem (scope : ScopeId) (value : Ident) (position : Option Ident) (i : UInt64) (v : Value) :
    loud scope (Eval.bindItem scope value position i v) := by
  apply D.bind_loud (D.declare _ _ _ _)
  intro _
  cases position with
  | none => exact D.opened (D.reads (Eval.reads_pure _))
  | some id => exact D.declare _ _ _ _

private theorem introduce (scope : ScopeId) (name : Ident) (type : Ty) (value : Value) (isConstant : Bool) :
    loud scope (Eval.introduce scope name type value isConstant) :=
  D.bind_loud (D.declare _ _ _ _) fun _ => D.opened (D.record _ trivial)

theorem declareVariable (scope : ScopeId) (d : VariableDecl) (v : Value) :
    loud scope (Eval.declareVariable scope d v) := by
  unfold Eval.declareVariable
  split
  · exact D.introduce _ _ _ _ _
  · exact D.declare _ _ _ _

theorem declareFunction (scope : ScopeId) (d : FunctionDecl) : loud scope (Eval.declareFunction scope d) := by
  apply D.bind_loud (D.declare _ _ _ _)
  intro _
  exact D.opened (D.bind (D.record _ trivial) fun _ => D.reads (Eval.reads_pure _))

private theorem yields {scope : ScopeId} {x : Eval Value} (e : Expr) (h : quiet scope x) :
    quiet scope (Eval.yields e x) :=
  D.bind h fun _ => D.bind (D.record _ trivial) fun _ => D.reads (Eval.reads_pure _)

theorem bindParams (function : String) (frame : ScopeId) (span : Span) (ps : List Param) (vs : List Value) :
    loud frame (Eval.bindParams function frame span ps vs) := by
  induction ps generalizing vs with
  | nil => exact D.opened (D.reads (Eval.reads_pure _))
  | cons p ps ih =>
    cases vs with
    | nil => exact D.opened (D.reads (Eval.reads_pure _))
    | cons v vs =>
      apply D.bind_loud (D.opened (D.reads (Eval.reads_checked _ _)))
      intro v
      exact D.bind_loud (D.introduce _ _ _ _ _) fun _ => ih vs

theorem callFunction {scope : ScopeId} {body : ScopeId → Eval Flow} (d : FunctionDecl) (closure : ScopeId)
    (args : List Value) (span : Span) (h : ∀ frame, loud frame (body frame)) :
    quiet scope (Eval.callFunction d closure args span body) := by
  have hframe : ∀ frame, loud frame (Eval.bindParams d.name.name frame span d.params args >>= fun _ => body frame) :=
    fun frame => D.bind_loud (D.bindParams _ _ _ _ _) fun _ => h frame
  have hcall : quiet scope (Eval.callable d closure args.length span >>= fun _ =>
      Eval.deeper (Eval.inScope closure span
      fun frame => Eval.bindParams d.name.name frame span d.params args >>= fun _ => body frame)) :=
    D.call d closure args.length hframe
  have hresult := D.bind hcall fun flow => D.reads (Eval.reads_result d span flow)
  rw [Eval.bind_assoc] at hresult
  exact hresult

end Rules

/-! ### The evaluators -/

/-- Rules for computations that may run out of fuel. -/
structure Discipline (quiet loud : ⦃α : Type⦄ → ScopeId → Eval α → Prop) : Prop extends Rules quiet loud where
  exhausted : ∀ {α : Type} {scope : ScopeId}, quiet scope (Eval.exhausted : Eval α)

/-- The statements whose declarations are all made in scopes of their own. -/
def Stmt.IsEnclosed : Stmt → Prop
  | .block _ | .branch _ | .whileLoop .. | .forLoop .. | .foreach .. => True
  | .expression .. | .declare _ | .function _ | .ret .. | .struct _ | .imports _ => False

/-- What a discipline says about the evaluators with the given fuel. -/
structure Disciplined (quiet loud : ⦃α : Type⦄ → ScopeId → Eval α → Prop) (fuel : Nat) : Prop where
  expr : ∀ scope (e : Expr), quiet scope (e.eval fuel scope)
  field : ∀ scope struct d f, quiet scope (Expr.evalField fuel scope struct d f)
  stmts : ∀ scope ss, loud scope (Stmt.execAll fuel scope ss)
  stmt : ∀ scope (st : Stmt), loud scope (st.exec fuel scope)
  initial : ∀ scope (d : VariableDecl), quiet scope (d.initial fuel scope)
  block : ∀ scope (b : Block), quiet scope (b.exec fuel scope)
  branch : ∀ scope (i : IfStmt), quiet scope (i.exec fuel scope)
  loop : ∀ scope condition body post, quiet scope (Stmt.loop fuel scope condition body post)
  enclosed : ∀ scope (st : Stmt), st.IsEnclosed → quiet scope (st.exec fuel scope)

namespace Discipline

variable {quiet loud : ⦃α : Type⦄ → ScopeId → Eval α → Prop} (D : Discipline quiet loud)
include D

private theorem expr_step {fuel : Nat} (ih : Disciplined quiet loud fuel) (scope : ScopeId) (e : Expr) :
    quiet scope (e.eval (fuel + 1) scope) := by
  apply D.yields
  cases e with
  | ident id => exact D.reads (Eval.reads_lookup _ _)
  | literal l span => exact D.reads (Eval.reads_pure _)
  | unary op operand side span =>
    apply D.bind (ih.expr _ _)
    intro v
    exact D.bind (D.reads (Eval.reads_ofExcept _ _)) fun new => D.storeStep _ _ _ _
  | binary op left right span =>
    apply D.bind (ih.expr _ _)
    intro a
    exact D.bind (ih.expr _ _) fun b => D.reads (Eval.reads_ofExcept _ _)
  | assign target op value span => exact D.bind (ih.expr _ _) fun new => D.assignTo _ _ _ _ _
  | call callee arguments span =>
    apply D.bind (D.reads (Eval.reads_lookup _ _))
    intro target
    apply D.bind (D.each (ih.expr scope) arguments)
    intro args
    split
    · exact D.callFunction _ _ _ _ fun frame => ih.stmts frame _
    · exact D.builtin _ _ _ _
    · exact D.reads (Eval.reads_fail _ _)
  | build name fields span =>
    apply D.bind (D.reads (Eval.reads_structNamed _ _))
    intro d
    exact D.bind (D.each (ih.field scope name.name d) fields) fun values => D.reads (Eval.reads_pure _)
  | property object name span => exact D.bind (ih.expr _ _) fun v => D.reads (Eval.reads_located _)
  | array elements size span =>
    exact D.bind (D.each (ih.expr scope) elements) fun items => D.reads (Eval.reads_pure _)
  | index base position span =>
    apply D.bind (D.reads (Eval.reads_lookup _ _))
    intro collection
    exact D.bind (ih.expr _ _) fun p => D.reads (Eval.reads_index _ _ _ _)

private theorem enclosed_step {fuel : Nat} (ih : Disciplined quiet loud fuel) (scope : ScopeId) (st : Stmt)
    (hst : st.IsEnclosed) : quiet scope (st.exec (fuel + 1) scope) := by
  cases st with
  | block body => exact ih.block _ _
  | branch s => exact ih.branch _ _
  | whileLoop condition body span => exact ih.loop _ _ _ _
  | forLoop counter init condition post body span =>
    rw [Stmt.exec]
    apply D.inScope
    intro outer
    apply D.bind_loud (D.opened (ih.expr _ _))
    intro v
    exact D.bind_loud (D.declare _ _ _ _) fun _ => D.opened (ih.loop _ _ _ _)
  | foreach value position iterable body span =>
    apply D.bind (ih.expr _ _)
    intro v
    apply D.bind (D.reads (Eval.reads_iterated _ _))
    intro items
    apply D.forEach
    intro i item
    apply D.inScope
    intro inner
    exact D.bind_loud (D.bindItem _ _ _ _ _) fun _ => ih.stmts _ _
  | expression | declare | function | ret | struct | imports => exact hst.elim

private theorem stmt_step {fuel : Nat} (ih : Disciplined quiet loud fuel) (scope : ScopeId) (st : Stmt) :
    loud scope (st.exec (fuel + 1) scope) := by
  cases st with
  | expression e span => exact D.opened (D.bind (ih.expr _ _) fun v => D.reads (Eval.reads_pure _))
  | declare d =>
    apply D.bind_loud (D.opened (ih.initial _ _))
    intro v
    exact D.bind_loud (D.declareVariable _ _ _) fun _ => D.opened (D.reads (Eval.reads_pure _))
  | function d => exact D.bind_loud (D.declareFunction _ _) fun _ => D.opened (D.reads (Eval.reads_pure _))
  | ret value span =>
    cases value with
    | none => exact D.opened (D.reads (Eval.reads_pure _))
    | some e => exact D.opened (D.bind (ih.expr _ _) fun v => D.reads (Eval.reads_pure _))
  | struct d => exact D.bind_loud (D.declareStruct _ _ _ _) fun _ => D.opened (D.reads (Eval.reads_pure _))
  | imports i => exact D.opened (D.reads (Eval.reads_pure _))
  | block | branch | whileLoop | forLoop | foreach => exact D.opened (D.enclosed_step ih scope _ trivial)

private theorem initial_step {fuel : Nat} (ih : Disciplined quiet loud fuel) (scope : ScopeId) (d : VariableDecl) :
    quiet scope (d.initial (fuel + 1) scope) := by
  unfold VariableDecl.initial
  split
  · exact D.bind (ih.expr _ _) fun v => D.reads (Eval.reads_checked _ _)
  · exact ih.expr _ _
  · exact D.reads (Eval.reads_pure _)
  · exact D.reads (Eval.reads_pure _)

private theorem branch_step {fuel : Nat} (ih : Disciplined quiet loud fuel) (scope : ScopeId) (i : IfStmt) :
    quiet scope (i.exec (fuel + 1) scope) := by
  apply D.bind (ih.expr _ _)
  intro v
  split
  · exact ih.block _ _
  · split
    · exact D.reads (Eval.reads_pure _)
    · exact ih.branch _ _
    · exact ih.block _ _

private theorem loop_step {fuel : Nat} (ih : Disciplined quiet loud fuel) (scope : ScopeId) (condition : Expr)
    (body : Block) (post : Option Expr) : quiet scope (Stmt.loop (fuel + 1) scope condition body post) := by
  apply D.bind (ih.expr _ _)
  intro v
  split
  · apply D.bind (ih.block _ _)
    intro flow
    cases flow with
    | returned v => exact D.reads (Eval.reads_pure _)
    | normal _ =>
      cases post with
      | some e => exact D.bind (ih.expr _ _) fun _ => ih.loop _ _ _ _
      | none => exact ih.loop _ _ _ _
  · exact D.reads (Eval.reads_pure _)

/-- Every evaluation keeps to a discipline, by induction on the fuel. -/
theorem disciplined (fuel : Nat) : Disciplined quiet loud fuel := by
  induction fuel with
  | zero =>
    constructor
    · exact fun _ _ => D.exhausted
    · exact fun _ _ _ _ => D.exhausted
    · exact fun _ _ => D.opened D.exhausted
    · exact fun _ _ => D.opened D.exhausted
    · exact fun _ _ => D.exhausted
    · exact fun _ _ => D.exhausted
    · exact fun _ _ => D.exhausted
    · exact fun _ _ _ _ => D.exhausted
    · exact fun _ _ _ => D.exhausted
  | succ fuel ih =>
    constructor
    · exact D.expr_step ih
    · rintro scope struct d ⟨name, e⟩
      apply D.bind (D.reads (Eval.reads_settable _ _ _))
      intro p
      apply D.bind (ih.expr _ _)
      intro v
      exact D.bind (D.reads (Eval.reads_checked _ _)) fun v => D.reads (Eval.reads_pure _)
    · exact fun scope ss => D.statements (ih.stmt scope) _ ss
    · exact D.stmt_step ih
    · exact D.initial_step ih
    · exact fun scope b => D.inScope fun inner => ih.stmts inner _
    · exact D.branch_step ih
    · exact D.loop_step ih
    · exact D.enclosed_step ih

end Discipline

/-- A run goes through the statements of the program in the root scope. -/
theorem Program.run_eq_bind (p : Program) (fuel : Nat) (s : Session) :
    p.run fuel s = (Stmt.execAll fuel s.scopes.root p.contents >>= fun flow => pure flow.value : Eval Value) s := by
  unfold Program.run
  cases h : Stmt.execAll fuel s.scopes.root p.contents s with
  | done flow t => rw [Eval.bind_of_done h, Eval.pure_apply]
  | failed e t => rw [Eval.bind_of_failed h]
  | exhausted t => rw [Eval.bind_of_exhausted h]

end BraceScript
