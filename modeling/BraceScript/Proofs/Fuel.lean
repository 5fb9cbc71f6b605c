import BraceScript.Proofs.Evaluation

/-!
# More fuel changes no answer

An evaluation that ends, with a result or with an error, ends in the same way with more fuel (`Stmt.execAll_of_le`).
`Eval.Within x y` says that `y` does what `x` does unless `x` gives up; the evaluators with one more unit of fuel are
built from the same steps, so the induction goes over their combinations.
-/

namespace BraceScript

namespace Eval

variable {α β : Type} {x y : Eval α}

/-- The computation `y` ends as `x` does, unless `x` gives up. -/
def Within (x y : Eval α) : Prop := ∀ s, (∃ t, x s = .exhausted t) ∨ y s = x s

theorem Within.refl (x : Eval α) : x.Within x := fun _ => .inr rfl

theorem Within.of_done {s t : Session} {a : α} (h : x.Within y) (hx : x s = .done a t) : y s = .done a t := by
  rcases h s with ⟨u, hu⟩ | heq
  · cases hu.symm.trans hx
  · exact heq.trans hx

theorem Within.of_failed {s t : Session} {e : RuntimeError} (h : x.Within y) (hx : x s = .failed e t) :
    y s = .failed e t := by
  rcases h s with ⟨u, hu⟩ | heq
  · cases hu.symm.trans hx
  · exact heq.trans hx

theorem within_of_exhausted (y : Eval α) : (exhausted : Eval α).Within y := fun s => .inl ⟨s, rfl⟩

theorem Within.bind {f g : α → Eval β} (h : x.Within y) (hf : ∀ a, (f a).Within (g a)) :
    (x >>= f).Within (y >>= g) := by
  intro s
  rcases h s with ⟨t, ht⟩ | hy
  · exact .inl ⟨t, bind_of_exhausted ht f⟩
  · cases hx : x s with
    | done a t =>
      rw [hx] at hy
      rw [bind_of_done hx, bind_of_done hy]
      exact hf a t
    | failed e t =>
      rw [hx] at hy
      rw [bind_of_failed hx, bind_of_failed hy]
      exact .inr rfl
    | exhausted t => exact .inl ⟨t, bind_of_exhausted hx f⟩

/-- The computations differ only in what they do first. -/
theorem Within.andThen (h : x.Within y) (f : α → Eval β) : (x >>= f).Within (y >>= f) := h.bind fun a => .refl (f a)

/-- The computations differ only in what they do after `x`. -/
theorem within_after (x : Eval α) {f g : α → Eval β} (hf : ∀ a, (f a).Within (g a)) : (x >>= f).Within (x >>= g) :=
  (Within.refl x).bind hf

theorem within_inScope {body body' : ScopeId → Eval α} (h : ∀ id, (body id).Within (body' id)) (parent : ScopeId)
    (span : Span) : (inScope parent span body).Within (inScope parent span body') := by
  intro s
  simp only [inScope]
  rcases h (s.scopes.push parent).2
      ((s.note (.entered (s.scopes.push parent).2)).moveTo (s.scopes.push parent).1 s.depth)
    with ⟨t, ht⟩ | heq
  · rw [ht]
    exact .inl ⟨t, rfl⟩
  · rw [heq]
    exact .inr rfl

private theorem within_deeper {body body' : Eval α} (h : body.Within body') :
    (deeper body).Within (deeper body') := by
  intro s
  simp only [deeper]
  rcases h (s.moveTo s.scopes (s.depth + 1)) with ⟨t, ht⟩ | heq
  · rw [ht]
    exact .inl ⟨t, rfl⟩
  · rw [heq]
    exact .inr rfl

private theorem within_each {f g : α → Eval β} (h : ∀ a, (f a).Within (g a)) (as : List α) :
    (each f as).Within (each g as) := by
  induction as with
  | nil => exact .refl _
  | cons a as ih => exact (h a).bind fun b => ih.andThen _

private theorem within_statements {exec exec' : Stmt → Eval Flow} (h : ∀ st, (exec st).Within (exec' st))
    (last : Value) (ss : List Stmt) : (statements exec last ss).Within (statements exec' last ss) := by
  induction ss generalizing last with
  | nil => exact .refl _
  | cons st ss ih =>
    refine (h st).bind fun flow => ?_
    cases flow with
    | normal v => exact ih v
    | returned v => exact .refl _

private theorem within_forEach {body body' : UInt64 → Value → Eval Flow} (h : ∀ i v, (body i v).Within (body' i v))
    (i : UInt64) (items : List Value) : (forEach body i items).Within (forEach body' i items) := by
  induction items generalizing i with
  | nil => exact .refl _
  | cons v vs ih =>
    refine (h i v).bind fun flow => ?_
    cases flow with
    | normal _ => exact ih (i + 1)
    | returned v => exact .refl _

private theorem within_callFunction (d : FunctionDecl) (closure : ScopeId) (args : List Value) (span : Span)
    {body body' : ScopeId → Eval Flow} (h : ∀ frame, (body frame).Within (body' frame)) :
    (callFunction d closure args span body).Within (callFunction d closure args span body') :=
  within_after _ fun _ =>
    (within_deeper (within_inScope (fun frame => within_after _ fun _ => h frame) _ _)).andThen _

end Eval

open Eval

/-- What more fuel means to the evaluators. -/
structure Refuelled (fuel fuel' : Nat) : Prop where
  expr : ∀ scope (e : Expr), (e.eval fuel scope).Within (e.eval fuel' scope)
  field : ∀ scope struct d f, (Expr.evalField fuel scope struct d f).Within (Expr.evalField fuel' scope struct d f)
  stmts : ∀ scope ss, (Stmt.execAll fuel scope ss).Within (Stmt.execAll fuel' scope ss)
  stmt : ∀ scope (st : Stmt), (st.exec fuel scope).Within (st.exec fuel' scope)
  initial : ∀ scope (d : VariableDecl), (d.initial fuel scope).Within (d.initial fuel' scope)
  block : ∀ scope (b : Block), (b.exec fuel scope).Within (b.exec fuel' scope)
  branch : ∀ scope (i : IfStmt), (i.exec fuel scope).Within (i.exec fuel' scope)
  loop : ∀ scope condition body post,
    (Stmt.loop fuel scope condition body post).Within (Stmt.loop fuel' scope condition body post)

namespace Refuelled

variable {fuel fuel' : Nat}

private theorem expr_step (ih : Refuelled fuel fuel') (scope : ScopeId) (e : Expr) :
    (e.eval (fuel + 1) scope).Within (e.eval (fuel' + 1) scope) := by
  refine Within.andThen ?_ _
  cases e with
  | ident id => exact .refl _
  | literal l span => exact .refl _
  | unary op operand side span => exact (ih.expr _ _).andThen _
  | binary op left right span => exact (ih.expr _ _).bind fun a => (ih.expr _ _).andThen _
  | assign target op value span => exact (ih.expr _ _).andThen _
  | call callee arguments span =>
    refine within_after _ fun target => (within_each (ih.expr scope) arguments).bind fun args => ?_
    cases target with
    | function d closure => exact within_callFunction d closure args span fun frame => ih.stmts frame _
    | _ => exact .refl _
  | build name fields span =>
    exact within_after _ fun d => (within_each (ih.field scope name.name d) fields).andThen _
  | property object name span => exact (ih.expr _ _).andThen _
  | array elements size span => exact (within_each (ih.expr scope) elements).andThen _
  | index base position span => exact within_after _ fun collection => (ih.expr _ _).andThen _

private theorem stmt_step (ih : Refuelled fuel fuel') (scope : ScopeId) (st : Stmt) :
    (st.exec (fuel + 1) scope).Within (st.exec (fuel' + 1) scope) := by
  cases st with
  | expression e span => exact (ih.expr _ _).andThen _
  | block body => exact ih.block _ _
  | declare d => exact (ih.initial _ _).andThen _
  | function d => exact .refl _
  | ret value span =>
    cases value with
    | none => exact .refl _
    | some e => exact (ih.expr _ _).andThen _
  | branch s => exact ih.branch _ _
  | struct d => exact .refl _
  | whileLoop condition body span => exact ih.loop _ _ _ _
  | forLoop counter init condition post body span =>
    rw [Stmt.exec, Stmt.exec]
    refine within_inScope (fun outer => ?_) scope span
    exact (ih.expr _ _).bind fun v => within_after _ fun _ => ih.loop _ _ _ _
  | foreach value position iterable body span =>
    refine (ih.expr _ _).bind fun v => within_after _ fun items => within_forEach (fun i item => ?_) 0 items
    exact within_inScope (fun inner => within_after _ fun _ => ih.stmts _ _) _ _
  | imports i => exact .refl _

private theorem initial_step (ih : Refuelled fuel fuel') (scope : ScopeId) (d : VariableDecl) :
    (d.initial (fuel + 1) scope).Within (d.initial (fuel' + 1) scope) := by
  unfold VariableDecl.initial
  split
  · exact (ih.expr _ _).andThen _
  · exact ih.expr _ _
  · exact .refl _
  · exact .refl _

private theorem branch_step (ih : Refuelled fuel fuel') (scope : ScopeId) (i : IfStmt) :
    (i.exec (fuel + 1) scope).Within (i.exec (fuel' + 1) scope) := by
  refine (ih.expr _ _).bind fun v => ?_
  split
  · exact ih.block _ _
  · split
    · exact .refl _
    · exact ih.branch _ _
    · exact ih.block _ _

private theorem loop_step (ih : Refuelled fuel fuel') (scope : ScopeId) (condition : Expr) (body : Block)
    (post : Option Expr) :
    (Stmt.loop (fuel + 1) scope condition body post).Within (Stmt.loop (fuel' + 1) scope condition body post) := by
  refine (ih.expr _ _).bind fun v => ?_
  split
  · refine (ih.block _ _).bind fun flow => ?_
    cases flow with
    | returned v => exact .refl _
    | normal _ =>
      cases post with
      | some e => exact (ih.expr _ _).bind fun _ => ih.loop _ _ _ _
      | none => exact ih.loop _ _ _ _
  · exact .refl _

end Refuelled

/-- By induction on the smaller amount of fuel. -/
theorem refuelled {fuel fuel' : Nat} (h : fuel ≤ fuel') : Refuelled fuel fuel' := by
  induction fuel generalizing fuel' with
  | zero => constructor <;> intros <;> exact within_of_exhausted _
  | succ fuel ih =>
    obtain ⟨fuel', rfl⟩ : ∃ n, fuel' = n + 1 := ⟨fuel' - 1, by omega⟩
    have ih := ih (Nat.le_of_succ_le_succ h)
    constructor
    · exact ih.expr_step
    · rintro scope struct d ⟨name, e⟩
      exact within_after _ fun p => (ih.expr _ _).andThen _
    · exact fun scope ss => within_statements (ih.stmt scope) _ ss
    · exact ih.stmt_step
    · exact ih.initial_step
    · exact fun scope b => within_inScope (fun inner => ih.stmts inner _) _ _
    · exact ih.branch_step
    · exact ih.loop_step

/-- Statements that end do so in the same way with more fuel. -/
theorem Stmt.execAll_of_le {fuel fuel' : Nat} (hle : fuel ≤ fuel') {scope : ScopeId} {ss : List Stmt} {s t : Session}
    {flow : Flow} (h : Stmt.execAll fuel scope ss s = .done flow t) : Stmt.execAll fuel' scope ss s = .done flow t :=
  ((refuelled hle).stmts scope ss).of_done h

/-- With whatever fuel an expression yields a value, it is the same. -/
theorem Expr.eval_unique {e : Expr} {scope : ScopeId} {s t t' : Session} {fuel fuel' : Nat} {v v' : Value}
    (h : e.eval fuel scope s = .done v t) (h' : e.eval fuel' scope s = .done v' t') : v = v' ∧ t = t' := by
  have hmore := ((refuelled (Nat.le_max_left fuel fuel')).expr scope e).of_done h
  have hmore' := ((refuelled (Nat.le_max_right fuel fuel')).expr scope e).of_done h'
  cases hmore.symm.trans hmore'
  exact ⟨rfl, rfl⟩

end BraceScript
