import BraceScript.Proofs.Assignment
import BraceScript.Proofs.Fuel

/-!
# Compound assignments

`target op= value` means `target = target op value`, as long as the evaluation of `value` does not touch the variable
at the root of the target.  The two go different ways: the first evaluates `value` before it looks at the old value,
and reads that where it is about to store the new one, while the second evaluates the target like any other
expression, and before `value`.  On a variable they end alike also if they fail; on a property both fail or both
succeed (`Session.compound_assignment_expands`).
-/

namespace BraceScript

/-- The assignment `target op= value`. -/
def Expr.update (target : Expr) (op : Located ArithOp) (value : Expr) (span : Span) : Expr :=
  .assign target ⟨.update op.value, op.span⟩ value span

/-- The assignment `target = target op value`, with the places of `=` and of the right-hand side. -/
def Expr.updateInFull (target : Expr) (op : Located ArithOp) (value : Expr) (equals right span : Span) : Expr :=
  .assign target ⟨.set, equals⟩ (.binary ⟨.arith op.value, op.span⟩ target value right) span

/-! ### Assigning a combined value through a path -/

namespace Value

variable {f : ArithOp} {new object old inner stored : Value} {span : Span} {path rest : List Ident} {name : Ident}
  {d : StructDecl} {fields : List (String × Value)} {q : PropertyDecl} {op : Located AssignOp}

private theorem setProperty_of_last (hq : d.property? name.name = some q) (hold : field? name.name fields = some old)
    (hwritable : q.isReadonly = false) (hnew : newProperty q.type op old new span = .ok stored) :
    setProperty op new span [name] (struct d fields) =
      .ok (struct d (setField name.name stored fields), stored) := by
  simp only [setProperty, hq, hold, hwritable, Bool.false_eq_true, ↓reduceIte, hnew]
  rfl

private theorem setProperty_of_inside (hq : d.property? name.name = some q)
    (hold : field? name.name fields = some old) (hset : setProperty op new span rest old = .ok (inner, stored)) :
    setProperty op new span (name :: rest) (struct d fields) =
      .ok (struct d (setField name.name inner fields), stored) := by
  cases rest with
  | nil => exact absurd hset not_setProperty_nil
  | cons next more =>
    rw [setProperty]
    simp only [hq, hold, hset]
    rfl

private theorem newProperty_update_eq_ok_iff {t : Ty} (place place' span span' : Span) :
    newProperty t ⟨.update f, place⟩ old new span = .ok stored ↔
      ∃ combined, binary (.arith f) old new = .ok combined ∧
        newProperty t ⟨.set, place'⟩ old combined span' = .ok stored := by
  cases hc : binary (.arith f) old new with
  | error cause => simp [newProperty, AssignOp.apply, Located.reported, hc, bind, Except.bind]
  | ok combined =>
    simp only [newProperty, AssignOp.apply, Located.reported, hc, bind, Except.bind,
      Except.ok.injEq, exists_eq_left']
    cases combined.conform t <;> simp

/-- To combine the value at the end of a path with a new one is to assign what the two combine to.  By induction on
the path. -/
private theorem setProperty_update_eq_ok_iff {r : Value × Value} (place place' span span' : Span) :
    setProperty ⟨.update f, place⟩ new span path object = .ok r ↔
      ∃ old combined, object.follow? (path.map (·.name)) = some old ∧ binary (.arith f) old new = .ok combined ∧
        setProperty ⟨.set, place'⟩ combined span' path object = .ok r := by
  obtain ⟨changed, stored⟩ := r
  induction path generalizing object changed with
  | nil =>
    refine ⟨fun h => absurd h not_setProperty_nil, ?_⟩
    rintro ⟨_, _, -, -, h⟩
    exact absurd h not_setProperty_nil
  | cons name rest ih =>
    constructor
    · intro h
      obtain ⟨_, _, d, fields, q, old, inner, ⟨⟩, rfl, hq, hold, rfl, ⟨rfl, hwritable, hnew, rfl⟩ | hset⟩ :=
        setProperty_eq_ok h
      · obtain ⟨combined, hcombined, hnew⟩ := (newProperty_update_eq_ok_iff place place' span span').1 hnew
        exact ⟨old, combined, follow?_cons hold _, hcombined, setProperty_of_last hq hold hwritable hnew⟩
      · obtain ⟨last, combined, hlast, hcombined, hset⟩ := (ih _).1 hset
        exact ⟨last, combined, (follow?_cons hold _).trans hlast, hcombined, setProperty_of_inside hq hold hset⟩
    · rintro ⟨last, combined, hlast, hcombined, h⟩
      obtain ⟨_, _, d, fields, q, old, inner, ⟨⟩, rfl, hq, hold, rfl, ⟨rfl, hwritable, hnew, rfl⟩ | hset⟩ :=
        setProperty_eq_ok h
      · obtain rfl : old = last := Option.some.inj ((follow?_cons hold _).symm.trans hlast)
        have hnew := (newProperty_update_eq_ok_iff place place' span span').2 ⟨combined, hcombined, hnew⟩
        exact setProperty_of_last hq hold hwritable hnew
      · rw [List.map_cons, follow?_cons hold] at hlast
        exact setProperty_of_inside hq hold ((ih _).2 ⟨last, combined, hlast, hcombined, hset⟩)

end Value

/-! ### Storing a combined value -/

private theorem Expr.path_ne_nil {object : Expr} {name root : Ident} {place : Span} {path : List Ident}
    (hpath : (Expr.property object name place).path? = some (root, path)) : path ≠ [] := by
  rw [Expr.path?, Option.map_eq_some_iff] at hpath
  obtain ⟨_, -, heq⟩ := hpath
  cases heq
  simp

namespace Eval

variable {s t : Session} {scope owner : ScopeId} {b : Binding} {target : Expr} {root : Ident} {path : List Ident}
  {f : ArithOp} {old new combined : Value}

/-- An assignment to a path whose root is declared. -/
private theorem assign_path {object : Expr} {name : Ident} {place : Span}
    (hpath : (Expr.property object name place).path? = some (root, path))
    (hb : s.scopes.lookup scope root.name = .ok (owner, b)) (op : Located AssignOp) (new : Value) (span : Span) :
    assign scope (.property object name place) op new span s =
      (located (Value.setProperty op new span path b.value) >>= fun r =>
        replace scope root r.1 >>= fun _ => pure r.2) s := by
  simp only [assign, hpath]
  rw [bind_of_done (valueOf_of_ok hb span)]

/-- An assignment to a property fails if there is no old value that can be combined with the new one. -/
private theorem assign_property_fails {object : Expr} {name : Ident} {whole : Span}
    (hpath : (Expr.property object name whole).path? = some (root, path))
    (hb : s.scopes.lookup scope root.name = .ok (owner, b))
    (hnot : ∀ old combined, b.value.follow? (path.map (·.name)) = some old →
      Value.binary (.arith f) old new ≠ .ok combined)
    (place span : Span) :
    ∃ e, assign scope (.property object name whole) ⟨.update f, place⟩ new span s = .failed e s := by
  rw [assign_path hpath hb]
  cases hset : Value.setProperty ⟨.update f, place⟩ new span path b.value with
  | error e => exact ⟨e, rfl⟩
  | ok r =>
    obtain ⟨old, combined, hold, hcombined, -⟩ := (Value.setProperty_update_eq_ok_iff place place span span).1 hset
    exact absurd hcombined (hnot old combined hold)

/-- If the old value and the new one cannot be combined, the assignment fails. -/
private theorem assign_of_combine_error (hpath : target.path? = some (root, path))
    (hb : s.scopes.lookup scope root.name = .ok (owner, b)) (hold : b.value.follow? (path.map (·.name)) = some old)
    {cause : RuntimeError.Cause} (herror : Value.binary (.arith f) old new = .error cause) (place span : Span) :
    ∃ e, assign scope target ⟨.update f, place⟩ new span s = .failed e s ∧ (path = [] → e.cause = cause) := by
  cases target with
  | ident id =>
    cases hpath
    cases hold
    refine ⟨⟨cause, place⟩, ?_, fun _ => rfl⟩
    simp only [assign]
    rw [bind_of_done (valueOf_of_ok hb span), herror]
    rfl
  | property object name whole =>
    have hnot : ∀ old' combined, b.value.follow? (path.map (·.name)) = some old' →
        Value.binary (.arith f) old' new ≠ .ok combined := by
      intro old' combined hold' hcombined
      obtain rfl : old = old' := Option.some.inj (hold.symm.trans hold')
      cases herror.symm.trans hcombined
    obtain ⟨e, he⟩ := assign_property_fails hpath hb hnot place span
    exact ⟨e, he, fun hnil => absurd hnil (Expr.path_ne_nil hpath)⟩
  | _ => cases hpath

private theorem assign_fails_of_nowhere (hpath : target.path? = some (root, path))
    (hb : s.scopes.lookup scope root.name = .ok (owner, b)) (hnone : b.value.follow? (path.map (·.name)) = none)
    (new : Value) (f : ArithOp) (place span : Span) :
    ∃ e, assign scope target ⟨.update f, place⟩ new span s = .failed e s := by
  cases target with
  | ident id =>
    cases hpath
    cases hnone
  | property object name whole => exact assign_property_fails hpath hb (by simp [hnone]) place span
  | _ => cases hpath

/-- Otherwise it ends like the assignment of what they combine to, or both fail, and then on a property. -/
private theorem assign_of_combine (hpath : target.path? = some (root, path)) (hst : s.SameState t)
    (hb : s.scopes.lookup scope root.name = .ok (owner, b)) (hold : b.value.follow? (path.map (·.name)) = some old)
    (hcombined : Value.binary (.arith f) old new = .ok combined) (place place' span span' : Span) :
    (assign scope target ⟨.update f, place⟩ new span s).Agrees
      (assign scope target ⟨.set, place'⟩ combined span' t) ∨
      path ≠ [] ∧ (∃ e, assign scope target ⟨.update f, place⟩ new span s = .failed e s) ∧
        ∃ e, assign scope target ⟨.set, place'⟩ combined span' t = .failed e t := by
  have hb' : t.scopes.lookup scope root.name = .ok (owner, b) := by rw [hst.scopes, hb]
  cases target with
  | ident id =>
    cases hpath
    cases hold
    have hstore : assign scope (.ident root) ⟨.update f, place⟩ new span s = store scope root combined span s := by
      simp only [assign]
      rw [bind_of_done (valueOf_of_ok hb span), hcombined]
      rfl
    rw [hstore]
    exact .inl (agrees_store scope root combined span span' s t hst)
  | property object name whole =>
    rw [assign_path hpath hb, assign_path hpath hb']
    have hput : ∀ r : Except RuntimeError (Value × Value),
        Agrees (located r >>= fun r => replace scope root r.1 >>= fun _ => pure r.2)
          (located r >>= fun r => replace scope root r.1 >>= fun _ => pure r.2) :=
      fun r => (reads_located r).agrees.bind fun _ => (agrees_replace _ _ _).bind fun _ => (reads_pure _).agrees
    cases hupdate : Value.setProperty ⟨.update f, place⟩ new span path b.value with
    | ok r =>
      obtain ⟨old', combined', hold', hcombined', hset⟩ :=
        (Value.setProperty_update_eq_ok_iff place place' span span').1 hupdate
      obtain rfl : old = old' := Option.some.inj (hold.symm.trans hold')
      obtain rfl : combined = combined' := Except.ok.inj (hcombined.symm.trans hcombined')
      rw [hset]
      exact .inl (hput (.ok r) s t hst)
    | error e =>
      cases hset : Value.setProperty ⟨.set, place'⟩ combined span' path b.value with
      | ok r =>
        have hok := (Value.setProperty_update_eq_ok_iff place place' span span').2
          ⟨old, combined, hold, hcombined, hset⟩
        cases hupdate.symm.trans hok
      | error e' => exact .inr ⟨Expr.path_ne_nil hpath, ⟨e, rfl⟩, e', rfl⟩
  | _ => cases hpath

end Eval

/-! ### The two evaluations -/

namespace Eval

private theorem agrees_yields {x y : Eval Value} {s t : Session} (h : (x s).Agrees (y t)) (e e' : Expr) :
    (yields e x s).Agrees (yields e' y t) := by
  generalize hx : x s = ox at h
  generalize hy : y t = oy at h
  cases h with
  | done state =>
    rw [yields_of_done e hx, yields_of_done e' hy]
    exact .done (state.note _ _)
  | failed cause state =>
    rw [yields_of_failed e hx, yields_of_failed e' hy]
    exact .failed cause state
  | exhausted =>
    unfold yields
    rw [bind_of_exhausted hx, bind_of_exhausted hy]
    exact .exhausted _ _

end Eval

namespace Expr

variable {s s₁ s₂ : Session} {scope : ScopeId} {fuel : Nat}

private theorem eval_binary_of_done {left right : Expr} {a b : Value} (ha : left.eval fuel scope s = .done a s₁)
    (hb : right.eval fuel scope s₁ = .done b s₂) (op : Located BinaryOp) (span : Span) :
    (binary op left right span).eval (fuel + 1) scope s =
      Eval.yields (.binary op left right span) (Eval.ofExcept op.span (Value.binary op.value a b)) s₂ := by
  rw [eval, Eval.yields, Eval.bind_assoc, Eval.bind_of_done ha, Eval.bind_assoc, Eval.bind_of_done hb]
  rfl

variable {target value : Expr} {root : Ident} {path : List Ident} {owner : ScopeId} {b : Binding}

private theorem eval_assign_of_failed {op : Located AssignOp} {span : Span} {e : RuntimeError}
    (h : value.eval fuel scope s = .failed e s₁) :
    (assign target op value span).eval (fuel + 1) scope s = .failed e s₁ :=
  Eval.yields_of_failed _ (Eval.bind_of_failed h _)

private theorem eval_assign_of_exhausted {op : Located AssignOp} {span : Span}
    (h : value.eval fuel scope s = .exhausted s₁) :
    (assign target op value span).eval (fuel + 1) scope s = .exhausted s₁ :=
  Eval.bind_of_exhausted (Eval.bind_of_exhausted h _) _

/-- The two ways to assign once the old value and the new one are known. -/
private theorem update_agrees_of_done (hpath : target.path? = some (root, path)) {t₀ : Session} {old new : Value}
    (hstate : s₁.SameState s₂) (hb : s₁.scopes.lookup scope root.name = .ok (owner, b))
    (hold : b.value.follow? (path.map (·.name)) = some old) (htarget : target.eval fuel scope s = .done old t₀)
    (hnew : value.eval fuel scope s = .done new s₁) (hnew' : value.eval fuel scope t₀ = .done new s₂)
    (op : Located ArithOp) (span equals right span' : Span) :
    ((target.update op value span).eval (fuel + 1) scope s).Agrees
        ((target.updateInFull op value equals right span').eval (fuel + 2) scope s) ∨
      path ≠ [] ∧ (∃ e t, (target.update op value span).eval (fuel + 1) scope s = .failed e t) ∧
        ∃ e t, (target.updateInFull op value equals right span').eval (fuel + 2) scope s = .failed e t := by
  have hright := eval_binary_of_done htarget hnew' ⟨.arith op.value, op.span⟩ right
  rw [update, updateInFull, eval_assign_of_done hnew]
  cases hcombined : Value.binary (.arith op.value) old new with
  | error cause =>
    obtain ⟨e, hfails, hcause⟩ := Eval.assign_of_combine_error hpath hb hold hcombined op.span value.span
    rw [hcombined] at hright
    rw [Eval.yields_of_failed _ hfails, eval_assign_of_failed hright]
    by_cases hnil : path = []
    · exact .inl (.failed (hcause hnil).symm hstate)
    · exact .inr ⟨hnil, ⟨e, _, rfl⟩, _, _, rfl⟩
  | ok combined =>
    rw [hcombined] at hright
    rw [eval_assign_of_done hright]
    have hnoted := hstate.note_right (.value (.binary ⟨.arith op.value, op.span⟩ target value right) combined)
    rcases Eval.assign_of_combine hpath hnoted hb hold hcombined op.span equals value.span right with
      hagrees | ⟨hnil, ⟨e, hfails⟩, e', hfails'⟩
    · exact .inl (Eval.agrees_yields hagrees _ _)
    · exact .inr ⟨hnil, ⟨e, _, Eval.yields_of_failed _ hfails⟩, e', _, Eval.yields_of_failed _ hfails'⟩

/-- The two ways to assign, with fuel to follow the path. -/
private theorem update_agrees (hpath : target.path? = some (root, path))
    (hb : s.scopes.lookup scope root.name = .ok (owner, b))
    (hkeeps : ∀ fuel v s₁, value.eval fuel scope s = .done v s₁ → s₁.scopes.lookup scope root.name = .ok (owner, b))
    (op : Located ArithOp) (span equals right span' : Span) (hfuel : path.length < fuel) :
    ((target.update op value span).eval (fuel + 1) scope s).Agrees
        ((target.updateInFull op value equals right span').eval (fuel + 2) scope s) ∨
      path ≠ [] ∧ (∀ v t, (target.update op value span).eval (fuel + 1) scope s ≠ .done v t) ∧
        ∀ v t, (target.updateInFull op value equals right span').eval (fuel + 2) scope s ≠ .done v t := by
  obtain ⟨t₀, hstate, ⟨old, hold, htarget⟩ | ⟨hnone, e, htarget⟩⟩ := eval_path_cases hpath hb hfuel
  · have hvalue := (Eval.oblivious_discipline.disciplined fuel).expr scope value s t₀ hstate
    generalize hx : value.eval fuel scope s = ox at hvalue
    generalize hy : value.eval fuel scope t₀ = oy at hvalue
    cases hvalue with
    | done hstate' =>
      rcases update_agrees_of_done hpath hstate' (hkeeps _ _ _ hx) hold htarget hx hy op span equals right span' with
        hagrees | ⟨hnil, ⟨e, u, hfails⟩, e', u', hfails'⟩
      · exact .inl hagrees
      · exact .inr ⟨hnil, by simp [hfails], by simp [hfails']⟩
    | failed cause hstate' =>
      have hright : (binary ⟨.arith op.value, op.span⟩ target value right).eval (fuel + 1) scope s = .failed _ _ :=
        Eval.yields_of_failed _ ((Eval.bind_of_done htarget _).trans (Eval.bind_of_failed hy _))
      rw [update, updateInFull, eval_assign_of_failed hx, eval_assign_of_failed hright]
      exact .inl (.failed cause hstate')
    | exhausted =>
      have hright : (binary ⟨.arith op.value, op.span⟩ target value right).eval (fuel + 1) scope s = .exhausted _ :=
        Eval.bind_of_exhausted ((Eval.bind_of_done htarget _).trans (Eval.bind_of_exhausted hy _)) _
      rw [update, updateInFull, eval_assign_of_exhausted hx, eval_assign_of_exhausted hright]
      exact .inl (.exhausted _ _)
  · have hnil : path ≠ [] := by
      rintro rfl
      cases hnone
    have hright : (binary ⟨.arith op.value, op.span⟩ target value right).eval (fuel + 1) scope s = .failed e t₀ :=
      Eval.yields_of_failed _ (Eval.bind_of_failed htarget _)
    refine .inr ⟨hnil, ?_, by simp [updateInFull, eval_assign_of_failed hright]⟩
    -- the value is evaluated first, and then there is nothing to combine it with
    cases hx : value.eval fuel scope s with
    | done new s₁ =>
      obtain ⟨e', hfails⟩ :=
        Eval.assign_fails_of_nowhere hpath (hkeeps _ _ _ hx) hnone new op.value op.span value.span
      simp [update, eval_assign_of_done hx, Eval.yields_of_failed _ hfails]
    | failed e' s₁ => simp [update, eval_assign_of_failed hx]
    | exhausted s₁ => simp [update, eval_assign_of_exhausted hx]

end Expr

/-- As long as the evaluation of `value` leaves the variable at the root of the target as it is, `target op= value`
succeeds if and only if `target = target op value` does, with the same value, the same output and the same scopes.
If the target is a variable, the two also fail for the same reason. -/
theorem Session.compound_assignment_expands {s : Session} {scope owner : ScopeId} {target value : Expr}
    {root : Ident} {path : List Ident} {b : Binding} (hpath : target.path? = some (root, path))
    (hb : s.scopes.lookup scope root.name = .ok (owner, b))
    (hkeeps : ∀ fuel v s₁, value.eval fuel scope s = .done v s₁ → s₁.scopes.lookup scope root.name = .ok (owner, b))
    (op : Located ArithOp) (span equals right span' : Span) :
    (∀ v z, (∃ fuel t, (target.update op value span).eval fuel scope s = .done v t ∧ t.SameState z) ↔
      ∃ fuel t, (target.updateInFull op value equals right span').eval fuel scope s = .done v t ∧ t.SameState z) ∧
    (path = [] → ∀ cause z,
      (∃ fuel e t, (target.update op value span).eval fuel scope s = .failed e t ∧ e.cause = cause ∧ t.SameState z) ↔
        ∃ fuel e t, (target.updateInFull op value equals right span').eval fuel scope s = .failed e t ∧
          e.cause = cause ∧ t.SameState z) := by
  -- both are given fuel to spare, so that the path can be followed
  have hlarge : ∀ fuel, path.length < fuel + path.length + 1 := by omega
  have hcompound : ∀ fuel, fuel ≤ fuel + path.length + 1 + 1 := by omega
  have hfull : ∀ fuel, fuel ≤ fuel + path.length + 1 + 2 := by omega
  refine ⟨fun v z => ⟨?_, ?_⟩, fun hnil cause z => ⟨?_, ?_⟩⟩
  · rintro ⟨fuel, t, hdone, hz⟩
    have hdone := ((refuelled (hcompound fuel)).expr _ _).of_done hdone
    rcases Expr.update_agrees hpath hb hkeeps op span equals right span' (hlarge fuel) with hagrees | ⟨-, hnot, -⟩
    · obtain ⟨t', hdone', hstate⟩ := hagrees.of_done hdone
      exact ⟨_, t', hdone', hstate.symm.trans hz⟩
    · exact absurd hdone (hnot v t)
  · rintro ⟨fuel, t, hdone, hz⟩
    have hdone := ((refuelled (hfull fuel)).expr _ _).of_done hdone
    rcases Expr.update_agrees hpath hb hkeeps op span equals right span' (hlarge fuel) with hagrees | ⟨-, -, hnot⟩
    · obtain ⟨t', hdone', hstate⟩ := hagrees.symm.of_done hdone
      exact ⟨_, t', hdone', hstate.symm.trans hz⟩
    · exact absurd hdone (hnot v t)
  · rintro ⟨fuel, e, t, hfailed, hcause, hz⟩
    have hfailed := ((refuelled (hcompound fuel)).expr _ _).of_failed hfailed
    rcases Expr.update_agrees hpath hb hkeeps op span equals right span' (hlarge fuel) with hagrees | ⟨hproperty, -⟩
    · obtain ⟨e', t', hfailed', hcause', hstate⟩ := hagrees.of_failed hfailed
      exact ⟨_, e', t', hfailed', hcause'.trans hcause, hstate.symm.trans hz⟩
    · exact absurd hnil hproperty
  · rintro ⟨fuel, e, t, hfailed, hcause, hz⟩
    have hfailed := ((refuelled (hfull fuel)).expr _ _).of_failed hfailed
    rcases Expr.update_agrees hpath hb hkeeps op span equals right span' (hlarge fuel) with hagrees | ⟨hproperty, -⟩
    · obtain ⟨e', t', hfailed', hcause', hstate⟩ := hagrees.symm.of_failed hfailed
      exact ⟨_, e', t', hfailed', hcause'.trans hcause, hstate.symm.trans hz⟩
    · exact absurd hnil hproperty

/-- The program `struct P { pub x: i8; } let p := P { x: 1 }; let n := 0; fn f() -> i8 { n = 7; ret 5; }`. -/
private def point : Program :=
  let x : Ident := ⟨"x", default⟩
  let n : Ident := ⟨"n", default⟩
  let P : Ident := ⟨"P", default⟩
  let digit (k : Nat) : Expr := .literal (.integer k .w8) default
  let body : Block := ⟨[.expression (.assign (.ident n) ⟨.set, default⟩ (digit 7) default) default,
    .ret (some (digit 5)) default], default⟩
  ⟨"m", [], [.struct ⟨P, [⟨x, .isPublic, false, false, .integer ⟨.w8, true⟩⟩], [], default⟩,
    .declare ⟨⟨"p", default⟩, false, none, some (.build P [(x, digit 1)] default), default⟩,
    .declare ⟨n, false, none, some (digit 0), default⟩,
    .function ⟨⟨"f", default⟩, [], .integer ⟨.w8, true⟩, body, default⟩], default⟩

/-- The session after it. -/
private def pointDone : Session := (point.run 12 (.fresh .empty 1 .empty)).session

/-- The target `p.x`. -/
private def pointX : Expr := .property (.ident ⟨"p", default⟩) ⟨"x", default⟩ default

/-- The call `f()`. -/
private def callOther : Expr := .call ⟨"f", default⟩ [] default

/-- The literal `0`. -/
private def nought : Expr := .literal (.integer 0 .w8) default

/-- Since `p.x += f()` yields 6 and sets `n` to 7 on the way, so does `p.x = p.x + f()`; and since `n /= 0` is a
division by zero, so is `n = n / 0`. -/
theorem Session.compound_assignment_expands_point :
    (∃ fuel t, (pointX.updateInFull ⟨.add, default⟩ callOther default default default).eval fuel ⟨0, 0⟩ pointDone =
      .done (.integer 6 ⟨.w8, true⟩) t ∧ t.scopes.get ⟨0, 0⟩ "n" = .ok (.integer 7 ⟨.w8, true⟩)) ∧
    ∃ fuel e t,
      ((Expr.ident ⟨"n", default⟩).updateInFull ⟨.div, default⟩ nought default default default).eval fuel ⟨0, 0⟩
        pointDone = .failed e t ∧ e.cause = .divisionByZero := by
  constructor
  · have hpath : pointX.path? = some (⟨"p", default⟩, [⟨"x", default⟩]) := rfl
    obtain ⟨owner, b, v, s₁, hb, hcall, hkept⟩ : ∃ owner b v s₁,
        pointDone.scopes.lookup ⟨0, 0⟩ "p" = .ok (owner, b) ∧
        callOther.eval 9 ⟨0, 0⟩ pointDone = .done v s₁ ∧ s₁.scopes.lookup ⟨0, 0⟩ "p" = .ok (owner, b) :=
      ⟨_, _, _, _, rfl, rfl, rfl⟩
    have hkeeps : ∀ fuel v s₁, callOther.eval fuel ⟨0, 0⟩ pointDone = .done v s₁ →
        s₁.scopes.lookup ⟨0, 0⟩ "p" = .ok (owner, b) := by
      intro fuel w s₂ hother
      obtain ⟨-, rfl⟩ := Expr.eval_unique hcall hother
      exact hkept
    obtain ⟨t, hdone, hn⟩ : ∃ t, (pointX.update ⟨.add, default⟩ callOther default).eval 10 ⟨0, 0⟩ pointDone =
        .done (.integer 6 ⟨.w8, true⟩) t ∧ t.scopes.get ⟨0, 0⟩ "n" = .ok (.integer 7 ⟨.w8, true⟩) := ⟨_, rfl, rfl⟩
    obtain ⟨hsucceeds, -⟩ :=
      Session.compound_assignment_expands hpath hb hkeeps ⟨.add, default⟩ default default default default
    obtain ⟨fuel, t', hdone', hstate⟩ := (hsucceeds _ _).1 ⟨10, t, hdone, .refl t⟩
    exact ⟨fuel, t', hdone', by rw [← hstate.scopes]; exact hn⟩
  · have hpath : (Expr.ident ⟨"n", default⟩).path? = some (⟨"n", default⟩, []) := rfl
    obtain ⟨owner, b, v, s₁, hb, hnought, hkept⟩ : ∃ owner b v s₁,
        pointDone.scopes.lookup ⟨0, 0⟩ "n" = .ok (owner, b) ∧
        nought.eval 3 ⟨0, 0⟩ pointDone = .done v s₁ ∧ s₁.scopes.lookup ⟨0, 0⟩ "n" = .ok (owner, b) :=
      ⟨_, _, _, _, rfl, rfl, rfl⟩
    have hkeeps : ∀ fuel v s₁, nought.eval fuel ⟨0, 0⟩ pointDone = .done v s₁ →
        s₁.scopes.lookup ⟨0, 0⟩ "n" = .ok (owner, b) := by
      intro fuel w s₂ hother
      obtain ⟨-, rfl⟩ := Expr.eval_unique hnought hother
      exact hkept
    obtain ⟨e, t, hfailed, hcause⟩ :
        ∃ e t, ((Expr.ident ⟨"n", default⟩).update ⟨.div, default⟩ nought default).eval 4 ⟨0, 0⟩ pointDone =
          .failed e t ∧ e.cause = .divisionByZero := ⟨_, _, rfl, rfl⟩
    obtain ⟨-, hfails⟩ :=
      Session.compound_assignment_expands hpath hb hkeeps ⟨.div, default⟩ default default default default
    obtain ⟨fuel, e', t', hfailed', hcause', -⟩ := (hfails rfl _ _).1 ⟨4, e, t, hfailed, hcause, .refl t⟩
    exact ⟨fuel, e', t', hfailed', hcause'⟩

end BraceScript
