import BraceScript.Proofs.Constants
import BraceScript.Proofs.History
import BraceScript.Proofs.PropertyPaths

/-!
# Assignments

An assignment evaluates its right-hand side, computes the new value of the variable at the root of its target without
touching the session, and stores it in one step.  So it does nothing if it fails, and otherwise replaces one value
(`Scopes.Rebinds`), which differs from the old one only at the end of the path (`Value.DiffersAt`); what it has
stored is then the value of the target (`Expr.eval_path`).  The same holds of `++` and `--` on a variable
(`Session.Attained.assignment_atomic`).
-/

namespace BraceScript

/-! ### One binding replaced -/

/-- `t` is the scope `s` with another value for the variable `name`. -/
structure Scope.Rebinds (s t : Scope) (name : String) (old new : Value) : Prop where
  parent : t.parent = s.parent
  structs : t.structs = s.structs
  before : s.binding? name = some ⟨old, false⟩
  after : t.binding? name = some ⟨new, false⟩
  others : ∀ n, n ≠ name → t.binding? n = s.binding? n

namespace Scopes

/-- `t` is `s` with another value for the variable `name` of the scope `owner`. -/
structure Rebinds (s t : Scopes) (owner : ScopeId) (name : String) (old new : Value) : Prop where
  live : t.live = s.live
  elsewhere : ∀ i, i ≠ owner.index → t.slots[i]? = s.slots[i]?
  here : ∃ scope scope', s.get? owner = some scope ∧ t.get? owner = some scope' ∧ scope.Rebinds scope' name old new

variable {s : Scopes} {id owner : ScopeId} {name : String} {b : Binding}

private theorem rebinds_set (hb : s.Binds owner name b) (hvariable : b.isConstant = false) (value : Value) :
    s.Rebinds (s.modify owner (·.set name value)) owner name b.value value := by
  obtain ⟨scope, hget, hbinding⟩ := hb
  obtain ⟨old, isConstant⟩ := b
  cases hvariable
  refine ⟨rfl, fun i hi => ?_, scope, scope.set name value, hget, ?_, rfl, rfl, hbinding, ?_, fun n hn => ?_⟩
  · rw [modify_slots, if_neg (Ne.symm hi)]
  · rw [get?_modify, if_pos rfl, hget]
    rfl
  · rw [Scope.binding?_set, if_pos rfl, hbinding]
    rfl
  · rw [Scope.binding?_set, if_neg hn]

/-- A walk that finds a name finds it in the same scope after its value has been replaced there.  By induction on the
rounds: the scopes before have no such name, and keep their parents. -/
private theorem walk_set {rounds : Nat} (h : s.walk (·.binding? name) rounds id = some (.ok (some (owner, b))))
    (value : Value) :
    (s.modify owner (·.set name value)).walk (·.binding? name) rounds id =
      some (.ok (some (owner, { b with value }))) := by
  induction rounds generalizing id with
  | zero => cases h
  | succ rounds ih =>
    cases hget : s.get? id with
    | none => simp [walk, hget] at h
    | some scope =>
      cases hbinding : scope.binding? name with
      | some a =>
        simp only [walk, hget, hbinding, Option.some.injEq, Except.ok.injEq, Prod.mk.injEq] at h
        obtain ⟨rfl, rfl⟩ := h
        simp only [walk, get?_modify, ↓reduceIte, hget, Option.map_some, Scope.binding?_set, hbinding]
      | none =>
        cases hparent : scope.parent with
        | none => simp [walk, hget, hbinding, hparent] at h
        | some parent =>
          simp only [walk, hget, hbinding, hparent] at h
          have hsame : ∃ scope', (s.modify owner (·.set name value)).get? id = some scope' ∧
              scope'.binding? name = none ∧ scope'.parent = some parent := by
            rw [get?_modify, hget]
            split
            · exact ⟨_, rfl, by rw [Scope.binding?_set, if_pos rfl, hbinding]; rfl, hparent⟩
            · exact ⟨scope, rfl, hbinding, hparent⟩
          obtain ⟨scope', hget', hbinding', hparent'⟩ := hsame
          simp only [walk, hget', hbinding', hparent']
          exact ih h

private theorem lookup_eq_ok_iff :
    s.lookup id name = .ok (owner, b) ↔ s.walk (·.binding? name) s.live id = some (.ok (some (owner, b))) := by
  unfold lookup search
  cases s.walk (·.binding? name) s.live id with
  | none => simp
  | some r =>
    cases r with
    | error e => simp
    | ok found => cases found <;> simp

private theorem lookup_set (h : s.lookup id name = .ok (owner, b)) (value : Value) :
    (s.modify owner (·.set name value)).lookup id name = .ok (owner, { b with value }) :=
  lookup_eq_ok_iff.2 (walk_set (lookup_eq_ok_iff.1 h) value)

end Scopes

/-! ### The value of a target -/

namespace Eval

variable {s t : Session} {scope : ScopeId} {x : Eval Value} {v : Value}

theorem yields_of_done (e : Expr) (h : x s = .done v t) : yields e x s = .done v (t.note (.value e v)) := by
  unfold yields
  rw [bind_of_done h]
  rfl

theorem yields_of_failed (e : Expr) {error : RuntimeError} (h : x s = .failed error t) :
    yields e x s = .failed error t := by
  unfold yields
  rw [bind_of_failed h]

end Eval

/-- A target is evaluated by following its path from the value of the variable at its root, and fails if that leads
nowhere.  By induction on the target. -/
theorem Expr.eval_path_cases {target : Expr} {root : Ident} {path : List Ident}
    (hpath : target.path? = some (root, path)) {s : Session} {scope owner : ScopeId} {b : Binding}
    (hb : s.scopes.lookup scope root.name = .ok (owner, b)) {fuel : Nat} (hfuel : path.length < fuel) :
    ∃ t, s.SameState t ∧
      ((∃ v, b.value.follow? (path.map (·.name)) = some v ∧ target.eval fuel scope s = .done v t) ∨
        b.value.follow? (path.map (·.name)) = none ∧ ∃ e, target.eval fuel scope s = .failed e t) := by
  induction target using Expr.path?.induct generalizing path fuel with
  | case1 name =>
    cases hpath
    obtain ⟨fuel, rfl⟩ : ∃ n, fuel = n + 1 := ⟨fuel - 1, by omega⟩
    have hlookup : Eval.lookup scope root s = .done b.value s := by
      simp only [Eval.lookup, Scopes.get, hb, Except.map]
    exact ⟨_, (Session.SameState.refl s).note_right _, .inl ⟨b.value, rfl, Eval.yields_of_done _ hlookup⟩⟩
  | case2 object name span ih =>
    rw [Expr.path?, Option.map_eq_some_iff] at hpath
    obtain ⟨⟨_, names⟩, hobject, ⟨⟩⟩ := hpath
    obtain ⟨fuel, rfl⟩ : ∃ n, fuel = n + 1 := ⟨fuel - 1, by omega⟩
    rw [List.length_append, List.length_singleton] at hfuel
    rw [List.map_append, Value.follow?_append]
    obtain ⟨t, hstate, ⟨inner, hinner, hdone⟩ | ⟨hnone, e, hfailed⟩⟩ :=
      ih hobject (show names.length < fuel by omega)
    · have hproperty := Eval.bind_of_done hdone fun v => Eval.located (v.readProperty name)
      rw [hinner, Option.bind_some]
      cases hread : inner.follow? [name.name] with
      | some v =>
        rw [Value.readProperty_of_follow? hread] at hproperty
        exact ⟨_, hstate.note_right _, .inl ⟨v, hread, Eval.yields_of_done _ hproperty⟩⟩
      | none =>
        obtain ⟨e, he⟩ := Value.readProperty_of_follow?_none hread
        rw [he] at hproperty
        exact ⟨t, hstate, .inr ⟨hread, _, Eval.yields_of_failed _ hproperty⟩⟩
    · rw [hnone, Option.bind_none]
      have hproperty := Eval.bind_of_failed hfailed fun v => Eval.located (v.readProperty name)
      exact ⟨t, hstate, .inr ⟨rfl, e, Eval.yields_of_failed _ hproperty⟩⟩
  | case3 other hident hproperty =>
    rw [Expr.path?] at hpath
    · cases hpath
    · exact hident
    · exact hproperty

theorem Expr.eval_path {target : Expr} {root : Ident} {path : List Ident} (hpath : target.path? = some (root, path))
    {s : Session} {scope owner : ScopeId} {b : Binding} (hb : s.scopes.lookup scope root.name = .ok (owner, b))
    {v : Value} (hv : b.value.follow? (path.map (·.name)) = some v) {fuel : Nat} (hfuel : path.length < fuel) :
    ∃ t, target.eval fuel scope s = .done v t ∧ s.SameState t := by
  obtain ⟨t, hstate, ⟨w, hw, hdone⟩ | ⟨hnone, -⟩⟩ := Expr.eval_path_cases hpath hb hfuel
  · obtain rfl : v = w := Option.some.inj (hv.symm.trans hw)
    exact ⟨t, hdone, hstate⟩
  · rw [hv] at hnone
    cases hnone

/-! ### Assignments -/

/-- `t` is `s` with another value at the place that `target` names from `scope` on: the variable at its root has
another value, which differs from the old one at the end of the path only.  The value of the target is now `v`. -/
structure Session.AssignedAt (s t : Session) (scope : ScopeId) (target : Expr) (v : Value) : Prop where
  place : ∃ root path owner old new, target.path? = some (root, path) ∧
    s.scopes.resolve scope root.name = .ok owner ∧
    s.scopes.Rebinds t.scopes owner root.name old new ∧ old.DiffersAt (path.map (·.name)) new
  output : t.output = s.output
  reads : ∃ enough, ∀ fuel, enough ≤ fuel → ∃ u, target.eval fuel scope t = .done v u ∧ u.scopes = t.scopes

/-- An assignment to `target` that goes on from `s` ends in this way: it changes one place, or it fails and changes
nothing. -/
def Outcome.Assigns (s : Session) (scope : ScopeId) (target : Expr) : Outcome Value → Prop
  | .done v t => s.AssignedAt t scope target v
  | .failed _ t => t = s
  | .exhausted _ => False

namespace Eval

variable {s : Session} {scope : ScopeId}

/-- The session after an assignment, when its value has been taken down. -/
private theorem assignedAt_assigned {target : Expr} {root : Ident} {path : List Ident}
    (hpath : target.path? = some (root, path)) {owner : ScopeId} {b : Binding}
    (hl : s.scopes.lookup scope root.name = .ok (owner, b)) (hb : s.scopes.Binds owner root.name b)
    (hvariable : b.isConstant = false) {new v : Value} (hdiffers : b.value.DiffersAt (path.map (·.name)) new)
    (hv : new.follow? (path.map (·.name)) = some v) (e : Expr) :
    s.AssignedAt ((assigned s scope owner root.name new).note (.value e v)) scope target v := by
  refine ⟨⟨root, path, owner, b.value, new, hpath, ?_, Scopes.rebinds_set hb hvariable new, hdiffers⟩, rfl, ?_⟩
  · simp only [Scopes.resolve, hl, Except.map]
  · refine ⟨path.length + 1, fun fuel hfuel => ?_⟩
    have hlookup : ((assigned s scope owner root.name new).note (.value e v)).scopes.lookup scope root.name =
        .ok (owner, ⟨new, b.isConstant⟩) := Scopes.lookup_set hl new
    obtain ⟨u, hdone, hstate⟩ := Expr.eval_path hpath hlookup hv hfuel
    exact ⟨u, hdone, hstate.scopes⟩

/-- What is only read before an assignment changes nothing. -/
private theorem assigns_of_reads {α : Type} {x : Eval α} (hx : x.Reads) {f : α → Eval Value} {target e : Expr}
    (hf : ∀ a, (yields e (f a) s).Assigns s scope target) : (yields e (x >>= f) s).Assigns s scope target := by
  rcases hx.cases s with ⟨a, hdone⟩ | ⟨error, hfailed⟩
  · have hnext : yields e (x >>= f) s = yields e (f a) s := by
      unfold yields
      rw [bind_assoc, bind_of_done hdone]
    rw [hnext]
    exact hf a
  · rw [yields_of_failed e (bind_of_failed hfailed f)]
    exact rfl

private theorem assigns_store (hs : s.Sound) (ha : s.scopes.isAlive scope = true) (id : Ident) (value : Value)
    (span : Span) (e : Expr) : (yields e (store scope id value span) s).Assigns s scope (.ident id) := by
  rcases store_cases hs.nested ha id value span with
      ⟨owner, b, new, hl, hb, hvariable, -, hdone⟩ | ⟨error, hfailed, -⟩
  · rw [yields_of_done e hdone]
    have hpath : (Expr.ident id).path? = some (id, []) := rfl
    exact assignedAt_assigned hpath hl hb hvariable (.here _ _) rfl e
  · rw [yields_of_failed e hfailed]
    exact rfl

private theorem assigns_assign (hs : s.Sound) (ha : s.scopes.isAlive scope = true) (target : Expr)
    (op : Located AssignOp) (new : Value) (span : Span) (e : Expr) :
    (yields e (assign scope target op new span) s).Assigns s scope target := by
  cases target with
  | ident id =>
    cases hop : op.value with
    | set =>
      simp only [assign, hop]
      exact assigns_store hs ha id new span e
    | update f =>
      simp only [assign, hop]
      refine assigns_of_reads (reads_query _ _ _) fun old => ?_
      exact assigns_of_reads (reads_ofExcept _ _) fun combined => assigns_store hs ha id combined span e
  | property object name place =>
    rcases assignPath_cases hs.nested ha object name place op new span with
      ⟨root, path, owner, b, changed, stored, hpath, hl, hb, hvariable, hset, hdone⟩ | ⟨error, hfailed, -⟩
    · obtain ⟨hdiffers, hstored⟩ := Value.differsAt_of_setProperty hset
      rw [yields_of_done e hdone]
      exact assignedAt_assigned hpath hl hb hvariable hdiffers hstored e
    · rw [yields_of_failed e hfailed]
      exact rfl
  | _ => exact rfl

end Eval

theorem Expr.eval_assign_of_done {target value : Expr} {op : Located AssignOp} {span : Span} {scope : ScopeId}
    {s s₁ : Session} {fuel : Nat} {new : Value} (h : value.eval fuel scope s = .done new s₁) :
    (Expr.assign target op value span).eval (fuel + 1) scope s =
      Eval.yields (.assign target op value span) (Eval.assign scope target op new value.span) s₁ := by
  rw [Expr.eval, Eval.yields, Eval.bind_assoc, Eval.bind_of_done h]
  rfl

/-- In a session that comes about between or during runs, an assignment whose right-hand side has been evaluated
either fails and leaves the session as it is then, or changes the one place that its target names, so that the value
it yields is read from there.  The same holds of `++` and `--` on a variable once that has been evaluated. -/
theorem Session.Attained.assignment_atomic {s : Session} (hs : s.Attained) {scope : ScopeId}
    (ha : s.scopes.isAlive scope = true) :
    (∀ (target value : Expr) (op : Located AssignOp) (span : Span) fuel new s₁,
      value.eval fuel scope s = .done new s₁ →
      ((Expr.assign target op value span).eval (fuel + 1) scope s).Assigns s₁ scope target) ∧
    ∀ (id : Ident) (op : Located UnaryOp) (side : Fixity) (span : Span) fuel v s₁,
      op.value = .increment ∨ op.value = .decrement → (Expr.ident id).eval fuel scope s = .done v s₁ →
      ((Expr.unary op (.ident id) side span).eval (fuel + 1) scope s).Assigns s₁ scope (.ident id) := by
  have hafter : ∀ {e : Expr} {fuel v s₁}, e.eval fuel scope s = .done v s₁ →
      s₁.Sound ∧ s₁.scopes.isAlive scope = true := by
    intro e fuel v s₁ hdone
    obtain ⟨hsound, hlevel⟩ :=
      (Eval.balances_discipline.disciplined fuel).expr scope e s s₁ hs.sound ha (by rw [hdone]; rfl)
    exact ⟨hsound, hlevel.outline.isAlive ha⟩
  constructor
  · intro target value op span fuel new s₁ hdone
    obtain ⟨hsound, halive⟩ := hafter hdone
    rw [Expr.eval_assign_of_done hdone]
    exact Eval.assigns_assign hsound halive target op new value.span _
  · intro id op side span fuel v s₁ hop hdone
    obtain ⟨hsound, halive⟩ := hafter hdone
    have hnext : (Expr.unary op (.ident id) side span).eval (fuel + 1) scope s =
        Eval.yields (.unary op (.ident id) side span) (Eval.ofExcept op.span (Value.unary op.value v) >>= fun new =>
          Eval.store scope id new op.span) s₁ := by
      rw [Expr.eval, Eval.yields, Eval.bind_assoc, Eval.bind_of_done hdone]
      rcases hop with hop | hop
      · simp only [Eval.storeStep, hop]
        rfl
      · simp only [Eval.storeStep, hop]
        rfl
    rw [hnext]
    exact Eval.assigns_of_reads (Eval.reads_ofExcept _ _) fun new =>
      Eval.assigns_store hsound halive id new op.span _

/-- The program `struct I { pub v: i8; } struct O { pub label: str; pub inner: null;
} let o := O { inner: I { v: 1 } }; let n := 1;`. -/
private def instanceInside : Program :=
  let v : Ident := ⟨"v", default⟩
  let label : Ident := ⟨"label", default⟩
  let inner : Ident := ⟨"inner", default⟩
  let I : Ident := ⟨"I", default⟩
  let O : Ident := ⟨"O", default⟩
  let one : Expr := .literal (.integer 1 .w8) default
  ⟨"m", [], [.struct ⟨I, [⟨v, .isPublic, false, false, .integer ⟨.w8, true⟩⟩], [], default⟩,
    .struct ⟨O, [⟨label, .isPublic, false, false, .string⟩, ⟨inner, .isPublic, false, false, .null⟩], [], default⟩,
    .declare ⟨⟨"o", default⟩, false, none, some (.build O [(inner, .build I [(v, one)] default)] default), default⟩,
    .declare ⟨⟨"n", default⟩, false, none, some one, default⟩], default⟩

private def innermost : Expr :=
  .property (.property (.ident ⟨"o", default⟩) ⟨"inner", default⟩ default) ⟨"v", default⟩ default

private def assignInnermost (op : AssignOp) (value : Expr) : Expr := .assign innermost ⟨op, default⟩ value default

private def numeral (n : Nat) : Expr := .literal (.integer n (.narrowest n)) default

/-- After the program, `o.inner.v += 8` changes one field, `o.inner.v = 200` fails and changes nothing, and `++n`
changes one variable. -/
theorem Session.Attained.assignment_atomic_nested :
    ∃ w s, instanceInside.run 12 (.fresh .empty 1 .empty) = .done w s ∧
      (∃ new s₁ t, (numeral 8).eval 3 s.scopes.root s = .done new s₁ ∧
        (assignInnermost (.update .add) (numeral 8)).eval 4 s.scopes.root s = .done (.integer 9 ⟨.w8, true⟩) t ∧
        s₁.AssignedAt t s.scopes.root innermost (.integer 9 ⟨.w8, true⟩)) ∧
      (∃ new s₁ e, (numeral 200).eval 3 s.scopes.root s = .done new s₁ ∧
        (assignInnermost .set (numeral 200)).eval 4 s.scopes.root s = .failed e s₁) ∧
      ∃ v s₁ t, (Expr.ident ⟨"n", default⟩).eval 3 s.scopes.root s = .done v s₁ ∧
        (Expr.unary ⟨.increment, default⟩ (.ident ⟨"n", default⟩) .before default).eval 4 s.scopes.root s =
          .done (.integer 2 ⟨.w8, true⟩) t ∧
        s₁.AssignedAt t s.scopes.root (.ident ⟨"n", default⟩) (.integer 2 ⟨.w8, true⟩) := by
  obtain ⟨w, s, hrun, ⟨new, s₁, t, height, hadd⟩, ⟨new', s₂, e, t', hlarge, hset⟩, v, s₃, u, hn, hstep⟩ :
      ∃ w s, instanceInside.run 12 (.fresh .empty 1 .empty) = .done w s ∧
      (∃ new s₁ t, (numeral 8).eval 3 s.scopes.root s = .done new s₁ ∧
        (assignInnermost (.update .add) (numeral 8)).eval 4 s.scopes.root s = .done (.integer 9 ⟨.w8, true⟩) t) ∧
      (∃ new s₁ e t, (numeral 200).eval 3 s.scopes.root s = .done new s₁ ∧
        (assignInnermost .set (numeral 200)).eval 4 s.scopes.root s = .failed e t) ∧
      ∃ v s₁ t, (Expr.ident ⟨"n", default⟩).eval 3 s.scopes.root s = .done v s₁ ∧
        (Expr.unary ⟨.increment, default⟩ (.ident ⟨"n", default⟩) .before default).eval 4 s.scopes.root s =
          .done (.integer 2 ⟨.w8, true⟩) t :=
    ⟨_, _, rfl, ⟨_, _, _, rfl, rfl⟩, ⟨_, _, _, _, rfl, rfl⟩, _, _, _, rfl, rfl⟩
  have hs : s.Reachable := .run instanceInside 12 (.fresh .empty 1 .empty) (by rw [hrun]; rfl)
  obtain ⟨hassign, hunary⟩ := Session.Attained.assignment_atomic hs.attained hs.sound.nested.isAlive_root
  have hplace := hassign innermost (numeral 8) ⟨.update .add, default⟩ default 3 new s₁ height
  have hnothing := hassign innermost (numeral 200) ⟨.set, default⟩ default 3 new' s₂ hlarge
  have hvariable := hunary ⟨"n", default⟩ ⟨.increment, default⟩ .before default 3 v s₃ (.inl rfl) hn
  rw [← assignInnermost, hadd] at hplace
  rw [← assignInnermost, hset] at hnothing
  rw [hstep] at hvariable
  obtain rfl : t' = s₂ := hnothing
  exact ⟨w, s, hrun, ⟨new, s₁, t, height, hadd, hplace⟩, ⟨new', t', e, hlarge, hset⟩, v, s₃, u, hn, hstep, hvariable⟩

end BraceScript
