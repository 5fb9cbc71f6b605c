import BraceScript.Proofs.Steps

/-!
# Constants

A constant is a name that is bound by `const` or by the declaration of a function.  No step of an evaluation replaces
its value: an assignment, also one to a property, ends with `Scopes.assign`, which replaces the values of variables
only; a scope binds a name once; and a scope is left only by the computation that has entered it.  `Eval.Preserves`
says of a computation that, from its start up to the moment it ends or runs out of fuel, the constants of the scopes
that were alive at the start are what they were, and every evaluation is of this kind (`Eval.preserves_discipline`).
-/

namespace BraceScript

/-! ### Constants of scopes -/

/-- Every constant of `s` is one of `t`, with the same value. -/
def Scopes.KeepsConstants (s t : Scopes) : Prop :=
  ∀ owner name b, s.Binds owner name b → b.isConstant = true → t.Binds owner name b

namespace Scopes.KeepsConstants

variable {s t u : Scopes}

private theorem refl (s : Scopes) : s.KeepsConstants s := fun _ _ _ hb _ => hb

private theorem trans (h : s.KeepsConstants t) (h' : t.KeepsConstants u) : s.KeepsConstants u :=
  fun owner name b hb hc => h' owner name b (h owner name b hb hc) hc

/-- What is replaced is the value of a variable. -/
private theorem set {owner : ScopeId} {name : String} {b : Binding} (hb : s.Binds owner name b)
    (hvariable : b.isConstant = false) (value : Value) : s.KeepsConstants (s.modify owner (·.set name value)) := by
  intro id n old hold hconstant
  rcases hb.set hold value with ⟨-, -, rfl, -⟩ | hset
  · rw [hvariable] at hconstant
    cases hconstant
  · exact hset

private theorem assign {scope : ScopeId} {name : String} {value : Value} (hs : s.Nested)
    (ha : s.isAlive scope = true) (h : s.assign scope name value = .ok t) : s.KeepsConstants t := by
  unfold Scopes.assign at h
  rcases hs.lookup_eq name ha with hl | ⟨owner, b, hl, hb⟩
  · rw [hl] at h
    cases h
  · simp only [hl] at h
    split at h
    · cases h
    · rename_i hvariable
      cases h
      exact set hb (by simpa using hvariable) value

/-- A name that is already there is not bound again. -/
private theorem declare {scope : ScopeId} {name : String} {new : Binding} (h : s.declare scope name new = .ok t) :
    s.KeepsConstants t := by
  unfold Scopes.declare at h
  split at h
  · cases h
  · rename_i here hget
    split at h
    · cases h
    · rename_i hnone
      cases h
      intro owner n b hb _
      exact (binds_bind hget (by simpa using hnone)).2 (.inr hb)

private theorem declareStruct {scope : ScopeId} {d : StructDecl} (h : s.declareStruct scope d = .ok t) :
    s.KeepsConstants t := by
  unfold Scopes.declareStruct at h
  split at h
  · cases h
  · split at h
    · cases h
    · cases h
      exact fun owner n b hb _ => (binds_declareStruct d).2 hb

private theorem push (parent : ScopeId) (hstored : s.live ≤ s.slots.size) : s.KeepsConstants (s.push parent).1 :=
  fun _ _ _ hb _ => (binds_push parent hstored).2 hb

/-- Only the constants of the last scope are lost with it, and `s` has none of them. -/
private theorem dropLast (h : s.KeepsConstants t) (hlive : t.live = s.live + 1) : s.KeepsConstants t.dropLast := by
  intro owner name b hb hconstant
  have hindex : owner.index < s.live := by
    obtain ⟨scope, hget, -⟩ := hb
    exact (get?_eq_some_iff.1 hget).1
  exact binds_dropLast.2 ⟨by omega, h owner name b hb hconstant⟩

end Scopes.KeepsConstants

/-! ### Constants of a session -/

/-- The property holds of the scopes of `t` and in every state since `s`. -/
structure Session.Throughout (s t : Session) (P : Scopes → Prop) : Prop where
  now : P t.scopes
  since : ∃ new, t.events = new ++ s.events ∧ ∀ scopes depth, .state scopes depth ∈ new → P scopes

private theorem Session.Throughout.mono {s t : Session} {P Q : Scopes → Prop} (h : s.Throughout t P)
    (hPQ : ∀ scopes, P scopes → Q scopes) : s.Throughout t Q := by
  obtain ⟨hnow, new, hnew, hstates⟩ := h
  exact ⟨hPQ _ hnow, new, hnew, fun scopes depth hmem => hPQ _ (hstates scopes depth hmem)⟩

/-- `t` is a later moment of `s` at which, as in every state in between, the constants of `s` are what they were. -/
structure Session.Preserves (s t : Session) : Prop where
  sound : t.Sound
  constants : s.Throughout t s.scopes.KeepsConstants

namespace Session.Preserves

variable {s t u : Session}

private theorem refl (h : s.Sound) : s.Preserves s := ⟨h, .refl _, [], rfl, by simp⟩

private theorem trans (h : s.Preserves t) (h' : t.Preserves u) : s.Preserves u := by
  obtain ⟨-, hnow, new, hnew, hstates⟩ := h
  obtain ⟨hsound, hnow', new', hnew', hstates'⟩ := h'
  refine ⟨hsound, hnow.trans hnow', new' ++ new, by rw [hnew', hnew, List.append_assoc], ?_⟩
  intro scopes depth hmem
  rcases List.mem_append.1 hmem with hmem | hmem
  · exact hnow.trans (hstates' scopes depth hmem)
  · exact hstates scopes depth hmem

private theorem note {e : Event} (h : (s.note e).Sound) (he : ∀ scopes depth, e ≠ .state scopes depth) :
    s.Preserves (s.note e) := by
  refine ⟨h, .refl _, [e], events_note s e, ?_⟩
  intro scopes depth hmem
  exact absurd (List.mem_singleton.1 hmem).symm (he scopes depth)

private theorem moveTo {scopes : Scopes} {depth : Nat} (h : (s.moveTo scopes depth).Sound)
    (hk : s.scopes.KeepsConstants scopes) : s.Preserves (s.moveTo scopes depth) := by
  refine ⟨h, hk, [.state scopes depth], events_moveTo s scopes depth, ?_⟩
  intro scopes' depth' hmem
  obtain ⟨rfl, -⟩ := Event.state.inj (List.mem_singleton.1 hmem)
  exact hk

private theorem entered (hs : s.Sound) {parent : ScopeId} (ha : s.scopes.isAlive parent = true) :
    s.Preserves (s.entered parent) := by
  have hnote : s.Preserves (s.note (.entered (s.scopes.push parent).2)) :=
    note (hs.note (by simp) (by simp)) (by simp)
  exact hnote.trans (moveTo (hs.entered ha) (.push parent hs.nested.stored))

/-- The scope that is left is one that `s` does not know. -/
private theorem left (h : s.Preserves t) {id : ScopeId} (hlive : t.scopes.live = s.scopes.live + 1)
    (hsound : (t.left id).Sound) : s.Preserves (t.left id) := by
  obtain ⟨-, hnow, new, hnew, hstates⟩ := h
  have hkeeps : s.scopes.KeepsConstants t.scopes.dropLast := hnow.dropLast hlive
  refine ⟨hsound, hkeeps, .state t.scopes.dropLast t.depth :: .leaving t.scopes id :: new, ?_, ?_⟩
  · unfold Session.left
    rw [events_moveTo, events_note, hnew]
    rfl
  · intro scopes depth hmem
    simp only [List.mem_cons, reduceCtorEq, false_or] at hmem
    rcases hmem with heq | hmem
    · obtain ⟨rfl, -⟩ := Event.state.inj heq
      exact hkeeps
    · exact hstates scopes depth hmem

end Session.Preserves

/-! ### Computations -/

namespace Eval

variable {α β : Type} {scope : ScopeId}

/-- The computation comes back to the scopes it has started from, and up to then leaves their constants as they
are. -/
def Preserves ⦃α : Type⦄ (scope : ScopeId) (x : Eval α) : Prop :=
  Balances scope x ∧ ∀ s : Session, s.Sound → s.scopes.isAlive scope = true → s.Preserves (x s).session

private theorem Reads.preserves {x : Eval α} (h : x.Reads) : Preserves scope x := by
  refine ⟨h.balances, fun s hs _ => ?_⟩
  rcases h.cases s with ⟨a, ha⟩ | ⟨e, he⟩
  · rw [ha]
    exact .refl hs
  · rw [he]
    exact .refl hs

private theorem preserves_record {e : Event} (h : e.IsRemark) : Preserves scope (record e) := by
  refine ⟨balances_record h, fun s hs _ => .note (hs.remark h) ?_⟩
  rintro scopes depth rfl
  exact h

private theorem preserves_change (name : String) (span : Span) {f : Scopes → Except ScopeError Scopes}
    (houtline : ∀ {s t}, f s = .ok t → s.SameOutline t)
    (hkeeps : ∀ {s t : Scopes}, s.Nested → s.isAlive scope = true → f s = .ok t → s.KeepsConstants t) :
    Preserves scope (change name span f) := by
  refine ⟨balances_change name span houtline, fun s hs ha => ?_⟩
  unfold change
  split
  · rename_i scopes hok
    exact .moveTo (hs.change (houtline hok)).1 (hkeeps hs.nested ha hok)
  · exact .refl hs

private theorem preserves_replace (name : Ident) (value : Value) : Preserves scope (replace scope name value) := by
  refine ⟨balances_replace name value, fun s hs ha => ?_⟩
  unfold replace
  split
  · rename_i scopes hok
    have hnote : (s.note (.assigned s.scopes scope name.name)).Sound := hs.remark trivial
    have hmove := (hnote.change (Scopes.sameOutline_assign hok)).1
    exact .trans (.note hnote (by simp)) (.moveTo hmove (.assign hs.nested ha hok))
  · exact .refl hs

private theorem preserves_callBuiltin (name : String) (args : List Value) (span : Span) :
    Preserves scope (callBuiltin name args span) := by
  refine ⟨balances_callBuiltin name args span, fun s hs _ => ?_⟩
  have hout : ∀ output, s.Preserves { s with output } := fun output =>
    ⟨⟨hs.state, hs.leaving⟩, .refl _, [], rfl, by simp⟩
  rcases callBuiltin_cases name args span s with ⟨b, v, output, -, -, hdone⟩ | ⟨cause, output, hfail, -⟩
  · rw [hdone]
    exact hout output
  · rw [hfail]
    exact hout output

private theorem Preserves.bind {x : Eval α} {f : α → Eval β} (hx : Preserves scope x)
    (hf : ∀ a, Preserves scope (f a)) : Preserves scope (x >>= f) := by
  refine ⟨hx.1.bind fun a => (hf a).1, fun s hs ha => ?_⟩
  have hfirst := hx.2 s hs ha
  cases h : x s with
  | done a t =>
    rw [h] at hfirst
    obtain ⟨ht, hlevel⟩ := hx.1 s t hs ha (by rw [h]; rfl)
    rw [bind_of_done h]
    exact hfirst.trans ((hf a).2 t ht (hlevel.outline.isAlive ha))
  | failed e t =>
    rw [h] at hfirst
    rw [bind_of_failed h]
    exact hfirst
  | exhausted t =>
    rw [h] at hfirst
    rw [bind_of_exhausted h]
    exact hfirst

private theorem Preserves.inScope {span : Span} {body : ScopeId → Eval α} (h : ∀ id, Preserves id (body id)) :
    Preserves scope (inScope scope span body) := by
  refine ⟨.inScope fun id => (h id).1, fun s hs ha => ?_⟩
  have halive := Scopes.isAlive_push scope hs.nested.stored
  have hinside : s.Preserves (body (s.scopes.push scope).2 (s.entered scope)).session :=
    (Session.Preserves.entered hs ha).trans ((h _).2 _ (hs.entered ha) halive)
  -- after a value and after an error the scope is left, and it was not there at the start
  have hleave : ∀ t, (body (s.scopes.push scope).2 (s.entered scope)).session? = some t → s.Preserves t →
      leave (s.scopes.push scope).2 t = (none, t.left (s.scopes.push scope).2) ∧
        s.Preserves (t.left (s.scopes.push scope).2) := by
    intro t ht hpreserves
    obtain ⟨hsound, hlevel⟩ := (h _).1 _ t (hs.entered ha) halive ht
    obtain ⟨-, hleave, hsound', -⟩ := leave_of_level hs hsound hlevel
    have hlive : t.scopes.live = s.scopes.live + 1 := hlevel.outline.live.trans (Scopes.push_live scope)
    exact ⟨hleave, hpreserves.left hlive hsound'⟩
  rw [inScope_eq]
  cases hb : body (s.scopes.push scope).2 (s.entered scope) with
  | exhausted t =>
    rw [hb] at hinside
    exact hinside
  | done a t =>
    rw [hb] at hinside
    obtain ⟨hleft, hpreserves⟩ := hleave t (by rw [hb]; rfl) hinside
    simp only [hleft]
    exact hpreserves
  | failed e t =>
    rw [hb] at hinside
    obtain ⟨hleft, hpreserves⟩ := hleave t (by rw [hb]; rfl) hinside
    simp only [hleft]
    exact hpreserves

private theorem deeper_of_preserves {body : Eval α} {s : Session} (h : Preserves scope body) (hs : s.Sound)
    (ha : s.scopes.isAlive scope = true) (hd : s.depth < s.maxDepth) : s.Preserves (deeper body s).session := by
  have hdeep : s.Preserves (s.moveTo s.scopes (s.depth + 1)) := .moveTo (hs.moveTo hs.nested hd) (.refl _)
  have hinside := hdeep.trans (h.2 _ hdeep.sound ha)
  have hback : ∀ t, (body (s.moveTo s.scopes (s.depth + 1))).session? = some t → s.Preserves t →
      s.Preserves (t.moveTo t.scopes (t.depth - 1)) := by
    intro t ht hpreserves
    obtain ⟨hsound, hlevel⟩ := h.1 _ t hdeep.sound ha ht
    exact hpreserves.trans (.moveTo (back_of_level hsound hlevel).1 (.refl _))
  unfold deeper
  cases hb : body (s.moveTo s.scopes (s.depth + 1)) with
  | exhausted t =>
    rw [hb] at hinside
    exact hinside
  | done a t =>
    rw [hb] at hinside
    exact hback t (by rw [hb]; rfl) hinside
  | failed e t =>
    rw [hb] at hinside
    exact hback t (by rw [hb]; rfl) hinside

private theorem Preserves.call {span : Span} {body : ScopeId → Eval α} (d : FunctionDecl) (closure : ScopeId)
    (args : Nat) (h : ∀ id, Preserves id (body id)) :
    Preserves scope (callable d closure args span >>= fun _ => deeper (Eval.inScope closure span body)) := by
  refine ⟨.call d closure args fun id => (h id).1, fun s hs _ => ?_⟩
  have hnote : ∀ alive, s.Preserves (s.note (.called d closure alive)) := fun alive =>
    .note (hs.note (by simp) (by simp)) (by simp)
  rcases callable_cases d closure args span s with ⟨hc, hd, ha⟩ | ⟨hc, -⟩ | ⟨e, hc, -⟩
  · rw [bind_of_done hc]
    exact (hnote true).trans (deeper_of_preserves (.inScope h) (hnote true).sound ha hd)
  · rw [bind_of_failed hc]
    exact hnote false
  · rw [bind_of_failed hc]
    exact .refl hs

/-- Every evaluation preserves constants. -/
theorem preserves_discipline : Discipline Preserves Preserves where
  reads := Reads.preserves
  exhausted := ⟨balances_discipline.exhausted, fun _ hs _ => .refl hs⟩
  record _ := preserves_record
  opened := id
  bind := Preserves.bind
  bind_loud := Preserves.bind
  assign _ := preserves_replace
  builtin _ := preserves_callBuiltin
  declare _ _ _ _ := preserves_change _ _ Scopes.sameOutline_declare fun _ _ => .declare
  declareStruct _ _ _ _ := preserves_change _ _ Scopes.sameOutline_declareStruct fun _ _ => .declareStruct
  inScope := Preserves.inScope
  call := Preserves.call

end Eval

/-! ### Runs -/

private theorem Program.run_preserves {s : Session} (hs : s.Sound) (p : Program) (fuel : Nat) :
    s.Preserves (p.run fuel s).session := by
  have hrun := ((Eval.preserves_discipline.disciplined fuel).stmts s.scopes.root p.contents).2 s hs
    hs.nested.isAlive_root
  unfold Program.run
  cases h : Stmt.execAll fuel s.scopes.root p.contents s with
  | done flow t =>
    rw [h] at hrun
    exact hrun
  | failed e t =>
    rw [h] at hrun
    exact hrun
  | exhausted t =>
    rw [h] at hrun
    exact hrun

/-- The sessions that come about between and during runs: nothing has happened in them that does not happen in some
run which starts from a session between runs. -/
def Session.Attained (s : Session) : Prop :=
  ∃ (first : Session) (p : Program) (fuel : Nat), first.Reachable ∧
    s.maxDepth = (p.run fuel first).session.maxDepth ∧ ∀ e, s.history e → (p.run fuel first).session.history e

theorem Session.Reachable.attained {s : Session} (h : s.Reachable) : s.Attained :=
  ⟨s, ⟨"", [], [], default⟩, 1, h, rfl, fun _ he => he⟩

theorem Session.Attained.sound {s : Session} (h : s.Attained) : s.Sound := by
  obtain ⟨first, p, fuel, hfirst, hmax, hhistory⟩ := h
  have hrun := (Program.run_preserves hfirst.sound p fuel).sound
  refine ⟨fun he => ?_, fun he => hrun.leaving (hhistory _ he)⟩
  rw [hmax]
  exact hrun.state (hhistory _ he)

private theorem Eval.binds_of_declare {s t : Session} {scope : ScopeId} {name : Ident} {value : Value}
    {isConstant : Bool} (ha : s.scopes.isAlive scope = true)
    (h : declare scope name value isConstant s = .done () t) :
    t.scopes.Binds scope name.name ⟨value, isConstant⟩ := by
  rcases declare_cases ha name value isConstant with ⟨here, hget, hnone, hdone⟩ | ⟨e, hfailed, -⟩
  · rw [hdone] at h
    cases h
    exact (Scopes.binds_bind hget hnone).2 (.inl ⟨rfl, rfl, rfl⟩)
  · rw [hfailed] at h
    cases h

private theorem VariableDecl.binds_of_exec {s t : Session} {scope : ScopeId} {d : VariableDecl} {fuel : Nat}
    {flow : Flow} (hs : s.Sound) (ha : s.scopes.isAlive scope = true)
    (h : (Stmt.declare d).exec fuel scope s = .done flow t) :
    t.scopes.Binds scope d.name.name ⟨flow.value, d.isConstant⟩ := by
  cases fuel with
  | zero => cases h
  | succ fuel =>
    obtain ⟨v, s₁, hinitial, h⟩ := Eval.bind_eq_done_iff.1 h
    obtain ⟨-, hlevel⟩ :=
      (Eval.balances_discipline.disciplined fuel).initial scope d s s₁ hs ha (by rw [hinitial]; rfl)
    have ha₁ := hlevel.outline.isAlive ha
    obtain ⟨_, s₂, hdeclare, hdone⟩ := Eval.bind_eq_done_iff.1 h
    cases hdone
    cases htype : d.type with
    | none =>
      simp only [Eval.declareVariable, htype] at hdeclare
      exact Eval.binds_of_declare ha₁ hdeclare
    | some type =>
      simp only [Eval.declareVariable, htype] at hdeclare
      obtain ⟨_, s₃, hbound, hrecord⟩ := Eval.bind_eq_done_iff.1 hdeclare
      have hbinds := Eval.binds_of_declare ha₁ hbound
      cases hrecord
      exact hbinds

private theorem FunctionDecl.binds_of_exec {s t : Session} {scope : ScopeId} {d : FunctionDecl} {fuel : Nat}
    {flow : Flow} (ha : s.scopes.isAlive scope = true) (h : (Stmt.function d).exec fuel scope s = .done flow t) :
    t.scopes.Binds scope d.name.name ⟨.function d scope, true⟩ := by
  cases fuel with
  | zero => cases h
  | succ fuel =>
    obtain ⟨v, s₁, hdeclare, hdone⟩ := Eval.bind_eq_done_iff.1 h
    cases hdone
    obtain ⟨_, s₂, hbound, hrecord⟩ := Eval.bind_eq_done_iff.1 hdeclare
    have hbinds := Eval.binds_of_declare ha hbound
    cases hrecord
    exact hbinds

/-- A `const` and the declaration of a function bind constants.  A constant of a scope that is alive keeps its value
and stays a constant in every state in which an expression is evaluated, a statement is executed or a program is run,
up to the last one, whether that ends with a value, with an error or for lack of fuel. -/
theorem Session.Attained.constants_last {s : Session} (hs : s.Attained) {scope : ScopeId}
    (ha : s.scopes.isAlive scope = true) :
    (∀ (d : VariableDecl) fuel flow t, d.isConstant = true → (Stmt.declare d).exec fuel scope s = .done flow t →
      t.scopes.Binds scope d.name.name ⟨flow.value, true⟩) ∧
    (∀ (d : FunctionDecl) fuel flow t, (Stmt.function d).exec fuel scope s = .done flow t →
      t.scopes.Binds scope d.name.name ⟨.function d scope, true⟩) ∧
    ∀ owner name b, s.scopes.Binds owner name b → b.isConstant = true →
      (∀ (e : Expr) fuel, s.Throughout (e.eval fuel scope s).session (·.Binds owner name b)) ∧
      (∀ (st : Stmt) fuel, s.Throughout (st.exec fuel scope s).session (·.Binds owner name b)) ∧
      ∀ (p : Program) fuel, s.Throughout (p.run fuel s).session (·.Binds owner name b) := by
  have hsound : s.Sound := hs.sound
  refine ⟨?_, fun d fuel flow t h => FunctionDecl.binds_of_exec ha h, ?_⟩
  · intro d fuel flow t hconstant h
    rw [← hconstant]
    exact VariableDecl.binds_of_exec hsound ha h
  · intro owner name b hb hconstant
    have hlast : ∀ {t : Session}, s.Preserves t → s.Throughout t (·.Binds owner name b) := fun h =>
      h.constants.mono fun scopes hkeeps => hkeeps owner name b hb hconstant
    refine ⟨fun e fuel => ?_, fun st fuel => ?_, fun p fuel => ?_⟩
    · exact hlast (((Eval.preserves_discipline.disciplined fuel).expr scope e).2 s hsound ha)
    · exact hlast (((Eval.preserves_discipline.disciplined fuel).stmt scope st).2 s hsound ha)
    · exact hlast (Program.run_preserves hsound p fuel)

/-- The program `struct P { x: i8 } const p := P { x: 1 }; fn f() { p.x = 2; }`. -/
private def constantPoint : Program :=
  let x : Ident := ⟨"x", default⟩
  let p : Ident := ⟨"p", default⟩
  let P : Ident := ⟨"P", default⟩
  let one : Expr := .literal (.integer 1 .w8) default
  let two : Expr := .literal (.integer 2 .w8) default
  let body : Block := ⟨[.expression (.assign (.property (.ident p) x default) ⟨.set, default⟩ two default) default],
    default⟩
  ⟨"m", [], [.struct ⟨P, [⟨x, .isPublic, false, false, .integer ⟨.w8, true⟩⟩], [], default⟩,
    .declare ⟨p, true, none, some (.build P [(x, one)] default), default⟩,
    .function ⟨⟨"f", default⟩, [], .void, body, default⟩], default⟩

/-- The program `{ f(); }`. -/
private def callInBlock : Program :=
  ⟨"m", [], [.block ⟨[.expression (.call ⟨"f", default⟩ [] default) default], default⟩], default⟩

/-- A function that assigns to a property of the constant `p` fails, and both `p` and the function are what they
were. -/
theorem Session.Attained.constants_last_point :
    ∃ v s fields d f e t, constantPoint.run 12 (.fresh .empty 1 .empty) = .done v s ∧
      callInBlock.run 12 s = .failed e t ∧ e.cause = .constantReassignment "p" ∧
      Value.field? "x" fields = some (.integer 1 ⟨.w8, true⟩) ∧
      s.Throughout t (·.Binds ⟨0, 0⟩ "p" ⟨.struct d fields, true⟩) ∧
      s.Throughout t (·.Binds ⟨0, 0⟩ "f" ⟨.function f ⟨0, 0⟩, true⟩) := by
  obtain ⟨v, s, fields, d, f, e, t, hdone, hfailed, hp, hf, hcause, hx⟩ : ∃ v s fields d f e t,
      constantPoint.run 12 (.fresh .empty 1 .empty) = .done v s ∧ callInBlock.run 12 s = .failed e t ∧
      s.scopes.Binds ⟨0, 0⟩ "p" ⟨.struct d fields, true⟩ ∧ s.scopes.Binds ⟨0, 0⟩ "f" ⟨.function f ⟨0, 0⟩, true⟩ ∧
      e.cause = .constantReassignment "p" ∧ Value.field? "x" fields = some (.integer 1 ⟨.w8, true⟩) := by
    refine ⟨_, _, _, _, _, _, _, rfl, rfl, ⟨_, rfl, rfl⟩, ⟨_, rfl, rfl⟩, ?_, ?_⟩
    · rfl
    · rfl
  have hs : s.Reachable := .run constantPoint 12 (.fresh .empty 1 .empty) (by rw [hdone]; rfl)
  obtain ⟨-, -, hlast⟩ := Session.Attained.constants_last hs.attained hs.sound.nested.isAlive_root
  have hp' := (hlast _ _ _ hp rfl).2.2 callInBlock 12
  have hf' := (hlast _ _ _ hf rfl).2.2 callInBlock 12
  rw [hfailed] at hp' hf'
  exact ⟨v, s, fields, d, f, e, t, hdone, hfailed, hcause, hx, hp', hf'⟩

end BraceScript
