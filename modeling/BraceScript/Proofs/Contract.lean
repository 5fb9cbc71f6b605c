import BraceScript.Proofs.Parts
import BraceScript.Proofs.Statements

/-!
# Contracts of evaluations

A `Contract` says what is asked of sessions, of errors, of values and of the literals and statements of a program.
It is lawful if the primitive steps of an evaluation respect it (`Contract.Lawful`): values are made only of good
values, and a session that satisfies the invariant does so after each step.  `Contract.Lawful.obeyed` concludes, by
induction on the fuel, that all evaluators obey a lawful contract: every expression whose literals are allowed yields
a good value, and the invariant lasts, whether the evaluation succeeds, fails or runs out of fuel.

Values are judged in the light of the events up to now, so a contract can speak about where a value comes from.
While an evaluation goes on, the values that it holds outside the session have to stay good; `Contract.Ensures`
carries them along as a list.
-/

namespace BraceScript

private theorem Block.exprs_eq (b : Block) : b.exprs = Stmt.listExprs b.statements := by
  obtain ⟨statements, span⟩ := b
  rw [Block.exprs]

private theorem FunctionDecl.exprs_eq (d : FunctionDecl) : d.exprs = Stmt.listExprs d.body.statements := by
  obtain ⟨name, params, returnType, body, span⟩ := d
  rw [FunctionDecl.exprs, Block.exprs_eq]

theorem Block.parts_eq (b : Block) : b.parts = Stmt.listParts b.statements := by
  obtain ⟨statements, span⟩ := b
  rw [Block.parts]

theorem FunctionDecl.parts_eq (d : FunctionDecl) : d.parts = Stmt.listParts d.body.statements := by
  obtain ⟨name, params, returnType, body, span⟩ := d
  rw [FunctionDecl.parts, Block.parts_eq]

/-- The first value of a variable of type `t`. -/
def Value.Starts (t : Ty) (v : Value) : Prop := v = .defaultFor t ∨ ∃ w, Value.conform t w = .ok v

/-- A value that an assignment puts in the place of `old`. -/
def Value.Replaces (old new : Value) : Prop :=
  (∃ v, old.retag v = .ok new) ∨ ∃ op v span path stored, Value.setProperty op v span path old = .ok (new, stored)

/-- The field sets a property of `d` to a value of its type. -/
def StructDecl.Takes (d : StructDecl) (f : String × Value) : Prop :=
  ∃ p w, d.property? f.1 = some p ∧ p.isStatic = false ∧ Value.conform p.type w = .ok f.2

/-- What is asked of a session, of an error and the session it ends in, of a value in the light of the events up to
now, of what an expression has just been evaluated to, and of the literals and statements of a program. -/
structure Contract where
  inv : Session → Prop
  fault : RuntimeError → Session → Prop
  good : List Event → Value → Prop
  raw : List Event → Expr → Value → Prop
  literal : Literal → Prop
  stmt : Stmt → Prop := fun _ => True

namespace Contract

/-- The literals among the expressions are allowed. -/
def Allows (C : Contract) (es : List Expr) : Prop := ∀ l span, Expr.literal l span ∈ es → C.literal l

variable {C : Contract} {es es' : List Expr}

private theorem Allows.mono (h : C.Allows es) (hsub : es' ⊆ es) : C.Allows es' := fun l span hl => h l span (hsub hl)

private theorem Allows.of_listParts (h : C.Allows (Expr.listParts es)) {e : Expr} (he : e ∈ es) : C.Allows e.parts :=
  h.mono fun _ hd => Expr.mem_listParts.2 ⟨e, he, hd⟩

private theorem Allows.of_fieldParts {fields : List (Ident × Expr)} (h : C.Allows (Expr.fieldParts fields))
    {f : Ident × Expr} (hf : f ∈ fields) : C.Allows f.2.parts :=
  h.mono fun _ hd => Expr.mem_fieldParts.2 ⟨f, hf, hd⟩

/-- The literals among the expressions are allowed, and so are the statements. -/
structure Admits (C : Contract) (es : List Expr) (ss : List Stmt) : Prop where
  exprs : C.Allows es
  stmts : ∀ st ∈ ss, C.stmt st

variable {ss ss' : List Stmt}

private theorem Admits.mono (h : C.Admits es ss) (hes : es' ⊆ es) (hss : ss' ⊆ ss) : C.Admits es' ss' :=
  ⟨h.exprs.mono hes, fun st hst => h.stmts st (hss hst)⟩

theorem Admits.of_list (h : C.Admits (Stmt.listExprs ss) (Stmt.listParts ss)) {st : Stmt} (hst : st ∈ ss) :
    C.Admits st.exprs st.parts :=
  h.mono (fun _ he => Stmt.mem_listExprs.2 ⟨st, hst, he⟩) fun _ hs => Stmt.mem_listParts.2 ⟨st, hst, hs⟩

/-- Good values are made of good values. -/
structure ValueLaws (C : Contract) : Prop where
  stable : ∀ {past now v}, past <:+ now → C.good past v → C.good now v
  ofLiteral : ∀ {now l}, C.literal l → C.good now (.ofLiteral l)
  builtinName : ∀ {now} name, C.good now (.builtin name)
  character : ∀ {now} c, C.good now (.character c)
  defaultFor : ∀ {now} t, C.good now (.defaultFor t)
  position : ∀ {now} (i : UInt64), C.good now (.int i.toNat)
  array : ∀ {now items}, C.good now (.array items) ↔ ∀ v ∈ items, C.good now v
  unary : ∀ {now op v w}, C.good now v → Value.unary op v = .ok w → C.good now w
  arith : ∀ {now op a b w}, C.good now a → C.good now b → Value.arith op a b = .ok w → C.good now w
  binary : ∀ {now op left right span a b w}, C.good now a → C.good now b → Value.binary op.value a b = .ok w →
    C.raw now (.binary op left right span) w
  plain : ∀ {now e v}, C.good now v → C.raw now e v
  conform : ∀ {now t v w}, C.good now v → Value.conform t v = .ok w → C.good now w
  field : ∀ {now d fields name v}, C.good now (.struct d fields) → Value.field? name fields = some v → C.good now v
  build : ∀ {now d} {values : List (String × Value)}, C.good now (.struct d (Eval.defaultFields d)) →
    (∀ f ∈ values, C.good now f.2 ∧ d.Takes f) →
    C.good now (.struct d (values.foldl (fun all (n, v) => Value.setField n v all) (Eval.defaultFields d)))
  setProperty : ∀ {now op new span path object changed stored}, C.good now object → C.good now new →
    Value.setProperty op new span path object = .ok (changed, stored) → C.good now changed ∧ C.good now stored
  code : ∀ {now d closure}, C.good now (.function d closure) → C.Admits d.exprs d.parts
  declared : ∀ {now d scope}, C.stmt (.function d) → C.Admits d.exprs d.parts →
    C.good (.declared d scope :: now) (.function d scope)

/-- The invariant lasts when an evaluation reads, stores, declares, and enters and leaves scopes. -/
structure StepLaws (C : Contract) : Prop extends ValueLaws C where
  bound : ∀ {s : Session} {owner name b}, C.inv s → s.scopes.Binds owner name b → C.good s.events b.value
  struct : ∀ {s : Session} {d}, C.inv s → s.scopes.Declares d → C.good s.events (.struct d (Eval.defaultFields d))
  builtin : ∀ {s : Session} {name b args v output}, C.inv s → s.builtins.get? name = some b →
    (∀ a ∈ args, C.good s.events a) → b.call args s.output = (.ok v, output) → C.good s.events v
  output : ∀ {s : Session} output, C.inv s → C.inv { s with output }
  value : ∀ {s : Session} {e v}, C.inv s → C.raw s.events e v →
    C.inv (s.note (.value e v)) ∧ C.good (.value e v :: s.events) v
  assign : ∀ {s : Session} {scope owner name b w}, s.Sound → C.inv s → s.scopes.lookup scope name = .ok (owner, b) →
    s.scopes.Binds owner name b → b.isConstant = false → b.value.Replaces w → C.good s.events w →
    C.inv (Eval.assigned s scope owner name w)
  declare : ∀ {s : Session} {scope here name v isConstant}, s.Sound → C.inv s → s.scopes.get? scope = some here →
    here.binding? name = none → C.good s.events v → C.inv (Eval.bound s scope name ⟨v, isConstant⟩)
  introduce : ∀ {s : Session} {scope here name t v isConstant}, s.Sound → C.inv s → s.scopes.get? scope = some here →
    here.binding? name = none → C.good s.events v → v.Starts t →
    C.inv ((Eval.bound s scope name ⟨v, isConstant⟩).note (.introduced scope name t v))
  declareFunction : ∀ {s : Session} {scope here} {d : FunctionDecl}, s.Sound → C.inv s →
    s.scopes.get? scope = some here → here.binding? d.name.name = none →
    C.stmt (.function d) → C.Admits d.exprs d.parts →
    C.inv ((Eval.bound s scope d.name.name ⟨.function d scope, true⟩).note (.declared d scope))
  declareStruct : ∀ {s : Session} {scope here} {d : StructDecl}, s.Sound → C.inv s →
    s.scopes.get? scope = some here → C.stmt (.struct d) →
    C.inv (s.moveTo (s.scopes.modify scope fun here => { here with structs := d :: here.structs }) s.depth)
  enter : ∀ {s : Session} {parent}, s.Sound → s.scopes.isAlive parent = true → C.inv s → C.inv (s.entered parent)
  leave : ∀ {s : Session} {id}, s.Sound → s.scopes.pop id = .ok s.scopes.dropLast → C.inv s → C.inv (s.left id)
  deeper : ∀ {s : Session} depth, C.inv s → C.inv (s.moveTo s.scopes depth)

/-- The primitive steps of an evaluation respect the contract, and so do those that fail and what follows them. -/
structure Lawful (C : Contract) : Prop extends StepLaws C where
  call : ∀ {s : Session} {d closure}, s.Sound → C.inv s → C.good s.events (.function d closure) →
    s.scopes.isAlive closure = true → C.inv (s.note (.called d closure true))
  fail : ∀ {s : Session} {cause span}, C.inv s → cause.isStale = false → C.fault ⟨cause, span⟩ s
  dead : ∀ {s : Session} {d closure span}, s.Sound → C.inv s → C.good s.events (.function d closure) →
    s.scopes.isAlive closure = false → C.fault ⟨.staleScope d.name.name, span⟩ (s.note (.called d closure false))
  fault_leave : ∀ {s : Session} {id e}, s.Sound → s.scopes.pop id = .ok s.scopes.dropLast → C.fault e s →
    C.fault e (s.left id)
  fault_deeper : ∀ {s : Session} {e} depth, C.fault e s → C.fault e (s.moveTo s.scopes depth)

/-- If a contract asks of errors only that the invariant holds, it is enough to look at calls apart from these
steps. -/
theorem StepLaws.lawful (h : C.StepLaws) (hfault : ∀ e s, C.fault e s ↔ C.inv s)
    (hcalled : ∀ {s : Session} {d closure alive}, C.inv s → C.good s.events (.function d closure) →
      s.scopes.isAlive closure = alive → C.inv (s.note (.called d closure alive))) : C.Lawful where
  toStepLaws := h
  call _ hinv hgood ha := hcalled hinv hgood ha
  fail hinv _ := (hfault _ _).2 hinv
  dead _ hinv hgood ha := (hfault _ _).2 (hcalled hinv hgood ha)
  fault_leave hs hpop he := (hfault _ _).2 (h.leave hs hpop ((hfault _ _).1 he))
  fault_deeper depth he := (hfault _ _).2 (h.deeper depth ((hfault _ _).1 he))

/-- A contract that asks nothing of values. -/
theorem ValueLaws.of_top (hgood : ∀ now v, C.good now v) (hraw : ∀ now e v, C.raw now e v)
    (hliteral : ∀ l, C.literal l) (hstmt : ∀ st, C.stmt st) : C.ValueLaws where
  stable _ _ := hgood _ _
  ofLiteral _ := hgood _ _
  builtinName _ := hgood _ _
  character _ := hgood _ _
  defaultFor _ := hgood _ _
  position _ := hgood _ _
  array := ⟨fun _ _ _ => hgood _ _, fun _ => hgood _ _⟩
  unary _ _ := hgood _ _
  arith _ _ _ := hgood _ _
  binary _ _ _ := hraw _ _ _
  plain _ := hraw _ _ _
  conform _ _ := hgood _ _
  field _ _ := hgood _ _
  build _ _ := hgood _ _
  setProperty _ _ _ := ⟨hgood _ _, hgood _ _⟩
  code _ := ⟨fun _ _ _ => hliteral _, fun _ _ => hstmt _⟩
  declared _ _ := hgood _ _

/-- A contract that asks something of the parts of a value. -/
theorem ValueLaws.of_closed {p : List Event → Value → Prop} (hgood : ∀ now v, C.good now v ↔ v.All (p now))
    (hclosed : ∀ now, Value.Closed (p now)) (hstable : ∀ {past now}, past <:+ now → ∀ v, p past v → p now v)
    (hliteral : ∀ {now l}, C.literal l → C.good now (.ofLiteral l))
    (hposition : ∀ {now} (i : UInt64), C.good now (.int i.toNat))
    (hrange : ∀ {now op left right span a b w}, C.good now a → C.good now b → Value.range a b = .ok w →
      op.value = .range → C.raw now (.binary op left right span) w)
    (hplain : ∀ {now e v}, C.good now v → C.raw now e v)
    (hcode : ∀ {now d closure}, C.good now (.function d closure) → C.Admits d.exprs d.parts)
    (hdeclared : ∀ {now d scope}, C.stmt (.function d) → C.Admits d.exprs d.parts →
      C.good (.declared d scope :: now) (.function d scope)) :
    C.ValueLaws where
  stable hpast h := (hgood _ _).2 (Value.All.mono (hstable hpast) _ ((hgood _ _).1 h))
  ofLiteral := hliteral
  builtinName _ := (hgood _ _).2 ((hclosed _).all_plain trivial)
  character _ := (hgood _ _).2 ((hclosed _).all_plain trivial)
  defaultFor t := (hgood _ _).2 ((hclosed _).all_defaultFor t)
  position := hposition
  array := by simp only [hgood, Value.all_array, implies_true]
  unary hv h := (hgood _ _).2 ((hclosed _).all_unary ((hgood _ _).1 hv) h)
  arith ha hb h := (hgood _ _).2 ((hclosed _).all_arith ((hgood _ _).1 ha) ((hgood _ _).1 hb) h)
  binary := by
    intro now op left right span a b w ha hb h
    by_cases hop : op.value = .range
    · rw [hop] at h
      exact hrange ha hb h hop
    · exact hplain ((hgood _ _).2 ((hclosed _).all_binary ((hgood _ _).1 ha) ((hgood _ _).1 hb) hop h))
  plain := hplain
  conform hv h := (hgood _ _).2 ((hclosed _).all_conform ((hgood _ _).1 hv) h)
  field := by
    intro now d fields name v h hv
    obtain ⟨f, hf, rfl⟩ := Value.mem_of_field? hv
    exact (hgood _ _).2 (Value.all_struct.1 ((hgood _ _).1 h) f hf)
  build := by
    intro now d values hd h
    refine (hgood _ _).2 (Value.all_struct.2 ?_)
    exact Value.All.foldl_setField (fun f hf => (hgood _ _).1 (h f hf).1) (Value.all_struct.1 ((hgood _ _).1 hd))
  setProperty := by
    intro now op new span path object changed stored hobject hnew h
    obtain ⟨hchanged, hstored⟩ := (hclosed _).all_setProperty ((hgood _ _).1 hobject) ((hgood _ _).1 hnew) h
    exact ⟨(hgood _ _).2 hchanged, (hgood _ _).2 hstored⟩
  code := hcode
  declared := hdeclared

end Contract

/-- `t` is a later moment of a session without faults, on the same level. -/
structure Session.Onward (s t : Session) : Prop where
  sound : t.Sound
  level : s.Level t
  events : s.events <:+ t.events

private theorem Session.Onward.refl {s : Session} (h : s.Sound) : s.Onward s := ⟨h, .refl s, List.suffix_rfl⟩

private theorem Session.Onward.trans {s t u : Session} (h : s.Onward t) (h' : t.Onward u) : s.Onward u :=
  ⟨h'.sound, h.level.trans h'.level, h.events.trans h'.events⟩

private theorem Session.Onward.change {s : Session} (h : s.Sound) {scopes : Scopes}
    (ho : s.scopes.SameOutline scopes) : s.Onward (s.moveTo scopes s.depth) := by
  obtain ⟨hsound, hlevel⟩ := h.change ho
  exact ⟨hsound, hlevel, Session.suffix_moveTo _ _ _⟩

private theorem Session.Onward.note {s : Session} (h : s.Sound) {e : Event} (he : e.IsRemark) :
    s.Onward (s.note e) :=
  ⟨h.remark he, .note s e, Session.suffix_note _ _⟩

/-- A computation that was started in `s` has ended as the contract asks: a result `a` comes with the good values
`vals a` and has the property `Q`. -/
def Outcome.Obeys {α : Type} (C : Contract) (s : Session) (vals : α → List Value) (Q : α → Prop) : Outcome α → Prop
  | .done a t => s.Onward t ∧ C.inv t ∧ (∀ v ∈ vals a, C.good t.events v) ∧ Q a
  | .failed e t => s.Onward t ∧ C.fault e t
  | .exhausted t => C.inv t

private theorem Outcome.Obeys.onward {α : Type} {C : Contract} {s t : Session} {vals : α → List Value} {Q : α → Prop}
    {o : Outcome α} (h : s.Onward t) (ho : o.Obeys C t vals Q) : o.Obeys C s vals Q := by
  cases o with
  | done a u => exact ⟨h.trans ho.1, ho.2⟩
  | failed e u => exact ⟨h.trans ho.1, ho.2⟩
  | exhausted u => exact ho

namespace Contract

/-- Whenever it is started in `scope` while the values `held` are good, the computation ends as the contract asks. -/
def Ensures (C : Contract) {α : Type} (scope : ScopeId) (held : List Value) (x : Eval α) (vals : α → List Value)
    (Q : α → Prop) : Prop :=
  ∀ s, s.Sound → s.scopes.isAlive scope = true → C.inv s → (∀ v ∈ held, C.good s.events v) → (x s).Obeys C s vals Q

/-- The computation ends with a good value. -/
def Yields (C : Contract) (scope : ScopeId) (held : List Value) (x : Eval Value) : Prop :=
  C.Ensures scope held x (fun v => [v]) fun _ => True

/-- The statement ends with a good value. -/
def Flows (C : Contract) (scope : ScopeId) (held : List Value) (x : Eval Flow) : Prop :=
  C.Ensures scope held x (fun flow => [flow.value]) fun _ => True

/-- The computation is made for its effect. -/
def Runs (C : Contract) (scope : ScopeId) (held : List Value) (x : Eval Unit) : Prop :=
  C.Ensures scope held x (fun _ => []) fun _ => True

/-- If the values `held` are good, so are the values `vs`. -/
def Grants (C : Contract) (held vs : List Value) : Prop :=
  ∀ now, (∀ v ∈ held, C.good now v) → ∀ v ∈ vs, C.good now v

variable {C : Contract} {α β : Type} {scope : ScopeId} {held held' : List Value}
  {vals : α → List Value} {Q : α → Prop}
  {vals' : β → List Value} {Q' : β → Prop}

private theorem Grants.of_subset {vs : List Value} (h : vs ⊆ held) : C.Grants held vs :=
  fun _ hheld v hv => hheld v (h hv)

private theorem Grants.single {v : Value} (h : ∀ now, (∀ w ∈ held, C.good now w) → C.good now v) :
    C.Grants held [v] := by
  intro now hheld w hw
  rw [List.mem_singleton] at hw
  rw [hw]
  exact h now hheld

theorem Ensures.weaken {x : Eval α} (h : C.Ensures scope held x vals Q) (hsub : held ⊆ held') :
    C.Ensures scope held' x vals Q :=
  fun s hs ha hinv hheld => h s hs ha hinv fun v hv => hheld v (hsub hv)

private theorem Ensures.imp {x : Eval α} {P : α → Prop} (h : C.Ensures scope held x vals Q) (hP : ∀ a, Q a → P a) :
    C.Ensures scope held x vals P := by
  intro s hs ha hinv hheld
  have hx := h s hs ha hinv hheld
  cases hxs : x s with
  | done a t =>
    rw [hxs] at hx
    exact ⟨hx.1, hx.2.1, hx.2.2.1, hP a hx.2.2.2⟩
  | failed e t =>
    rw [hxs] at hx
    exact hx
  | exhausted t =>
    rw [hxs] at hx
    exact hx

private theorem ensures_exhausted : C.Ensures scope held (Eval.exhausted : Eval α) vals Q := fun _ _ _ hinv _ => hinv

namespace Lawful

variable (hC : C.Lawful)
include hC

/-! ### Rules -/

theorem bind {x : Eval α} {f : α → Eval β} (hx : C.Ensures scope held x vals Q)
    (hf : ∀ a, Q a → C.Ensures scope (vals a ++ held) (f a) vals' Q') : C.Ensures scope held (x >>= f) vals' Q' := by
  intro s hs ha hinv hheld
  have h := hx s hs ha hinv hheld
  cases hxs : x s with
  | done a t =>
    rw [hxs] at h
    rw [Eval.bind_of_done hxs]
    obtain ⟨honward, hinv', hvals, hq⟩ := h
    refine (hf a hq t honward.sound (honward.level.outline.isAlive ha) hinv' ?_).onward honward
    rw [List.forall_mem_append]
    exact ⟨hvals, fun v hv => hC.stable honward.events (hheld v hv)⟩
  | failed e t =>
    rw [hxs] at h
    rw [Eval.bind_of_failed hxs]
    exact h
  | exhausted t =>
    rw [hxs] at h
    rw [Eval.bind_of_exhausted hxs]
    exact h

/-- A step that only reads: it has a result, or fails for another reason than a dead scope. -/
private theorem of_cases {x : Eval α} (h : ∀ s : Session, s.Sound → s.scopes.isAlive scope = true → C.inv s →
      (∀ v ∈ held, C.good s.events v) →
      (∃ a, x s = .done a s ∧ (∀ v ∈ vals a, C.good s.events v) ∧ Q a) ∨
        ∃ e, x s = .failed e s ∧ e.cause.isStale = false) :
    C.Ensures scope held x vals Q := by
  intro s hs ha hinv hheld
  rcases h s hs ha hinv hheld with ⟨a, hx, hvals, hq⟩ | ⟨e, hx, he⟩
  · rw [hx]
    exact ⟨.refl hs, hinv, hvals, hq⟩
  · rw [hx]
    exact ⟨.refl hs, hC.fail hinv he⟩

private theorem pure {a : α} (h : C.Grants held (vals a)) (hq : Q a) : C.Ensures scope held (pure a) vals Q :=
  hC.of_cases fun s _ _ _ hheld => .inl ⟨a, rfl, h s.events hheld, hq⟩

private theorem failing {cause : RuntimeError.Cause} (span : Span) (h : cause.isStale = false) :
    C.Ensures scope held (Eval.fail cause span : Eval α) vals Q :=
  hC.of_cases fun _ _ _ _ _ => .inr ⟨_, rfl, h⟩

private theorem ofExcept {r : Except RuntimeError.Cause α} (span : Span)
    (hok : ∀ a, r = .ok a → C.Grants held (vals a) ∧ Q a)
    (herror : ∀ cause, r = .error cause → cause.isStale = false) :
    C.Ensures scope held (Eval.ofExcept span r) vals Q := by
  cases r with
  | ok a => exact hC.pure (hok a rfl).1 (hok a rfl).2
  | error cause => exact hC.failing span (herror cause rfl)

/-- An operator on good values. -/
private theorem operator {r : Value.Result} (span : Span) (hok : ∀ v, r = .ok v → C.Grants held [v])
    (herror : ∀ cause, r = .error cause → cause.isStale = false) : C.Yields scope held (Eval.ofExcept span r) :=
  hC.ofExcept span (fun v hv => ⟨hok v hv, trivial⟩) herror

private theorem checked {r : Except Mismatch α} (span : Span) (hok : ∀ a, r = .ok a → C.Grants held (vals a) ∧ Q a) :
    C.Ensures scope held (Eval.checked span r) vals Q := by
  cases r with
  | ok a => exact hC.pure (hok a rfl).1 (hok a rfl).2
  | error m => exact hC.failing span rfl

private theorem located {r : Except RuntimeError α} (hok : ∀ a, r = .ok a → C.Grants held (vals a) ∧ Q a)
    (herror : ∀ e, r = .error e → e.cause.isStale = false) : C.Ensures scope held (Eval.located r) vals Q := by
  cases r with
  | ok a => exact hC.pure (hok a rfl).1 (hok a rfl).2
  | error e => exact hC.failing e.span (herror e rfl)

theorem each {f : α → Eval β} {as : List α} (h : ∀ a ∈ as, C.Ensures scope held (f a) vals' Q') :
    C.Ensures scope held (Eval.each f as) (fun bs => bs.flatMap vals') fun bs => ∀ b ∈ bs, Q' b := by
  induction as generalizing held with
  | nil => exact hC.pure (.of_subset (by simp)) (by simp)
  | cons a as ih =>
    refine hC.bind (h a (by simp)) fun b hb => ?_
    refine hC.bind (ih fun a ha => (h a (by simp [ha])).weaken (by simp)) fun bs hbs => ?_
    refine hC.pure (.of_subset ?_) (by simpa using ⟨hb, hbs⟩)
    intro v hv
    rw [List.flatMap_cons, List.mem_append] at hv
    rw [List.mem_append, List.mem_append]
    rcases hv with hv | hv
    · exact .inr (.inl hv)
    · exact .inl hv

/-! ### Names and values -/

theorem lookup (id : Ident) : C.Yields scope held (Eval.lookup scope id) := by
  refine hC.of_cases fun s hs ha hinv _ => ?_
  rcases Eval.lookup_cases hs.nested ha id with ⟨owner, b, hb, hl⟩ | hl | hfail
  · exact .inl ⟨b.value, hl, by simpa using hC.bound hinv hb, trivial⟩
  · exact .inl ⟨.builtin id.name, hl, by simpa using hC.builtinName id.name, trivial⟩
  · exact .inr hfail

private theorem valueOf (name : String) (span : Span) : C.Yields scope held (Eval.valueOf scope name span) := by
  refine hC.of_cases fun s hs ha hinv _ => ?_
  rcases hs.nested.lookup_eq name ha with hl | ⟨owner, b, hl, hb⟩
  · exact .inr ⟨_, Eval.valueOf_of_notDeclared hl span, rfl⟩
  · exact .inl ⟨b.value, Eval.valueOf_of_ok hl span, by simpa using hC.bound hinv hb, trivial⟩

/-- A struct that is found comes with its default instance. -/
theorem structNamed (name : Ident) :
    C.Ensures scope held (Eval.structNamed scope name) (fun d => [.struct d (Eval.defaultFields d)])
      fun _ => True := by
  refine hC.of_cases fun s hs ha hinv _ => ?_
  rcases Eval.structNamed_cases hs.nested ha name with ⟨d, hd, hdeclares⟩ | hfail
  · exact .inl ⟨d, hd, by simpa using hC.struct hinv hdeclares, trivial⟩
  · exact .inr hfail

theorem settable (struct : String) (d : StructDecl) (name : Ident) :
    C.Ensures scope held (Eval.settable struct d name) (fun _ => [])
      fun p => d.property? name.name = some p ∧ p.isStatic = false := by
  unfold Eval.settable
  split
  · exact hC.failing _ rfl
  · rename_i p hp
    split
    · exact hC.failing _ rfl
    · rename_i hstatic
      exact hC.pure (.of_subset (by simp)) ⟨hp, by simpa using hstatic⟩

private theorem index (base : Ident) {collection : Value} (position : Value) (span : Span) (h : collection ∈ held) :
    C.Yields scope held (Eval.index base collection position span) := by
  unfold Eval.index
  split
  · split
    · rename_i items
      refine hC.ofExcept _ (fun v hv => ⟨.single fun now hheld => ?_, trivial⟩) fun _ => Eval.isStale_itemAt
      exact hC.array.1 (hheld _ h) v (Eval.mem_of_itemAt hv)
    · rename_i n _ _ text
      cases hitem : Eval.itemAt text.toList n with
      | ok c => exact hC.pure (.single fun _ _ => hC.character c) trivial
      | error cause => exact hC.failing _ (Eval.isStale_itemAt hitem)
    · exact hC.failing _ rfl
  · exact hC.failing _ rfl

theorem iterated {v : Value} (span : Span) (h : v ∈ held) :
    C.Ensures scope held (Eval.iterated v span) (fun items => items) fun _ => True := by
  unfold Eval.iterated
  split
  · exact hC.pure (fun now hheld => hC.array.1 (hheld _ h)) trivial
  · refine hC.pure (fun now _ w hw => ?_) trivial
    obtain ⟨c, -, rfl⟩ := List.mem_map.1 hw
    exact hC.character c
  · exact hC.failing _ rfl

private theorem result (d : FunctionDecl) (span : Span) {flow : Flow} (h : flow.value ∈ held) :
    C.Yields scope held (Eval.result d span flow) := by
  unfold Eval.result
  split
  · rename_i v
    refine hC.checked _ fun w hw => ⟨.single fun now hheld => ?_, trivial⟩
    cases hconform : Value.conform d.returnType v with
    | error m =>
      rw [hconform] at hw
      cases hw
    | ok w' =>
      rw [hconform] at hw
      cases hw
      exact hC.conform (hheld v h) hconform
  · split
    · exact hC.pure (.single fun _ _ => hC.defaultFor .void) trivial
    · exact hC.pure (.single fun _ _ => hC.defaultFor .null) trivial
    · exact hC.failing _ rfl

private theorem callBuiltin (name : String) {args : List Value} (span : Span) (h : args ⊆ held) :
    C.Yields scope held (Eval.callBuiltin name args span) := by
  intro s hs _ hinv hheld
  have honward : ∀ output, s.Onward { s with output } := fun output =>
    ⟨⟨hs.state, hs.leaving⟩, ⟨.refl _, rfl, rfl, fun _ he => he⟩, List.suffix_rfl⟩
  rcases Eval.callBuiltin_cases name args span s with
      ⟨b, v, output, hb, hcall, hdone⟩ | ⟨cause, output, hfail, hstale⟩
  · rw [hdone]
    have hgood := hC.builtin hinv hb (fun a ha => hheld a (h ha)) hcall
    exact ⟨honward output, hC.output output hinv, List.forall_mem_singleton.2 hgood, trivial⟩
  · rw [hfail]
    exact ⟨honward output, hC.fail (hC.output output hinv) hstale⟩

/-! ### Assignments -/

/-- The step that replaces the value of a variable. -/
private theorem assigned {s : Session} {owner : ScopeId} {name : String} {b : Binding} {w stored : Value}
    (hs : s.Sound) (hinv : C.inv s) (hl : s.scopes.lookup scope name = .ok (owner, b))
    (hb : s.scopes.Binds owner name b) (hconstant : b.isConstant = false) (hw : b.value.Replaces w)
    (hgood : C.good s.events w) (hstored : C.good s.events stored) :
    (Outcome.done stored (Eval.assigned s scope owner name w)).Obeys C s (fun v => [v]) fun _ => True := by
  have hnote : s.Onward (s.note (.assigned s.scopes scope name)) := .note hs trivial
  have honward : s.Onward (Eval.assigned s scope owner name w) :=
    hnote.trans (.change hnote.sound (Scopes.sameOutline_modify fun _ => rfl))
  refine ⟨honward, hC.assign hs hinv hl hb hconstant hw hgood, ?_, trivial⟩
  simpa using hC.stable honward.events hstored

private theorem store (id : Ident) {value : Value} (span : Span) (h : C.Grants held [value]) :
    C.Yields scope held (Eval.store scope id value span) := by
  intro s hs ha hinv hheld
  have hvalue : C.good s.events value := h s.events hheld value (by simp)
  rcases Eval.store_cases hs.nested ha id value span with ⟨owner, b, new, hl, hb, hc, hr, hdone⟩ | ⟨e, hfail, hstale⟩
  · rw [hdone]
    have hnew : C.good s.events new := by
      rcases Value.retag_cases hr with rfl | ⟨t, ht⟩
      · exact hvalue
      · exact hC.conform hvalue ht
    exact hC.assigned hs hinv hl hb hc (.inl ⟨value, hr⟩) hnew hnew
  · rw [hfail]
    exact ⟨.refl hs, hC.fail hinv hstale⟩

private theorem assignTo (target : Expr) (op : Located AssignOp) {new : Value} (span : Span) (h : new ∈ held) :
    C.Yields scope held (Eval.assign scope target op new span) := by
  cases target with
  | ident id =>
    simp only [Eval.assign]
    split
    · exact hC.store id span (.of_subset (by simpa using h))
    · rename_i f _
      refine hC.bind (hC.valueOf id.name span) fun old _ => ?_
      have hcombined : ∀ v, Value.binary (.arith f) old new = .ok v → C.Grants ([old] ++ held) [v] := fun v hv =>
        .single fun now hheld => hC.arith (hheld old (by simp)) (hheld new (by simp [h])) hv
      refine hC.bind (hC.operator op.span hcombined fun _ => Value.isStale_binary) fun combined _ => ?_
      exact hC.store id span (.of_subset (by simp))
  | property object name place =>
    intro s hs ha hinv hheld
    rcases Eval.assignPath_cases hs.nested ha object name place op new span with
      ⟨root, path, owner, b, changed, stored, -, hl, hb, hc, hset, hdone⟩ | ⟨e, hfail, hstale⟩
    · rw [hdone]
      obtain ⟨hchanged, hstored⟩ := hC.setProperty (hC.bound hinv hb) (hheld new h) hset
      exact hC.assigned hs hinv hl hb hc (.inr ⟨op, new, span, path, stored, hset⟩) hchanged hstored
    · rw [hfail]
      exact ⟨.refl hs, hC.fail hinv hstale⟩
  | _ => exact hC.failing _ rfl

private theorem storeStep (op : Located UnaryOp) (operand : Expr) {new : Value} (h : new ∈ held) :
    C.Yields scope held (Eval.storeStep scope op operand new) := by
  have hgrants : C.Grants held [new] := .of_subset (by simpa using h)
  unfold Eval.storeStep
  split
  · exact hC.store _ _ hgrants
  · exact hC.store _ _ hgrants
  · exact hC.pure hgrants trivial

/-! ### Declarations -/

private theorem declareName (name : Ident) {value : Value} (isConstant : Bool) (h : C.Grants held [value]) :
    C.Runs scope held (Eval.declare scope name value isConstant) := by
  intro s hs ha hinv hheld
  rcases Eval.declare_cases ha name value isConstant with ⟨here, hget, hnone, hdone⟩ | ⟨e, hfail, hstale⟩
  · rw [hdone]
    have hvalue : C.good s.events value := h s.events hheld value (by simp)
    exact ⟨.change hs (Scopes.sameOutline_modify fun _ => rfl),
      hC.declare hs hinv hget hnone hvalue, by simp, trivial⟩
  · rw [hfail]
    exact ⟨.refl hs, hC.fail hinv hstale⟩

private theorem introduceName (name : Ident) {type : Ty} {value : Value} (isConstant : Bool)
    (h : C.Grants held [value]) (hstart : value.Starts type) :
    C.Runs scope held (Eval.introduce scope name type value isConstant) := by
  intro s hs ha hinv hheld
  have hvalue : C.good s.events value := h s.events hheld value (by simp)
  unfold Eval.introduce
  rcases Eval.declare_cases ha name value isConstant with ⟨here, hget, hnone, hdone⟩ | ⟨e, hfail, hstale⟩
  · rw [Eval.bind_of_done hdone]
    have honward : s.Onward (Eval.bound s scope name.name ⟨value, isConstant⟩) :=
      .change hs (Scopes.sameOutline_modify fun _ => rfl)
    exact ⟨honward.trans (.note honward.sound trivial),
      hC.introduce hs hinv hget hnone hvalue hstart, by simp, trivial⟩
  · rw [Eval.bind_of_failed hfail]
    exact ⟨.refl hs, hC.fail hinv hstale⟩

private theorem declareVariable (d : VariableDecl) {value : Value} (h : C.Grants held [value])
    (hstart : ∀ t, d.type = some t → value.Starts t) : C.Runs scope held (Eval.declareVariable scope d value) := by
  unfold Eval.declareVariable
  split
  · rename_i t ht
    exact hC.introduceName d.name d.isConstant h (hstart t ht)
  · exact hC.declareName d.name d.isConstant h

private theorem declareFunctionName (d : FunctionDecl) (hd : C.stmt (.function d))
    (hcode : C.Admits d.exprs d.parts) : C.Yields scope held (Eval.declareFunction scope d) := by
  intro s hs ha hinv hheld
  unfold Eval.declareFunction
  rcases Eval.declare_cases ha d.name (.function d scope) true with ⟨here, hget, hnone, hdone⟩ | ⟨e, hfail, hstale⟩
  · rw [Eval.bind_of_done hdone]
    have honward : s.Onward (Eval.bound s scope d.name.name ⟨.function d scope, true⟩) :=
      .change hs (Scopes.sameOutline_modify fun _ => rfl)
    refine ⟨honward.trans (.note honward.sound trivial), hC.declareFunction hs hinv hget hnone hd hcode, ?_, trivial⟩
    rw [Session.events_note]
    simpa using hC.declared hd hcode
  · rw [Eval.bind_of_failed hfail]
    exact ⟨.refl hs, hC.fail hinv hstale⟩

private theorem declareStructName (d : StructDecl) (h : C.stmt (.struct d)) :
    C.Runs scope held (Eval.change d.name.name d.name.span (·.declareStruct scope d)) := by
  intro s hs ha hinv hheld
  rcases Eval.declareStruct_cases ha d with ⟨here, hget, -, hdone⟩ | ⟨e, hfail, hstale⟩
  · rw [hdone]
    exact ⟨.change hs (Scopes.sameOutline_modify fun _ => rfl), hC.declareStruct hs hinv hget h, by simp, trivial⟩
  · rw [hfail]
    exact ⟨.refl hs, hC.fail hinv hstale⟩

theorem bindItem (value : Ident) (position : Option Ident) (i : UInt64) {v : Value} (h : v ∈ held) :
    C.Runs scope held (Eval.bindItem scope value position i v) := by
  refine hC.bind (hC.declareName value false (.of_subset (by simpa using h))) fun _ _ => ?_
  cases position with
  | none => exact hC.pure (.of_subset (by simp)) trivial
  | some id => exact hC.declareName id false (.single fun _ _ => hC.position i)

theorem bindParams (function : String) (span : Span) (ps : List Param) {vs : List Value} (h : vs ⊆ held) :
    C.Runs scope held (Eval.bindParams function scope span ps vs) := by
  induction ps generalizing vs held with
  | nil => exact hC.pure (.of_subset (by simp)) trivial
  | cons p ps ih =>
    cases vs with
    | nil => exact hC.pure (.of_subset (by simp)) trivial
    | cons v vs =>
      obtain ⟨hv, hvs⟩ := List.cons_subset.1 h
      have hconform : ∀ w, (Value.conform p.type v).mapError (Mismatch.argument p.name.name function) = .ok w →
          Value.conform p.type v = .ok w := by
        intro w hw
        cases hc : Value.conform p.type v with
        | error m =>
          rw [hc] at hw
          cases hw
        | ok w' =>
          rw [hc] at hw
          cases hw
          rfl
      have hchecked : C.Ensures scope held (Eval.checked span
          ((Value.conform p.type v).mapError (Mismatch.argument p.name.name function))) (fun w => [w])
          fun w => Value.conform p.type v = .ok w :=
        hC.checked span fun w hw => ⟨.single fun now hheld => hC.conform (hheld v hv) (hconform w hw), hconform w hw⟩
      refine hC.bind hchecked fun w hw => ?_
      refine hC.bind (hC.introduceName p.name false (.of_subset (by simp)) (.inr ⟨v, hw⟩)) fun _ _ => ?_
      exact ih fun u hu => by simp [hvs hu]

/-! ### Scopes and calls -/

theorem inScope (span : Span) {body : ScopeId → Eval α} (h : ∀ id, C.Ensures id held (body id) vals Q) :
    C.Ensures scope held (Eval.inScope scope span body) vals Q := by
  intro s hs ha hinv hheld
  have halive := Scopes.isAlive_push scope hs.nested.stored
  have hentered := s.suffix_entered scope
  have hleft : ∀ {t : Session} id, t.events <:+ (t.left id).events := Session.suffix_left _
  have hbody := h _ (s.entered scope) (hs.entered ha) halive (hC.enter hs ha hinv)
    fun v hv => hC.stable hentered (hheld v hv)
  rw [Eval.inScope_eq]
  cases hb : body (s.scopes.push scope).2 (s.entered scope) with
  | exhausted t =>
    rw [hb] at hbody
    exact hbody
  | done a t =>
    rw [hb] at hbody
    obtain ⟨honward, hinv', hvals, hq⟩ := hbody
    obtain ⟨hpop, hleave, hsound, hlevel⟩ := Eval.leave_of_level hs honward.sound honward.level
    simp only [hleave]
    exact ⟨⟨hsound, hlevel, hentered.trans (honward.events.trans (hleft _))⟩, hC.leave honward.sound hpop hinv',
      fun v hv => hC.stable (hleft _) (hvals v hv), hq⟩
  | failed e t =>
    rw [hb] at hbody
    obtain ⟨honward, hfault⟩ := hbody
    obtain ⟨hpop, hleave, hsound, hlevel⟩ := Eval.leave_of_level hs honward.sound honward.level
    simp only [hleave]
    exact ⟨⟨hsound, hlevel, hentered.trans (honward.events.trans (hleft _))⟩,
      hC.fault_leave honward.sound hpop hfault⟩

private theorem deeperOf {body : Eval α} {s : Session} (h : C.Ensures scope held body vals Q) (hs : s.Sound)
    (ha : s.scopes.isAlive scope = true) (hd : s.depth < s.maxDepth) (hinv : C.inv s)
    (hheld : ∀ v ∈ held, C.good s.events v) : (Eval.deeper body s).Obeys C s vals Q := by
  have hmove : ∀ {t : Session} depth, t.events <:+ (t.moveTo t.scopes depth).events :=
    fun depth => Session.suffix_moveTo _ _ depth
  have hbody := h _ (hs.moveTo hs.nested hd) ha (hC.deeper (s.depth + 1) hinv)
    fun v hv => hC.stable (hmove _) (hheld v hv)
  unfold Eval.deeper
  cases hb : body (s.moveTo s.scopes (s.depth + 1)) with
  | exhausted t =>
    rw [hb] at hbody
    exact hbody
  | done a t =>
    rw [hb] at hbody
    obtain ⟨honward, hinv', hvals, hq⟩ := hbody
    obtain ⟨hsound, hlevel⟩ := Eval.back_of_level honward.sound honward.level
    exact ⟨⟨hsound, hlevel, (hmove _).trans (honward.events.trans (hmove _))⟩, hC.deeper _ hinv',
      fun v hv => hC.stable (hmove _) (hvals v hv), hq⟩
  | failed e t =>
    rw [hb] at hbody
    obtain ⟨honward, hfault⟩ := hbody
    obtain ⟨hsound, hlevel⟩ := Eval.back_of_level honward.sound honward.level
    exact ⟨⟨hsound, hlevel, (hmove _).trans (honward.events.trans (hmove _))⟩, hC.fault_deeper _ hfault⟩

private theorem callInto {span : Span} {body : ScopeId → Eval α} {d : FunctionDecl} {closure : ScopeId}
    (hd : .function d closure ∈ held) (args : Nat) (h : ∀ id, C.Ensures id held (body id) vals Q) :
    C.Ensures scope held (Eval.callable d closure args span >>= fun _ =>
      Eval.deeper (Eval.inScope closure span body))
      vals Q := by
  intro s hs _ hinv hheld
  have hnote : ∀ alive, s.Onward (s.note (.called d closure alive)) := fun alive =>
    ⟨hs.note (by simp) (by simp), .note _ _, Session.suffix_note _ _⟩
  have hgood := hheld _ hd
  rcases Eval.callable_cases d closure args span s with ⟨hc, hdepth, ha⟩ | ⟨hc, ha⟩ | ⟨cause, hc, hstale⟩
  · rw [Eval.bind_of_done hc]
    have honward := hnote true
    have hbody := hC.deeperOf (hC.inScope span h) honward.sound ha hdepth (hC.call hs hinv hgood ha)
      fun v hv => hC.stable honward.events (hheld v hv)
    exact hbody.onward honward
  · rw [Eval.bind_of_failed hc]
    exact ⟨hnote false, hC.dead hs hinv hgood ha⟩
  · rw [Eval.bind_of_failed hc]
    exact ⟨.refl hs, hC.fail hinv hstale⟩

private theorem callFunction {body : ScopeId → Eval Flow} {d : FunctionDecl} {closure : ScopeId} {args : List Value}
    (span : Span) (hd : .function d closure ∈ held) (hargs : args ⊆ held)
    (h : ∀ frame, C.Flows frame [] (body frame)) :
    C.Yields scope held (Eval.callFunction d closure args span body) := by
  have hframe : ∀ frame, C.Flows frame held
      (Eval.bindParams d.name.name frame span d.params args >>= fun _ => body frame) := fun frame =>
    hC.bind (hC.bindParams d.name.name span d.params hargs) fun _ _ => (h frame).weaken (List.nil_subset _)
  have hcall : C.Flows scope held (Eval.callable d closure args.length span >>= fun _ =>
      Eval.deeper (Eval.inScope closure
      span fun frame => Eval.bindParams d.name.name frame span d.params args >>= fun _ => body frame)) :=
    hC.callInto hd args.length hframe
  have hresult :=
    hC.bind hcall fun flow _ => hC.result d span (List.mem_append_left held (List.mem_singleton_self _))
  rw [Eval.bind_assoc] at hresult
  exact hresult

/-! ### Sequences and loops -/

private theorem statements {exec : Stmt → Eval Flow} {ss : List Stmt} (h : ∀ st ∈ ss, C.Flows scope [] (exec st))
    {last : Value} (hlast : C.Grants held [last]) : C.Flows scope held (Eval.statements exec last ss) := by
  induction ss generalizing held last with
  | nil => exact hC.pure hlast trivial
  | cons st ss ih =>
    refine hC.bind ((h st (by simp)).weaken (List.nil_subset _)) fun flow _ => ?_
    cases flow with
    | normal v => exact ih (fun st hst => h st (by simp [hst])) (.of_subset (by simp [Flow.value]))
    | returned v => exact hC.pure (.of_subset (by simp [Flow.value])) trivial

private theorem forEach {body : UInt64 → Value → Eval Flow} {items : List Value} (hitems : items ⊆ held)
    (h : ∀ i, ∀ v ∈ items, C.Flows scope [v] (body i v)) (i : UInt64) :
    C.Flows scope held (Eval.forEach body i items) := by
  induction items generalizing held i with
  | nil => exact hC.pure (.single fun _ _ => hC.defaultFor .null) trivial
  | cons v vs ih =>
    obtain ⟨hv, hvs⟩ := List.cons_subset.1 hitems
    refine hC.bind ((h i v (by simp)).weaken (by simpa using hv)) fun flow _ => ?_
    cases flow with
    | normal w => exact ih (fun u hu => by simp [hvs hu]) (fun i u hu => h i u (by simp [hu])) (i + 1)
    | returned w => exact hC.pure (.of_subset (by simp [Flow.value])) trivial

/-! ### The value of an expression -/

private theorem recordValue (e : Expr) {v : Value} (h : ∀ now, (∀ w ∈ held, C.good now w) → C.raw now e v) :
    C.Yields scope held (Eval.record (.value e v) >>= fun _ => Pure.pure v) := by
  intro s hs _ hinv hheld
  obtain ⟨hinv', hgood⟩ := hC.value hinv (h s.events hheld)
  refine ⟨.note hs trivial, hinv', ?_, trivial⟩
  rw [Session.events_note]
  exact List.forall_mem_singleton.2 hgood

private theorem yields (e : Expr) {x : Eval Value} (h : C.Yields scope held x) :
    C.Yields scope held (Eval.yields e x) :=
  hC.bind h fun v _ => hC.recordValue e fun _ hheld => hC.plain (hheld v (by simp))

/-! ### The evaluators -/

end Lawful

/-- What a contract says about the evaluators with the given fuel. -/
structure Obeyed (C : Contract) (fuel : Nat) : Prop where
  expr : ∀ scope (e : Expr), C.Allows e.parts → C.Yields scope [] (e.eval fuel scope)
  field : ∀ scope struct d (f : Ident × Expr), C.Allows f.2.parts →
    C.Ensures scope [] (Expr.evalField fuel scope struct d f) (fun r => [r.2]) d.Takes
  stmts : ∀ scope ss, C.Admits (Stmt.listExprs ss) (Stmt.listParts ss) →
    C.Flows scope [] (Stmt.execAll fuel scope ss)
  stmt : ∀ scope (st : Stmt), C.Admits st.exprs st.parts → C.Flows scope [] (st.exec fuel scope)
  initial : ∀ scope (d : VariableDecl), C.Allows (d.value.elim [] Expr.parts) →
    C.Ensures scope [] (d.initial fuel scope) (fun v => [v]) fun v => ∀ t, d.type = some t → v.Starts t
  block : ∀ scope (b : Block), C.Admits b.exprs b.parts → C.Flows scope [] (b.exec fuel scope)
  branch : ∀ scope (i : IfStmt), C.Admits i.exprs i.parts → C.Flows scope [] (i.exec fuel scope)
  loop : ∀ scope (condition : Expr) (body : Block) (post : Option Expr), C.Allows condition.parts →
    C.Admits body.exprs body.parts → C.Allows (post.elim [] Expr.parts) →
    C.Flows scope [] (Stmt.loop fuel scope condition body post)

namespace Lawful

variable (hC : C.Lawful) {fuel : Nat}
include hC

private theorem expr_step (ih : C.Obeyed fuel) (scope : ScopeId) (e : Expr) (h : C.Allows e.parts) :
    C.Yields scope [] (e.eval (fuel + 1) scope) := by
  cases e with
  | ident id => exact hC.yields _ (hC.lookup id)
  | literal l span =>
    refine hC.yields _ (hC.pure (.single fun _ _ => hC.ofLiteral ?_) trivial)
    exact h l span (Expr.mem_parts_self _)
  | unary op operand side span =>
    have hoperand : C.Allows operand.parts := h.mono (by simp [Expr.parts])
    refine hC.yields _ (hC.bind (ih.expr scope operand hoperand) fun v _ => ?_)
    have hnew : ∀ w, Value.unary op.value v = .ok w → C.Grants ([v] ++ []) [w] := fun w hw =>
      .single fun now hheld => hC.unary (hheld v (by simp)) hw
    refine hC.bind (hC.operator op.span hnew fun _ => Value.isStale_unary) fun new _ => ?_
    exact hC.storeStep op operand (by simp)
  | binary op left right span =>
    have hleft : C.Allows left.parts := h.mono (by simp [Expr.parts])
    have hright : C.Allows right.parts := h.mono (by simp [Expr.parts])
    -- what is taken down is known of the result only in the light of both operands
    have heq : (Expr.binary op left right span).eval (fuel + 1) scope = left.eval fuel scope >>= fun a =>
        right.eval fuel scope >>= fun b => Eval.yields (.binary op left right span)
          (Eval.ofExcept op.span (Value.binary op.value a b)) := by
      rw [Expr.eval, Eval.yields, Eval.bind_assoc]
      simp only [Eval.bind_assoc]
      rfl
    rw [heq]
    refine hC.bind (ih.expr scope left hleft) fun a _ => ?_
    refine hC.bind ((ih.expr scope right hright).weaken (List.nil_subset _)) fun b _ => ?_
    cases hr : Value.binary op.value a b with
    | ok w => exact hC.recordValue _ fun now hheld => hC.binary (hheld a (by simp)) (hheld b (by simp)) hr
    | error cause => exact hC.failing op.span (Value.isStale_binary hr)
  | assign target op value span =>
    have hvalue : C.Allows value.parts := h.mono (by simp [Expr.parts])
    refine hC.yields _ (hC.bind (ih.expr scope value hvalue) fun new _ => ?_)
    exact hC.assignTo target op value.span (by simp)
  | call callee arguments span =>
    have hall : C.Allows (Expr.listParts arguments) := h.mono (by simp [Expr.parts])
    have hargs := hC.each fun a ha => ih.expr scope a (hall.of_listParts ha)
    refine hC.yields _ (hC.bind (hC.lookup callee) fun target _ => ?_)
    refine hC.bind (hargs.weaken (List.nil_subset _)) fun args _ => ?_
    have hsub : args ⊆ args.flatMap (fun v => [v]) ++ ([target] ++ []) := fun v hv => by simp [hv]
    cases target with
    | function d closure =>
      intro s hs ha hinv hheld
      have hcode : C.Admits (Stmt.listExprs d.body.statements) (Stmt.listParts d.body.statements) := by
        rw [← FunctionDecl.exprs_eq, ← FunctionDecl.parts_eq]
        exact hC.code (hheld (.function d closure) (by simp))
      exact hC.callFunction span (by simp) hsub (fun frame => ih.stmts frame _ hcode) s hs ha hinv hheld
    | builtin name => exact hC.callBuiltin name span hsub
    | _ => exact hC.failing _ rfl
  | build name fields span =>
    have hall : C.Allows (Expr.fieldParts fields) := h.mono (by simp [Expr.parts])
    refine hC.yields _ (hC.bind (hC.structNamed name) fun d _ => ?_)
    have hfields := hC.each fun f hf => ih.field scope name.name d f (hall.of_fieldParts hf)
    refine hC.bind (hfields.weaken (List.nil_subset _)) fun values hvalues =>
      hC.pure (.single fun now hheld => ?_) trivial
    refine hC.build (hheld _ (by simp)) fun f hf => ⟨hheld f.2 ?_, hvalues f hf⟩
    exact List.mem_append_left _ (List.mem_flatMap.2 ⟨f, hf, List.mem_singleton_self _⟩)
  | property object name span =>
    have hobject : C.Allows object.parts := h.mono (by simp [Expr.parts])
    refine hC.yields _ (hC.bind (ih.expr scope object hobject) fun v _ => ?_)
    refine hC.located (fun w hw => ⟨.single fun now hheld => ?_, trivial⟩) fun _ => Value.isStale_readProperty
    obtain ⟨d, fields, rfl, hfield⟩ := Value.readProperty_eq_ok hw
    exact hC.field (hheld _ (List.mem_singleton_self _)) hfield
  | array elements size span =>
    have hall : C.Allows (Expr.listParts elements) := h.mono (by simp [Expr.parts])
    have hitems := hC.each fun a ha => ih.expr scope a (hall.of_listParts ha)
    refine hC.yields _ (hC.bind hitems fun items _ => hC.pure (.single fun now hheld => ?_) trivial)
    exact hC.array.2 fun v hv => hheld v (by simp [hv])
  | index base position span =>
    have hposition : C.Allows position.parts := h.mono (by simp [Expr.parts])
    refine hC.yields _ (hC.bind (hC.lookup base) fun collection _ => ?_)
    refine hC.bind ((ih.expr scope position hposition).weaken (List.nil_subset _)) fun p _ => ?_
    exact hC.index base p position.span (by simp)

private theorem field_step (ih : C.Obeyed fuel) (scope : ScopeId) (struct : String) (d : StructDecl)
    (f : Ident × Expr) (h : C.Allows f.2.parts) :
    C.Ensures scope [] (Expr.evalField (fuel + 1) scope struct d f) (fun r => [r.2]) d.Takes := by
  obtain ⟨name, e⟩ := f
  refine hC.bind (hC.settable struct d name) fun p hp => ?_
  refine hC.bind (ih.expr scope e h) fun v _ => ?_
  have hchecked : C.Ensures scope ([v] ++ []) (Eval.checked e.span (Value.conform p.type v)) (fun w => [w])
      fun w => Value.conform p.type v = .ok w :=
    hC.checked e.span fun w hw => ⟨.single fun now hheld => hC.conform (hheld v (by simp)) hw, hw⟩
  refine hC.bind hchecked fun w hw => hC.pure (.of_subset (by simp)) ?_
  exact ⟨p, v, hp.1, hp.2, hw⟩

private theorem initial_step (ih : C.Obeyed fuel) (scope : ScopeId) (d : VariableDecl)
    (h : C.Allows (d.value.elim [] Expr.parts)) :
    C.Ensures scope [] (d.initial (fuel + 1) scope) (fun v => [v]) fun v => ∀ t, d.type = some t → v.Starts t := by
  unfold VariableDecl.initial
  split
  · rename_i e t he ht
    rw [he] at h
    refine hC.bind (ih.expr scope e h) fun v _ => ?_
    refine hC.checked e.span fun w hw =>
      ⟨.single fun now hheld => hC.conform (hheld v (by simp)) hw, fun t' ht' => ?_⟩
    obtain rfl : t = t' := Option.some.inj (ht.symm.trans ht')
    exact .inr ⟨v, hw⟩
  · rename_i e he ht
    rw [he] at h
    exact (ih.expr scope e h).imp fun v _ t' ht' => by cases ht.symm.trans ht'
  · rename_i t he ht
    refine hC.pure (.single fun _ _ => hC.defaultFor t) fun t' ht' => ?_
    obtain rfl : t = t' := Option.some.inj (ht.symm.trans ht')
    exact .inl rfl
  · rename_i he ht
    refine hC.pure (.single fun _ _ => hC.defaultFor .null) fun t' ht' => ?_
    cases ht.symm.trans ht'

private theorem stmt_step (ih : C.Obeyed fuel) (scope : ScopeId) (st : Stmt) (h : C.Admits st.exprs st.parts) :
    C.Flows scope [] (st.exec (fuel + 1) scope) := by
  have hvalue : ∀ {held : List Value} (v : Value), v ∈ held → C.Grants held [(Flow.normal v).value] := fun v hv =>
    .of_subset (by simpa [Flow.value] using hv)
  cases st with
  | expression e span => exact hC.bind (ih.expr scope e h.exprs) fun v _ => hC.pure (hvalue v (by simp)) trivial
  | block body => exact ih.block scope body (h.mono (by simp [Stmt.exprs]) (by simp [Stmt.parts]))
  | declare d =>
    refine hC.bind (ih.initial scope d h.exprs) fun v hv => ?_
    refine hC.bind (hC.declareVariable d (.of_subset (by simp)) hv) fun _ _ => ?_
    exact hC.pure (hvalue v (by simp)) trivial
  | function d =>
    have hcode : C.Admits d.exprs d.parts := h.mono (by simp [Stmt.exprs]) (by simp [Stmt.parts])
    have hd : C.stmt (.function d) := h.stmts _ (Stmt.mem_parts_self _)
    exact hC.bind (hC.declareFunctionName d hd hcode) fun f _ => hC.pure (hvalue f (by simp)) trivial
  | ret value span =>
    cases value with
    | none => exact hC.pure (.single fun _ _ => hC.defaultFor .void) trivial
    | some e =>
      exact hC.bind (ih.expr scope e h.exprs) fun v _ => hC.pure (.of_subset (by simp [Flow.value])) trivial
  | branch s => exact ih.branch scope s (h.mono (by simp [Stmt.exprs]) (by simp [Stmt.parts]))
  | struct d =>
    have hd : C.stmt (.struct d) := h.stmts _ (Stmt.mem_parts_self _)
    exact hC.bind (hC.declareStructName d hd) fun _ _ => hC.pure (.single fun _ _ => hC.defaultFor .null) trivial
  | whileLoop condition body span =>
    have hbody : C.Admits body.exprs body.parts := h.mono (by simp [Stmt.exprs]) (by simp [Stmt.parts])
    exact ih.loop scope condition body none (h.exprs.mono (by simp [Stmt.exprs])) hbody (by simp [Allows])
  | forLoop counter init condition post body span =>
    rw [Stmt.exec]
    refine hC.inScope span fun outer => ?_
    refine hC.bind (ih.expr outer init (h.exprs.mono (by simp [Stmt.exprs]))) fun v _ => ?_
    refine hC.bind (hC.declareName counter false (.of_subset (by simp))) fun _ _ => ?_
    refine (ih.loop outer condition body (some post) ?_ ?_ ?_).weaken (List.nil_subset _)
    · exact h.exprs.mono fun d hd => by simp [Stmt.exprs, hd]
    · exact h.mono (fun d hd => by simp [Stmt.exprs, hd]) (by simp [Stmt.parts])
    · exact h.exprs.mono fun d hd => by simp [Stmt.exprs, show d ∈ post.parts from hd]
  | foreach value position iterable body span =>
    have hbody : C.Admits (Stmt.listExprs body.statements) (Stmt.listParts body.statements) := by
      rw [← Block.exprs_eq, ← Block.parts_eq]
      exact h.mono (by simp [Stmt.exprs]) (by simp [Stmt.parts])
    refine hC.bind (ih.expr scope iterable (h.exprs.mono (by simp [Stmt.exprs]))) fun v _ => ?_
    refine hC.bind (hC.iterated iterable.span (List.mem_append_left _ (List.mem_singleton_self v))) fun items _ => ?_
    refine hC.forEach (List.subset_append_left items _) (fun i item _ => ?_) 0
    refine hC.inScope body.span fun inner => ?_
    refine hC.bind (hC.bindItem value position i (List.mem_singleton_self item)) fun _ _ => ?_
    exact (ih.stmts inner _ hbody).weaken (List.nil_subset _)
  | imports i => exact hC.pure (.single fun _ _ => hC.defaultFor .null) trivial

private theorem branch_step (ih : C.Obeyed fuel) (scope : ScopeId) (i : IfStmt) (h : C.Admits i.exprs i.parts) :
    C.Flows scope [] (i.exec (fuel + 1) scope) := by
  obtain ⟨condition, consequent, alternate, span⟩ := i
  rw [IfStmt.exprs, IfStmt.parts] at h
  have hconsequent : C.Admits consequent.exprs consequent.parts := h.mono (fun d hd => by simp [hd]) (by simp)
  have halternate : C.Admits alternate.exprs alternate.parts := h.mono (fun d hd => by simp [hd]) (by simp)
  refine hC.bind (ih.expr scope condition (h.exprs.mono (by simp))) fun v _ => ?_
  split
  · exact (ih.block scope consequent hconsequent).weaken (List.nil_subset _)
  · cases alternate with
    | nothing => exact hC.pure (.single fun _ _ => hC.defaultFor .null) trivial
    | elseIf next =>
      exact (ih.branch scope next (by rwa [Alternate.exprs, Alternate.parts] at halternate)).weaken
        (List.nil_subset _)
    | otherwise body =>
      exact (ih.block scope body (by rwa [Alternate.exprs, Alternate.parts] at halternate)).weaken
        (List.nil_subset _)

private theorem loop_step (ih : C.Obeyed fuel) (scope : ScopeId) (condition : Expr) (body : Block)
    (post : Option Expr) (hcondition : C.Allows condition.parts) (hbody : C.Admits body.exprs body.parts)
    (hpost : C.Allows (post.elim [] Expr.parts)) :
    C.Flows scope [] (Stmt.loop (fuel + 1) scope condition body post) := by
  have hagain := ih.loop scope condition body post hcondition hbody hpost
  refine hC.bind (ih.expr scope condition hcondition) fun v _ => ?_
  split
  · refine hC.bind ((ih.block scope body hbody).weaken (List.nil_subset _)) fun flow _ => ?_
    cases flow with
    | returned v => exact hC.pure (.of_subset (by simp [Flow.value])) trivial
    | normal _ =>
      cases post with
      | some e =>
        refine hC.bind ((ih.expr scope e hpost).weaken (List.nil_subset _)) fun _ _ => ?_
        exact hagain.weaken (List.nil_subset _)
      | none => exact hagain.weaken (List.nil_subset _)
  · exact hC.pure (.single fun _ _ => hC.defaultFor .null) trivial

/-- Every evaluation obeys a lawful contract, by induction on the fuel. -/
theorem obeyed (fuel : Nat) : C.Obeyed fuel := by
  induction fuel with
  | zero =>
    constructor
    · exact fun _ _ _ => ensures_exhausted
    · exact fun _ _ _ _ _ => ensures_exhausted
    · exact fun _ _ _ => ensures_exhausted
    · exact fun _ _ _ => ensures_exhausted
    · exact fun _ _ _ => ensures_exhausted
    · exact fun _ _ _ => ensures_exhausted
    · exact fun _ _ _ => ensures_exhausted
    · exact fun _ _ _ _ _ _ _ => ensures_exhausted
  | succ fuel ih =>
    constructor
    · exact hC.expr_step ih
    · exact hC.field_step ih
    · intro scope ss h
      exact hC.statements (fun st hst => ih.stmt scope st (h.of_list hst)) (.single fun _ _ => hC.defaultFor .null)
    · exact hC.stmt_step ih
    · exact hC.initial_step ih
    · intro scope b h
      rw [Block.exprs_eq, Block.parts_eq] at h
      exact hC.inScope b.span fun inner => ih.stmts inner _ h
    · exact hC.branch_step ih
    · exact hC.loop_step ih

/-- A program that is run where the invariant holds ends as the contract asks.  By default nothing is asked of its
statements. -/
theorem run (p : Program) (h : C.Allows p.exprs) (fuel : Nat) {s : Session} (hs : s.Sound) (hinv : C.inv s)
    (hstmt : ∀ st ∈ Stmt.listParts p.contents, C.stmt st := by exact fun _ _ => trivial) :
    (p.run fuel s).Obeys C s (fun v => [v]) fun _ => True := by
  have hrun := (hC.obeyed fuel).stmts s.scopes.root p.contents ⟨h, hstmt⟩ s hs hs.nested.isAlive_root hinv (by simp)
  unfold Program.run
  cases hp : Stmt.execAll fuel s.scopes.root p.contents s with
  | done flow t =>
    rw [hp] at hrun
    exact hrun
  | failed e t =>
    rw [hp] at hrun
    exact hrun
  | exhausted t =>
    rw [hp] at hrun
    exact hrun

end Lawful

end Contract

/-! ### Sessions that can come about -/

/-- If the invariant outlasts errors, it holds however a computation has ended. -/
theorem Outcome.Obeys.inv {α : Type} {C : Contract} {s : Session} {vals : α → List Value} {Q : α → Prop}
    {o : Outcome α} (h : o.Obeys C s vals Q) (hfault : ∀ e t, C.fault e t → C.inv t) : C.inv o.session := by
  cases o with
  | done a t => exact h.2.1
  | failed e t => exact hfault e t h.2
  | exhausted t => exact h

theorem Session.events_fresh (builtins : Registry) (maxDepth : Nat) (output : Output) :
    (Session.fresh builtins maxDepth output).events = [.state .initial 0] := Ghost.get_of _

theorem Ghost.is_map {α β : Type} {g : Ghost α} {a : α} {f : α → β} (h : g.Is a) : (g.map f).Is (f a) := ⟨a, h, rfl⟩

/-- The events of a given session can be listed one after the other, by `Ghost.is_map`. -/
theorem Session.events_of_timeline {P : List Event → Prop} {s : Session} {es : List Event} (h : s.timeline.Is es)
    (hP : P es) : P s.events := by
  rw [Ghost.is_iff.1 h] at hP
  exact hP

/-- The sessions that can come about with built-in functions that are `ok`. -/
inductive Session.ReachableBy (ok : Builtin → Prop) : Session → Prop
  | fresh {builtins : Registry} (maxDepth : Nat) (output : Output) (h : ∀ b ∈ builtins.entries, ok b) :
    ReachableBy ok (.fresh builtins maxDepth output)
  | register {s : Session} {b : Builtin} (h : ok b) :
    ReachableBy ok s → ReachableBy ok { s with builtins := s.builtins.register b }
  | redirect {s : Session} (output : Output) : ReachableBy ok s → ReachableBy ok { s with output }
  | run {s t : Session} (p : Program) (fuel : Nat) :
    ReachableBy ok s → (p.run fuel s).session? = some t → ReachableBy ok t

theorem Session.Reachable.by_any {s : Session} (h : s.Reachable) : s.ReachableBy fun _ => True := by
  induction h with
  | fresh builtins maxDepth output => exact .fresh maxDepth output fun _ _ => trivial
  | register b _ ih => exact .register trivial ih
  | redirect output _ ih => exact .redirect output ih
  | run p fuel _ h ih => exact .run p fuel ih h

theorem Session.ReachableBy.reachable {ok : Builtin → Prop} {s : Session} (h : s.ReachableBy ok) : s.Reachable := by
  induction h with
  | fresh maxDepth output _ => exact .fresh _ maxDepth output
  | register _ _ ih => exact .register _ ih
  | redirect output _ ih => exact .redirect output ih
  | run p fuel _ h ih => exact .run p fuel ih h

/-- An invariant of all programs holds of every session that can come about, if it holds at the start. -/
theorem Contract.Lawful.reachable {C : Contract} (hC : C.Lawful) {ok : Builtin → Prop}
    (hcode : ∀ p : Program, C.Admits p.exprs (Stmt.listParts p.contents)) (hfault : ∀ e t, C.fault e t → C.inv t)
    (hfresh : ∀ (builtins : Registry) maxDepth output, (∀ b ∈ builtins.entries, ok b) →
      C.inv (.fresh builtins maxDepth output))
    (hregister : ∀ (s : Session) b, ok b → C.inv s → C.inv { s with builtins := s.builtins.register b })
    {s : Session} (hs : s.ReachableBy ok) : C.inv s := by
  induction hs with
  | fresh maxDepth output h => exact hfresh _ maxDepth output h
  | register h _ ih => exact hregister _ _ h ih
  | redirect output _ ih => exact hC.output output ih
  | @run s t p fuel hs ht ih =>
    have hobeys := hC.run p (hcode p).exprs fuel hs.reachable.sound ih (hcode p).stmts
    have hinv := hobeys.inv hfault
    cases hrun : p.run fuel s with
    | done v u =>
      rw [hrun] at ht hinv
      cases ht
      exact hinv
    | failed e u =>
      rw [hrun] at ht hinv
      cases ht
      exact hinv
    | exhausted u =>
      rw [hrun] at ht
      cases ht

end BraceScript
