import BraceScript.Proofs.Outline
import BraceScript.Proofs.Steps

/-!
# Places of runtime errors

An evaluation reports an error at a place of the code that it is running: of the expression or statement that it was
asked to evaluate, or of a function that it has called on the way.  `Eval.Blames P x` says that all errors of `x` are
at places with the property `P`, provided that the code of the functions that `x` calls has such places only.  The
induction over the evaluators is made for all properties at once (`Eval.blamed`), because a function that is called
may have other places.
-/

namespace BraceScript

namespace Outline

variable {S : Span → Prop}

@[simp] theorem all_node_iff {span : Span} {rows : List (List Outline)} :
    All S (node span rows) ↔ S span ∧ ∀ row ∈ rows, ∀ o ∈ row, All S o := by
  constructor
  · rintro ⟨hspan, hrows⟩
    exact ⟨hspan, hrows⟩
  · rintro ⟨hspan, hrows⟩
    exact .node hspan hrows

@[simp] private theorem all_leaf_iff {span : Span} : All S (leaf span) ↔ S span := by
  simp [leaf]

private theorem all_true : ∀ o : Outline, All (fun _ => True) o
  | node span rows => by
    refine .node trivial fun row hrow o ho => ?_
    have hsize : sizeOf o < sizeOf (node span rows) := by
      have hrows := List.sizeOf_lt_of_mem hrow
      have hitems := List.sizeOf_lt_of_mem ho
      simp only [node.sizeOf_spec]
      omega
    exact all_true o
termination_by o => sizeOf o
decreasing_by exact hsize

end Outline

theorem Block.all_outline {P : Span → Prop} {b : Block} :
    b.outline.All P ↔ P b.span ∧ ∀ st ∈ b.statements, st.outline.All P := by
  obtain ⟨statements, span⟩ := b
  simp [Block.outline, Stmt.listOutlines_eq]

theorem FunctionDecl.all_outline {P : Span → Prop} {d : FunctionDecl} (h : d.outline.All P) :
    P d.name.span ∧ (∀ p ∈ d.params, P p.name.span) ∧ ∀ st ∈ d.body.statements, st.outline.All P := by
  obtain ⟨name, params, returnType, body, span⟩ := d
  obtain ⟨-, hname, hrest⟩ : P span ∧ P name.span ∧ ∀ o ∈ Param.outlines params ++ [body.outline], o.All P := by
    simpa [FunctionDecl.outline] using h
  obtain ⟨hparams, hbody⟩ := List.forall_mem_append.1 hrest
  refine ⟨hname, fun p hp => ?_, (Block.all_outline.1 (hbody body.outline (by simp))).2⟩
  exact (hparams _ (List.mem_map_of_mem hp)).self

theorem IfStmt.all_outline {P : Span → Prop} {i : IfStmt} (h : i.outline.All P) :
    i.condition.outline.All P ∧ i.consequent.outline.All P ∧ ∀ o ∈ i.alternate.outlines, o.All P := by
  obtain ⟨condition, consequent, alternate, span⟩ := i
  obtain ⟨-, hrest⟩ : P span ∧ condition.outline.All P ∧ consequent.outline.All P ∧
      ∀ o ∈ alternate.outlines, o.All P := by
    simpa [IfStmt.outline] using h
  exact hrest

private theorem Expr.span_of_all {P : Span → Prop} {e : Expr} (h : e.outline.All P) : P e.span := by
  rw [← Expr.span_outline]
  exact h.self

/-! ### Computations -/

/-- If the computation, started in `s`, has failed, then at a place with the property `P`, or it has called a
function whose code has a place without it. -/
def Outcome.Blames {α : Type} (P : Span → Prop) (s : Session) : Outcome α → Prop
  | .done _ t => s.events <:+ t.events
  | .failed e t => ∃ new, t.events = new ++ s.events ∧
      ((∀ d closure, .called d closure true ∈ new → d.outline.All P) → P e.span)
  | .exhausted _ => True

/-- All errors of the computation are at places with the property `P`, if the functions that it calls have only such
places. -/
def Eval.Blames {α : Type} (P : Span → Prop) (x : Eval α) : Prop := ∀ s, (x s).Blames P s

namespace Outcome.Blames

variable {α : Type} {P : Span → Prop} {s t : Session}

private theorem onward {o : Outcome α} (h : o.Blames P t) (hst : s.events <:+ t.events) : o.Blames P s := by
  cases o with
  | done a u => exact hst.trans h
  | failed e u =>
    obtain ⟨between, hbetween⟩ := hst
    obtain ⟨new, hnew, hspan⟩ := h
    refine ⟨new ++ between, by rw [hnew, ← hbetween, List.append_assoc], fun hcalled =>
      hspan fun d closure hmem => ?_⟩
    exact hcalled d closure (List.mem_append_left _ hmem)
  | exhausted u => trivial

private theorem later {e : RuntimeError} {u : Session} (h : (failed e t : Outcome α).Blames P s)
    (htu : t.events <:+ u.events) : (failed e u : Outcome α).Blames P s := by
  obtain ⟨after, hafter⟩ := htu
  obtain ⟨new, hnew, hspan⟩ := h
  refine ⟨after ++ new, by rw [← hafter, hnew, List.append_assoc], fun hcalled => hspan fun d closure hmem => ?_⟩
  exact hcalled d closure (List.mem_append_right _ hmem)

private theorem failed {cause : RuntimeError.Cause} {span : Span} (hspan : P span) (hst : s.events <:+ t.events) :
    (failed ⟨cause, span⟩ t : Outcome α).Blames P s := by
  obtain ⟨new, hnew⟩ := hst
  exact ⟨new, hnew.symm, fun _ => hspan⟩

end Outcome.Blames

namespace Eval

variable {α β : Type} {P : Span → Prop} {x : Eval α} {f : α → Eval β} {span : Span} {scope : ScopeId}

/-! ### Rules -/

namespace Blames

private theorem pure (a : α) : Blames P (Pure.pure a : Eval α) := fun _ => List.suffix_rfl

private theorem exhausted : Blames P (Eval.exhausted : Eval α) := fun _ => trivial

private theorem fail (cause : RuntimeError.Cause) (h : P span) : Blames P (Eval.fail cause span : Eval α) :=
  fun _ => .failed h List.suffix_rfl

private theorem record (e : Event) : Blames P (Eval.record e) := fun s => s.suffix_note e

private theorem bind (hx : Blames P x) (hf : ∀ a, Blames P (f a)) : Blames P (x >>= f) := by
  intro s
  have h := hx s
  cases hxs : x s with
  | done a t =>
    rw [hxs] at h
    rw [bind_of_done hxs]
    exact (hf a t).onward h
  | failed e t =>
    rw [hxs] at h
    rw [bind_of_failed hxs]
    exact h
  | exhausted t =>
    rw [bind_of_exhausted hxs]
    trivial

private theorem ofExcept (r : Except RuntimeError.Cause α) (h : P span) : Blames P (Eval.ofExcept span r) := by
  cases r with
  | ok a => exact .pure a
  | error cause => exact .fail cause h

private theorem checked (r : Except Mismatch α) (h : P span) : Blames P (Eval.checked span r) := by
  cases r with
  | ok a => exact .pure a
  | error m => exact .fail _ h

private theorem located {r : Except RuntimeError α} (h : ∀ e, r = .error e → P e.span) :
    Blames P (Eval.located r) := by
  cases r with
  | ok a => exact .pure a
  | error e => exact .fail _ (h e rfl)

private theorem query (name : String) (g : Scopes → Except ScopeError α) (h : P span) :
    Blames P (Eval.query name span g) := by
  intro s
  unfold Eval.query
  split
  · exact List.suffix_rfl
  · exact .failed h List.suffix_rfl

private theorem change (name : String) (g : Scopes → Except ScopeError Scopes) (h : P span) :
    Blames P (Eval.change name span g) := by
  intro s
  unfold Eval.change
  split
  · exact s.suffix_moveTo _ _
  · exact .failed h List.suffix_rfl

private theorem replace (name : Ident) (value : Value) (h : P name.span) :
    Blames P (Eval.replace scope name value) := by
  intro s
  unfold Eval.replace
  split
  · exact s.suffix_note_moveTo _ _ _
  · exact .failed h List.suffix_rfl

private theorem inScope {body : ScopeId → Eval α} (h : P span) (hbody : ∀ id, Blames P (body id)) :
    Blames P (Eval.inScope scope span body) := by
  intro s
  have hinner := hbody (s.scopes.push scope).2 (s.entered scope)
  have hstart := hinner.onward (s.suffix_entered scope)
  rw [inScope_eq]
  split
  · trivial
  · rename_i a t hrun
    rw [hrun] at hstart
    have hleft := hstart.trans (suffix_leave (s.scopes.push scope).2 t)
    split
    · rename_i u hleave
      rw [hleave] at hleft
      exact hleft
    · rename_i e u hleave
      rw [hleave] at hleft
      exact .failed h hleft
  · rename_i e t hrun
    rw [hrun] at hstart
    exact hstart.later (suffix_leave _ t)

private theorem deeper (hx : Blames P x) : Blames P (Eval.deeper x) := by
  intro s
  have hstart := (hx (s.moveTo s.scopes (s.depth + 1))).onward (s.suffix_moveTo _ _)
  unfold Eval.deeper
  split
  · trivial
  · rename_i a t hrun
    rw [hrun] at hstart
    exact hstart.trans (t.suffix_moveTo _ _)
  · rename_i e t hrun
    rw [hrun] at hstart
    exact hstart.later (t.suffix_moveTo _ _)

private theorem each {g : α → Eval β} {as : List α} (h : ∀ a ∈ as, Blames P (g a)) : Blames P (Eval.each g as) := by
  induction as with
  | nil => exact .pure []
  | cons a as ih =>
    obtain ⟨ha, has⟩ := List.forall_mem_cons.1 h
    exact ha.bind fun b => (ih has).bind fun bs => .pure _

private theorem statements {exec : Stmt → Eval Flow} {ss : List Stmt} (h : ∀ st ∈ ss, Blames P (exec st))
    (last : Value) : Blames P (Eval.statements exec last ss) := by
  induction ss generalizing last with
  | nil => exact .pure _
  | cons st ss ih =>
    obtain ⟨hst, hss⟩ := List.forall_mem_cons.1 h
    refine hst.bind fun flow => ?_
    cases flow with
    | normal v => exact ih hss v
    | returned v => exact .pure _

private theorem forEach {body : UInt64 → Value → Eval Flow} (h : ∀ i v, Blames P (body i v)) (i : UInt64)
    (items : List Value) : Blames P (Eval.forEach body i items) := by
  induction items generalizing i with
  | nil => exact .pure _
  | cons v vs ih =>
    refine (h i v).bind fun flow => ?_
    cases flow with
    | normal _ => exact ih (i + 1)
    | returned v => exact .pure _

/-! ### Steps of the evaluators -/

private theorem lookup (id : Ident) (h : P id.span) : Blames P (Eval.lookup scope id) := by
  intro s
  unfold Eval.lookup
  split
  · exact List.suffix_rfl
  · split
    · exact List.suffix_rfl
    · exact .failed h List.suffix_rfl
  · exact .failed h List.suffix_rfl

private theorem structNamed (name : Ident) (h : P name.span) : Blames P (Eval.structNamed scope name) := by
  intro s
  unfold Eval.structNamed
  split
  · exact List.suffix_rfl
  · exact .failed h List.suffix_rfl
  · exact .failed h List.suffix_rfl

private theorem declare (name : Ident) (value : Value) (isConstant : Bool) (h : P name.span) :
    Blames P (Eval.declare scope name value isConstant) := .change _ _ h

private theorem introduce (name : Ident) (type : Ty) (value : Value) (isConstant : Bool) (h : P name.span) :
    Blames P (Eval.introduce scope name type value isConstant) :=
  (declare name value isConstant h).bind fun _ => .record _

private theorem store (id : Ident) (value : Value) (hid : P id.span) (h : P span) :
    Blames P (Eval.store scope id value span) := by
  refine (query _ _ h).bind fun old => (query _ _ h).bind fun constant => ?_
  cases constant with
  | true => exact .fail _ hid
  | false => exact (checked _ h).bind fun new => (replace _ _ hid).bind fun _ => .pure new

private theorem storeStep (op : Located UnaryOp) (operand : Expr) (new : Value) (hop : P op.span)
    (h : operand.outline.All P) : Blames P (Eval.storeStep scope op operand new) := by
  have hid : ∀ id, operand = .ident id → P id.span := by
    rintro id rfl
    exact h.self
  unfold Eval.storeStep
  split
  · exact .store _ _ (hid _ rfl) hop
  · exact .store _ _ (hid _ rfl) hop
  · exact .pure _

end Blames

end Eval

/-! ### Assignments -/

/-- The names of a path stand in the expression. -/
private theorem Expr.spans_of_path? {P : Span → Prop} :
    ∀ (e : Expr) {root : Ident} {names : List Ident}, e.outline.All P →
    e.path? = some (root, names) → P root.span ∧ ∀ name ∈ names, P name.span
  | .ident id, root, names, h, hpath => by
    obtain ⟨rfl, rfl⟩ := Prod.mk.inj (Option.some.inj hpath)
    exact ⟨h.self, by simp⟩
  | .property object name span, root, names, h, hpath => by
    obtain ⟨-, hobject, hname⟩ : P span ∧ object.outline.All P ∧ P name.span := by simpa [Expr.outline] using h
    obtain ⟨⟨root', names'⟩, hinner, heq⟩ := Option.map_eq_some_iff.1 hpath
    obtain ⟨rfl, rfl⟩ := Prod.mk.inj heq
    obtain ⟨hroot, hnames⟩ := Expr.spans_of_path? object hobject hinner
    refine ⟨hroot, fun n hn => ?_⟩
    rcases List.mem_append.1 hn with hn | hn
    · exact hnames n hn
    · rw [List.mem_singleton.1 hn]
      exact hname
  | .literal .., _, _, _, hpath | .unary .., _, _, _, hpath | .binary .., _, _, _, hpath | .assign .., _, _, _, hpath
  | .call .., _, _, _, hpath | .build .., _, _, _, hpath | .array .., _, _, _, hpath
  | .index .., _, _, _, hpath => by
    cases hpath

namespace Value

variable {op : Located AssignOp} {old new object : Value} {span : Span} {e : RuntimeError}

private theorem span_of_newProperty {t : Ty} (h : newProperty t op old new span = .error e) :
    e.span = op.span ∨ e.span = span := by
  cases hc : op.value.apply old new with
  | error cause =>
    rw [newProperty, hc] at h
    cases h
    exact .inl rfl
  | ok combined =>
    simp only [newProperty, hc, Located.reported, bind, Except.bind] at h
    split at h <;> cases h
    exact .inr rfl

/-- An assignment through a path fails at the operator, at the new value or at one of the names. -/
private theorem span_of_setProperty {path : List Ident} (h : setProperty op new span path object = .error e) :
    e.span = op.span ∨ e.span = span ∨ ∃ name ∈ path, e.span = name.span := by
  induction path generalizing object with
  | nil =>
    simp only [setProperty] at h
    cases h
    exact .inr (.inl rfl)
  | cons name rest ih =>
    have hname : e.span = name.span → e.span = op.span ∨ e.span = span ∨ ∃ n ∈ name :: rest, e.span = n.span :=
      fun heq => .inr (.inr ⟨name, List.mem_cons_self, heq⟩)
    cases object with
    | struct d fields =>
      simp only [setProperty] at h
      split at h
      · rename_i p old hp hold
        cases rest with
        | nil =>
          dsimp only at h
          split at h
          · cases h
            exact hname rfl
          · cases hn : newProperty p.type op old new span with
            | ok v =>
              rw [hn] at h
              cases h
            | error e' =>
              rw [hn] at h
              cases h
              exact (span_of_newProperty hn).imp id .inl
        | cons next rest =>
          cases hi : setProperty op new span (next :: rest) old with
          | ok r =>
            simp only [hi] at h
            cases h
          | error e' =>
            simp only [hi] at h
            cases h
            refine (ih hi).imp id (Or.imp id ?_)
            rintro ⟨n, hn, heq⟩
            exact ⟨n, List.mem_cons_of_mem _ hn, heq⟩
      · cases h
        exact hname rfl
    | _ =>
      simp only [setProperty] at h
      cases h
      exact .inr (.inl rfl)

private theorem span_of_readProperty {name : Ident} (h : object.readProperty name = .error e) :
    e.span = name.span := by
  unfold readProperty at h
  split at h
  · split at h <;> cases h
    rfl
  · cases h
    rfl

end Value

namespace Eval.Blames

variable {P : Span → Prop} {span : Span} {scope : ScopeId}

private theorem assignTo (target : Expr) (op : Located AssignOp) (new : Value) (htarget : target.outline.All P)
    (hop : P op.span) (h : P span) : Blames P (Eval.assign scope target op new span) := by
  have hself : P target.span := Expr.span_of_all htarget
  unfold Eval.assign
  split
  · rename_i id
    have hid : P id.span := htarget.self
    split
    · exact .store id _ hid h
    · exact (query _ _ h).bind fun old => (ofExcept _ hop).bind fun combined => .store id _ hid h
  · split
    · exact .fail _ hself
    · rename_i root path hpath
      obtain ⟨hroot, hnames⟩ := Expr.spans_of_path? _ htarget hpath
      refine (query _ _ h).bind fun object => Blames.bind (located fun e he => ?_) fun changed => ?_
      · rcases Value.span_of_setProperty he with heq | heq | ⟨name, hname, heq⟩
        · rwa [heq]
        · rwa [heq]
        · rw [heq]
          exact hnames name hname
      · exact (replace _ _ hroot).bind fun _ => .pure _
  · exact .fail _ hself

private theorem settable (struct : String) (d : StructDecl) (name : Ident) (h : P name.span) :
    Blames P (Eval.settable struct d name) := by
  unfold Eval.settable
  split
  · exact .fail _ h
  · split
    · exact .fail _ h
    · exact .pure _

private theorem index (base : Ident) (collection position : Value) (hbase : P base.span) (h : P span) :
    Blames P (Eval.index base collection position span) := by
  unfold Eval.index
  split
  · split
    · exact .ofExcept _ h
    · exact .ofExcept _ h
    · exact .fail _ hbase
  · exact .fail _ h

private theorem iterated (v : Value) (h : P span) : Blames P (Eval.iterated v span) := by
  unfold Eval.iterated
  split
  · exact .pure _
  · exact .pure _
  · exact .fail _ h

private theorem callBuiltin (name : String) (args : List Value) (h : P span) :
    Blames P (Eval.callBuiltin name args span) := by
  intro s
  unfold Eval.callBuiltin
  split
  · exact .failed h List.suffix_rfl
  · split
    · exact .failed h List.suffix_rfl
    · split
      · exact List.suffix_rfl
      · exact .failed h List.suffix_rfl

private theorem bindItem (value : Ident) (position : Option Ident) (i : UInt64) (v : Value) (hvalue : P value.span)
    (hposition : ∀ id, position = some id → P id.span) : Blames P (Eval.bindItem scope value position i v) := by
  refine (declare value v false hvalue).bind fun _ => ?_
  cases position with
  | none => exact .pure ()
  | some id => exact .declare id _ false (hposition id rfl)

private theorem declareVariable (d : VariableDecl) (v : Value) (h : P d.name.span) :
    Blames P (Eval.declareVariable scope d v) := by
  unfold Eval.declareVariable
  split
  · exact .introduce _ _ _ _ h
  · exact .declare _ _ _ h

private theorem declareFunction (d : FunctionDecl) (h : P d.name.span) : Blames P (Eval.declareFunction scope d) :=
  (declare d.name _ true h).bind fun _ => (record _).bind fun _ => .pure _

private theorem yields {e : Expr} {x : Eval Value} (h : Blames P x) : Blames P (Eval.yields e x) :=
  h.bind fun _ => (record _).bind fun _ => .pure _

/-! ### Calls -/

private theorem callable (d : FunctionDecl) (closure : ScopeId) (args : Nat) (h : P span) :
    Blames P (Eval.callable d closure args span) := by
  intro s
  unfold Eval.callable
  split
  · exact .failed h List.suffix_rfl
  · split
    · exact .failed h List.suffix_rfl
    · split
      · exact s.suffix_note _
      · exact .failed h (s.suffix_note _)

private theorem bindParams (function : String) (frame : ScopeId) {ps : List Param} (hps : ∀ p ∈ ps, P p.name.span)
    (h : P span) (vs : List Value) : Blames P (Eval.bindParams function frame span ps vs) := by
  induction ps generalizing vs with
  | nil => exact .pure ()
  | cons p ps ih =>
    obtain ⟨hp, hps⟩ := List.forall_mem_cons.1 hps
    cases vs with
    | nil => exact .pure ()
    | cons v vs => exact (checked _ h).bind fun w => (introduce _ _ _ _ hp).bind fun _ => ih hps vs

private theorem result (d : FunctionDecl) (flow : Flow) (h : P span) : Blames P (Eval.result d span flow) := by
  unfold Eval.result
  split
  · exact .checked _ h
  · split
    · exact .pure _
    · exact .pure _
    · exact .fail _ h

private theorem callable_eq_done {d : FunctionDecl} {closure : ScopeId} {args : Nat} {s t : Session}
    (h : Eval.callable d closure args span s = .done () t) : t = s.note (.called d closure true) := by
  unfold Eval.callable at h
  split at h
  · cases h
  · split at h
    · cases h
    · split at h <;> cases h
      rfl

/-- A call of a function with other places than `P` may fail anywhere in it.  Such a call is among the events. -/
private theorem callFunction (d : FunctionDecl) (closure : ScopeId) (args : List Value) {body : ScopeId → Eval Flow}
    (h : P span) (hbody : ∀ {Q : Span → Prop} frame, d.outline.All Q → Blames Q (body frame)) :
    Blames P (Eval.callFunction d closure args span body) := by
  have hcall : ∀ {Q : Span → Prop}, Q span → d.outline.All Q →
      Blames Q (Eval.deeper (Eval.inScope closure span fun frame => do
        Eval.bindParams d.name.name frame span d.params args
        body frame) >>= Eval.result d span) := by
    intro Q hspan hd
    refine (deeper (inScope hspan fun frame => ?_)).bind fun flow => .result d flow hspan
    exact (bindParams _ _ (FunctionDecl.all_outline hd).2.1 hspan _).bind fun _ => hbody frame hd
  by_cases hd : d.outline.All P
  · exact (callable d closure _ h).bind fun _ => hcall h hd
  · intro s
    have hstart := callable d closure args.length h s
    unfold Eval.callFunction
    cases hc : Eval.callable d closure args.length span s with
    | failed e t =>
      rw [hc] at hstart
      rw [bind_of_failed hc]
      exact hstart
    | exhausted t =>
      rw [bind_of_exhausted hc]
      trivial
    | done _ t =>
      rw [bind_of_done hc]
      obtain rfl : t = s.note (.called d closure true) := callable_eq_done hc
      have hrest := hcall (Q := fun _ => True) trivial (Outline.all_true _) (s.note (.called d closure true))
      revert hrest
      generalize (Eval.deeper _ >>= _) (s.note (.called d closure true)) = o
      intro hrest
      cases o with
      | done v u =>
        exact (Session.suffix_note _ _).trans hrest
      | failed e u =>
        obtain ⟨new, hnew, -⟩ := hrest
        refine ⟨new ++ [.called d closure true], ?_, fun hcalled => absurd (hcalled d closure (by simp)) hd⟩
        rw [hnew, Session.events_note, List.append_assoc]
        rfl
      | exhausted u => trivial

end Eval.Blames

/-! ### Evaluators -/

namespace Eval

/-- What is known of the errors of the evaluators with the given fuel. -/
structure Blamed (fuel : Nat) : Prop where
  expr : ∀ {P : Span → Prop} scope (e : Expr), e.outline.All P → Blames P (e.eval fuel scope)
  field : ∀ {P : Span → Prop} scope struct d (f : Ident × Expr), P f.1.span → f.2.outline.All P →
    Blames P (Expr.evalField fuel scope struct d f)
  stmts : ∀ {P : Span → Prop} scope (ss : List Stmt), (∀ st ∈ ss, st.outline.All P) →
    Blames P (Stmt.execAll fuel scope ss)
  stmt : ∀ {P : Span → Prop} scope (st : Stmt), st.outline.All P → Blames P (st.exec fuel scope)
  initial : ∀ {P : Span → Prop} scope (d : VariableDecl), d.outline.All P → Blames P (d.initial fuel scope)
  block : ∀ {P : Span → Prop} scope (b : Block), b.outline.All P → Blames P (b.exec fuel scope)
  branch : ∀ {P : Span → Prop} scope (i : IfStmt), i.outline.All P → Blames P (i.exec fuel scope)
  loop : ∀ {P : Span → Prop} scope (condition : Expr) (body : Block) (post : Option Expr), condition.outline.All P →
    body.outline.All P → (∀ e, post = some e → e.outline.All P) → Blames P (Stmt.loop fuel scope condition body post)

variable {P : Span → Prop} {fuel : Nat}

private theorem blames_expr (ih : Blamed fuel) (scope : ScopeId) (e : Expr) (h : e.outline.All P) :
    Blames P (e.eval (fuel + 1) scope) := by
  cases e with
  | ident id => exact .yields (.lookup id h.self)
  | literal l span => exact .yields (.pure _)
  | unary op operand side span =>
    obtain ⟨hop, hoperand⟩ : P op.span ∧ operand.outline.All P := by
      cases side with
      | before => simpa [Expr.outline] using (Outline.all_node_iff.1 h).2
      | after => simpa [Expr.outline, and_comm] using (Outline.all_node_iff.1 h).2
    refine .yields ((ih.expr scope operand hoperand).bind fun v => ?_)
    exact (Blames.ofExcept _ hop).bind fun new => .storeStep op operand new hop hoperand
  | binary op left right span =>
    obtain ⟨-, hleft, hop, hright⟩ : P span ∧ left.outline.All P ∧ P op.span ∧ right.outline.All P := by
      simpa [Expr.outline] using h
    exact .yields ((ih.expr scope left hleft).bind fun a =>
      (ih.expr scope right hright).bind fun b => .ofExcept _ hop)
  | assign target op value span =>
    obtain ⟨-, htarget, hop, hvalue⟩ : P span ∧ target.outline.All P ∧ P op.span ∧ value.outline.All P := by
      simpa [Expr.outline] using h
    exact .yields ((ih.expr scope value hvalue).bind fun new =>
      .assignTo target op new htarget hop (Expr.span_of_all hvalue))
  | call callee arguments span =>
    obtain ⟨hself, hcallee, harguments⟩ : P span ∧ P callee.span ∧ ∀ a ∈ arguments, a.outline.All P := by
      simpa [Expr.outline, Expr.listOutlines_eq] using h
    refine .yields ((Blames.lookup callee hcallee).bind fun target => ?_)
    refine (Blames.each fun a ha => ih.expr scope a (harguments a ha)).bind fun args => ?_
    cases target with
    | function d closure =>
      refine .callFunction d closure args hself fun frame hd => ?_
      exact ih.stmts frame d.body.statements (FunctionDecl.all_outline hd).2.2
    | builtin name => exact .callBuiltin name args hself
    | _ => exact .fail _ hcallee
  | build name fields span =>
    obtain ⟨-, hname, hfields⟩ : P span ∧ P name.span ∧ ∀ o ∈ Expr.fieldOutlines fields, o.All P := by
      simpa [Expr.outline] using h
    refine .yields ((Blames.structNamed name hname).bind fun d =>
      (Blames.each fun f hf => ?_).bind fun values => .pure _)
    rw [Expr.fieldOutlines_eq] at hfields
    have hf' := fun o ho => hfields o (List.mem_flatMap.2 ⟨f, hf, ho⟩)
    exact ih.field scope name.name d f (hf' (.leaf f.1.span) (by simp)).self (hf' f.2.outline (by simp))
  | property object name span =>
    obtain ⟨-, hobject, hname⟩ : P span ∧ object.outline.All P ∧ P name.span := by simpa [Expr.outline] using h
    refine .yields ((ih.expr scope object hobject).bind fun v => .located fun e he => ?_)
    rw [Value.span_of_readProperty he]
    exact hname
  | array elements size span =>
    obtain ⟨-, helements⟩ : P span ∧ ∀ a ∈ elements, a.outline.All P := by
      simpa [Expr.outline, Expr.listOutlines_eq] using h
    exact .yields ((Blames.each fun a ha => ih.expr scope a (helements a ha)).bind fun items => .pure _)
  | index base position span =>
    obtain ⟨-, hbase, hposition⟩ : P span ∧ P base.span ∧ position.outline.All P := by simpa [Expr.outline] using h
    refine .yields ((Blames.lookup base hbase).bind fun collection =>
      (ih.expr scope position hposition).bind fun p => ?_)
    exact .index base collection p hbase (Expr.span_of_all hposition)

private theorem blames_field (ih : Blamed fuel) (scope : ScopeId) (struct : String) (d : StructDecl)
    (f : Ident × Expr) (hname : P f.1.span) (h : f.2.outline.All P) :
    Blames P (Expr.evalField (fuel + 1) scope struct d f) := by
  obtain ⟨name, e⟩ := f
  have hspan : P e.span := Expr.span_of_all h
  refine (Blames.settable struct d name hname).bind fun p => (ih.expr scope e h).bind fun v => ?_
  exact (Blames.checked _ hspan).bind fun w => .pure _

private theorem blames_initial (ih : Blamed fuel) (scope : ScopeId) (d : VariableDecl) (h : d.outline.All P) :
    Blames P (d.initial (fuel + 1) scope) := by
  have hvalue : ∀ e, d.value = some e → e.outline.All P := by
    intro e he
    exact (Outline.all_node_iff.1 h).2 _ List.mem_cons_self _ (by simp [he])
  unfold VariableDecl.initial
  split
  · rename_i e t he ht
    have hspan : P e.span := Expr.span_of_all (hvalue e he)
    exact (ih.expr scope e (hvalue e he)).bind fun v => .checked _ hspan
  · rename_i e he ht
    exact ih.expr scope e (hvalue e he)
  · exact .pure _
  · exact .pure _

private theorem blames_stmt (ih : Blamed fuel) (scope : ScopeId) (st : Stmt) (h : st.outline.All P) :
    Blames P (st.exec (fuel + 1) scope) := by
  cases st with
  | expression e span =>
    obtain ⟨-, he⟩ : P span ∧ e.outline.All P := by simpa [Stmt.outline] using h
    exact (ih.expr scope e he).bind fun v => .pure _
  | block body => exact ih.block scope body (by rwa [Stmt.outline] at h)
  | declare d =>
    rw [Stmt.outline] at h
    have hname : P d.name.span := ((Outline.all_node_iff.1 h).2 _ List.mem_cons_self _ List.mem_cons_self).self
    exact (ih.initial scope d h).bind fun v => (Blames.declareVariable d v hname).bind fun _ => .pure _
  | function d =>
    rw [Stmt.outline] at h
    exact (Blames.declareFunction d (FunctionDecl.all_outline h).1).bind fun f => .pure _
  | ret value span =>
    cases value with
    | none => exact .pure _
    | some e =>
      obtain ⟨-, he⟩ : P span ∧ e.outline.All P := by simpa [Stmt.outline] using h
      exact (ih.expr scope e he).bind fun v => .pure _
  | branch s => exact ih.branch scope s (by rwa [Stmt.outline] at h)
  | struct d =>
    rw [Stmt.outline] at h
    have hname : P d.name.span := ((Outline.all_node_iff.1 h).2 _ List.mem_cons_self _ List.mem_cons_self).self
    exact (Blames.change _ _ hname).bind fun _ => .pure _
  | whileLoop condition body span =>
    obtain ⟨-, hcondition, hbody⟩ : P span ∧ condition.outline.All P ∧ body.outline.All P := by
      simpa [Stmt.outline] using h
    exact ih.loop scope condition body none hcondition hbody (by simp)
  | forLoop counter init condition post body span =>
    obtain ⟨hspan, hcounter, hinit, hcondition, hpost, hbody⟩ : P span ∧ P counter.span ∧ init.outline.All P ∧
        condition.outline.All P ∧ post.outline.All P ∧ body.outline.All P := by
      simpa [Stmt.outline] using h
    rw [Stmt.exec]
    refine .inScope hspan fun outer => (ih.expr outer init hinit).bind fun v => ?_
    refine (Blames.declare counter v false hcounter).bind fun _ =>
      ih.loop outer condition body (some post) hcondition hbody ?_
    rintro e ⟨⟩
    exact hpost
  | foreach value position iterable body span =>
    obtain ⟨-, hvalue, hposition, hiterable, hbody⟩ : P span ∧ P value.span ∧
        (∀ id, position = some id → P id.span) ∧
        iterable.outline.All P ∧ body.outline.All P := by
      cases position <;> simpa [Stmt.outline] using h
    obtain ⟨hspan, hstatements⟩ := Block.all_outline.1 hbody
    have hitems : P iterable.span := Expr.span_of_all hiterable
    refine (ih.expr scope iterable hiterable).bind fun v => (Blames.iterated v hitems).bind fun items => ?_
    refine .forEach (fun i item => .inScope hspan fun inner => ?_) 0 items
    exact (Blames.bindItem value position i item hvalue hposition).bind fun _ => ih.stmts inner _ hstatements
  | imports i => exact .pure _

private theorem blames_branch (ih : Blamed fuel) (scope : ScopeId) (i : IfStmt) (h : i.outline.All P) :
    Blames P (i.exec (fuel + 1) scope) := by
  obtain ⟨hcondition, hconsequent, halternate⟩ := IfStmt.all_outline h
  obtain ⟨condition, consequent, alternate, span⟩ := i
  refine (ih.expr scope condition hcondition).bind fun v => ?_
  split
  · exact ih.block scope consequent hconsequent
  · cases alternate with
    | nothing => exact .pure _
    | elseIf next => exact ih.branch scope next (halternate _ (by simp [Alternate.outlines]))
    | otherwise body => exact ih.block scope body (halternate _ (by simp [Alternate.outlines]))

private theorem blames_loop (ih : Blamed fuel) (scope : ScopeId) (condition : Expr) (body : Block)
    (post : Option Expr) (hcondition : condition.outline.All P) (hbody : body.outline.All P)
    (hpost : ∀ e, post = some e → e.outline.All P) : Blames P (Stmt.loop (fuel + 1) scope condition body post) := by
  have hagain : Blames P (Stmt.loop fuel scope condition body post) :=
    ih.loop scope condition body post hcondition hbody hpost
  refine (ih.expr scope condition hcondition).bind fun v => ?_
  split
  · refine (ih.block scope body hbody).bind fun flow => ?_
    cases flow with
    | returned v => exact .pure _
    | normal _ =>
      cases post with
      | some e => exact (ih.expr scope e (hpost e rfl)).bind fun _ => hagain
      | none => exact hagain
  · exact .pure _

/-- By induction on the fuel: every evaluator reports errors at places of its code. -/
theorem blamed (fuel : Nat) : Blamed fuel := by
  induction fuel with
  | zero =>
    constructor
    · exact fun _ _ _ => .exhausted
    · exact fun _ _ _ _ _ _ => .exhausted
    · exact fun _ _ _ => .exhausted
    · exact fun _ _ _ => .exhausted
    · exact fun _ _ _ => .exhausted
    · exact fun _ _ _ => .exhausted
    · exact fun _ _ _ => .exhausted
    · exact fun _ _ _ _ _ _ _ => .exhausted
  | succ fuel ih =>
    constructor
    · exact blames_expr ih
    · exact blames_field ih
    · exact fun scope ss h => .statements (fun st hst => ih.stmt scope st (h st hst)) .null
    · exact blames_stmt ih
    · exact blames_initial ih
    · intro P scope b h
      obtain ⟨hspan, hstatements⟩ := Block.all_outline.1 h
      exact .inScope hspan fun inner => ih.stmts inner _ hstatements
    · exact blames_branch ih
    · exact blames_loop ih

end Eval

/-- A program fails at one of its own places or in a function that it has called. -/
theorem Program.blames_run {P : Span → Prop} {p : Program} (hp : ∀ st ∈ p.contents, st.outline.All P) (fuel : Nat) :
    Eval.Blames P (p.run fuel) := by
  intro s
  have h := (Eval.blamed fuel).stmts s.scopes.root p.contents hp s
  unfold Program.run
  cases hrun : Stmt.execAll fuel s.scopes.root p.contents s with
  | done flow t =>
    rw [hrun] at h
    exact h
  | failed e t =>
    rw [hrun] at h
    exact h
  | exhausted t => trivial

end BraceScript
