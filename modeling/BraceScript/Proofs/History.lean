import BraceScript.Proofs.Nesting

/-!
# History plays no part

No step of a program looks at what has happened before, so an evaluation depends on the state of its session alone:
started in two sessions in the same state, it ends in the same way and in the same state
(`Eval.oblivious_discipline`).  `Eval.Agrees` says the same of two computations, which may report their errors at
different places.
-/

namespace BraceScript

/-- Both sessions are in the same state, whatever has happened in them. -/
structure Session.SameState (s t : Session) : Prop where
  scopes : t.scopes = s.scopes
  builtins : t.builtins = s.builtins
  output : t.output = s.output
  maxDepth : t.maxDepth = s.maxDepth
  depth : t.depth = s.depth

namespace Session.SameState

variable {s t u : Session}

theorem refl (s : Session) : s.SameState s := ⟨rfl, rfl, rfl, rfl, rfl⟩

theorem symm (h : s.SameState t) : t.SameState s :=
  ⟨h.scopes.symm, h.builtins.symm, h.output.symm, h.maxDepth.symm, h.depth.symm⟩

theorem trans (h : s.SameState t) (h' : t.SameState u) : s.SameState u :=
  ⟨h'.scopes.trans h.scopes, h'.builtins.trans h.builtins, h'.output.trans h.output, h'.maxDepth.trans h.maxDepth,
    h'.depth.trans h.depth⟩

private theorem note_left (h : s.SameState t) (e : Event) : (s.note e).SameState t :=
  ⟨h.scopes, h.builtins, h.output, h.maxDepth, h.depth⟩

theorem note_right (h : s.SameState t) (e : Event) : s.SameState (t.note e) :=
  ⟨h.scopes, h.builtins, h.output, h.maxDepth, h.depth⟩

theorem note (h : s.SameState t) (e e' : Event) : (s.note e).SameState (t.note e') := (h.note_left e).note_right e'

private theorem moveTo (h : s.SameState t) (scopes : Scopes) (depth : Nat) :
    (s.moveTo scopes depth).SameState (t.moveTo scopes depth) :=
  ⟨rfl, h.builtins, h.output, h.maxDepth, rfl⟩

end Session.SameState

/-- Both computations end in the same way, in sessions in the same state.  Errors may be reported at different
places. -/
inductive Outcome.Agrees {α : Type} : Outcome α → Outcome α → Prop
  | done {a : α} {s t : Session} (state : s.SameState t) : Agrees (.done a s) (.done a t)
  | failed {e e' : RuntimeError} {s t : Session} (cause : e'.cause = e.cause) (state : s.SameState t) :
      Agrees (.failed e s) (.failed e' t)
  | exhausted (s t : Session) : Agrees (.exhausted s) (.exhausted t)

namespace Outcome.Agrees

variable {α : Type} {o o' : Outcome α} {s : Session}

theorem symm (h : o.Agrees o') : o'.Agrees o := by
  cases h with
  | done state => exact .done state.symm
  | failed cause state => exact .failed cause.symm state.symm
  | exhausted => exact .exhausted _ _

theorem of_done {a : α} (h : o.Agrees o') (ho : o = .done a s) : ∃ t, o' = .done a t ∧ s.SameState t := by
  cases h <;> cases ho
  exact ⟨_, rfl, ‹_›⟩

theorem of_failed {e : RuntimeError} (h : o.Agrees o') (ho : o = .failed e s) :
    ∃ e' t, o' = .failed e' t ∧ e'.cause = e.cause ∧ s.SameState t := by
  cases h <;> cases ho
  exact ⟨_, _, rfl, ‹_›, ‹_›⟩

end Outcome.Agrees

namespace Eval

variable {α β : Type} {x y : Eval α}

/-- From the same state, both computations end alike. -/
def Agrees (x y : Eval α) : Prop := ∀ s t : Session, s.SameState t → (x s).Agrees (y t)

theorem Reads.agrees (h : x.Reads) : x.Agrees x := by
  intro s t hst
  rcases h s with ⟨a, ha⟩ | ⟨e, he⟩
  · rw [ha s rfl rfl, ha t hst.scopes hst.builtins]
    exact .done hst
  · rw [he s rfl rfl, he t hst.scopes hst.builtins]
    exact .failed rfl hst

theorem Agrees.bind {f g : α → Eval β} (h : x.Agrees y) (hf : ∀ a, (f a).Agrees (g a)) :
    (x >>= f).Agrees (y >>= g) := by
  intro s t hst
  have hfirst := h s t hst
  generalize hx : x s = ox at hfirst
  generalize hy : y t = oy at hfirst
  cases hfirst with
  | done state =>
    rw [bind_of_done hx, bind_of_done hy]
    exact hf _ _ _ state
  | failed cause state =>
    rw [bind_of_failed hx, bind_of_failed hy]
    exact .failed cause state
  | exhausted =>
    rw [bind_of_exhausted hx, bind_of_exhausted hy]
    exact .exhausted _ _

private theorem agrees_record (e e' : Event) : (record e).Agrees (record e') := fun _ _ hst => .done (hst.note e e')

private theorem agrees_checked (r : Except Mismatch α) (span span' : Span) :
    (checked span r).Agrees (checked span' r) := by
  intro s t hst
  cases r with
  | ok a => exact .done hst
  | error m => exact .failed rfl hst

private theorem agrees_query (name : String) (f : Scopes → Except ScopeError α) (span span' : Span) :
    (query name span f).Agrees (query name span' f) := by
  intro s t hst
  simp only [query, hst.scopes]
  cases f s.scopes with
  | ok a => exact .done hst
  | error e => exact .failed rfl hst

private theorem agrees_change (name : String) (f : Scopes → Except ScopeError Scopes) (span span' : Span) :
    (change name span f).Agrees (change name span' f) := by
  intro s t hst
  simp only [change, hst.scopes, hst.depth]
  cases f s.scopes with
  | ok scopes => exact .done (hst.moveTo scopes _)
  | error e => exact .failed rfl hst

theorem agrees_replace (scope : ScopeId) (name : Ident) (value : Value) :
    (replace scope name value).Agrees (replace scope name value) := by
  intro s t hst
  simp only [replace, hst.scopes, hst.depth]
  cases s.scopes.assign scope name.name value with
  | ok scopes => exact .done ((hst.note _ _).moveTo scopes _)
  | error e => exact .failed rfl hst

theorem agrees_store (scope : ScopeId) (id : Ident) (value : Value) (span span' : Span) :
    (store scope id value span).Agrees (store scope id value span') := by
  apply (agrees_query _ _ span span').bind
  intro old
  apply (agrees_query _ _ span span').bind
  intro constant
  cases constant with
  | true => exact (reads_fail _ _).agrees
  | false =>
    apply (agrees_checked _ span span').bind
    intro new
    exact (agrees_replace scope id new).bind fun _ => (reads_pure new).agrees

private theorem agrees_callBuiltin (name : String) (args : List Value) (span : Span) :
    (callBuiltin name args span).Agrees (callBuiltin name args span) := by
  intro s t hst
  simp only [callBuiltin, hst.builtins, hst.output]
  cases s.builtins.get? name with
  | none => exact .failed rfl hst
  | some b =>
    simp only
    split
    · exact .failed rfl hst
    · split
      · exact .done ⟨hst.scopes, rfl, rfl, hst.maxDepth, hst.depth⟩
      · exact .failed rfl ⟨hst.scopes, rfl, rfl, hst.maxDepth, hst.depth⟩

private theorem agrees_callable (d : FunctionDecl) (closure : ScopeId) (args : Nat) (span : Span) :
    (callable d closure args span).Agrees (callable d closure args span) := by
  intro s t hst
  simp only [callable, hst.scopes, hst.depth, hst.maxDepth]
  split
  · exact .failed rfl hst
  · split
    · exact .failed rfl hst
    · split
      · exact .done (hst.note _ _)
      · exact .failed rfl (hst.note _ _)

private theorem sameState_leave (id : ScopeId) {s t : Session} (hst : s.SameState t) :
    (leave id t).1 = (leave id s).1 ∧ (leave id s).2.SameState (leave id t).2 := by
  simp only [leave, hst.scopes, hst.depth]
  cases s.scopes.pop id with
  | ok scopes => exact ⟨rfl, (hst.note _ _).moveTo scopes _⟩
  | error e => exact ⟨rfl, hst.note _ _⟩

private theorem Agrees.inScope {body : ScopeId → Eval α} (h : ∀ id, (body id).Agrees (body id)) (parent : ScopeId)
    (span : Span) : (inScope parent span body).Agrees (inScope parent span body) := by
  intro s t hst
  rw [inScope_eq, inScope_eq, hst.scopes]
  have hentered : (s.entered parent).SameState (t.entered parent) := by
    unfold Session.entered
    rw [hst.scopes, hst.depth]
    exact (hst.note _ _).moveTo _ _
  have hinside := h (s.scopes.push parent).2 _ _ hentered
  generalize body (s.scopes.push parent).2 (s.entered parent) = o at hinside ⊢
  generalize body (s.scopes.push parent).2 (t.entered parent) = o' at hinside ⊢
  cases hinside with
  | @done a u u' state =>
    obtain ⟨hfault, hstate⟩ := sameState_leave (s.scopes.push parent).2 state
    dsimp only
    generalize leave (s.scopes.push parent).2 u = left at hfault hstate ⊢
    generalize leave (s.scopes.push parent).2 u' = left' at hfault hstate ⊢
    obtain ⟨fault, _⟩ := left
    obtain ⟨_, _⟩ := left'
    cases hfault
    cases fault with
    | none => exact .done hstate
    | some e => exact .failed rfl hstate
  | failed cause state => exact .failed cause (sameState_leave _ state).2
  | exhausted => exact .exhausted _ _

private theorem Agrees.deeper {body : Eval α} (h : body.Agrees body) : (deeper body).Agrees (deeper body) := by
  intro s t hst
  simp only [Eval.deeper, hst.scopes, hst.depth]
  have hinside := h _ _ (hst.moveTo s.scopes (s.depth + 1))
  generalize body (s.moveTo s.scopes (s.depth + 1)) = o at hinside ⊢
  generalize body (t.moveTo s.scopes (s.depth + 1)) = o' at hinside ⊢
  cases hinside with
  | done state =>
    dsimp only
    rw [state.scopes, state.depth]
    exact .done (state.moveTo _ _)
  | failed cause state =>
    dsimp only
    rw [state.scopes, state.depth]
    exact .failed cause (state.moveTo _ _)
  | exhausted => exact .exhausted _ _

/-- What the computation does depends on the state of the session alone. -/
def Oblivious ⦃α : Type⦄ (_ : ScopeId) (x : Eval α) : Prop := x.Agrees x

/-- No evaluation looks at what has happened before. -/
theorem oblivious_discipline : Discipline Oblivious Oblivious where
  reads := Reads.agrees
  exhausted _ _ _ := .exhausted _ _
  record _ e _ := agrees_record e e
  opened := id
  bind := Agrees.bind
  bind_loud := Agrees.bind
  assign := agrees_replace
  builtin _ := agrees_callBuiltin
  declare _ _ _ _ := agrees_change _ _ _ _
  declareStruct _ _ _ _ := agrees_change _ _ _ _
  inScope h := Agrees.inScope h _ _
  call d closure args h := (agrees_callable d closure args _).bind fun _ => (Agrees.inScope h _ _).deeper

end Eval

end BraceScript
