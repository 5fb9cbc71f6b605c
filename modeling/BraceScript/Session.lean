import BraceScript.Scope
import BraceScript.Builtin
import BraceScript.RuntimeError

/-!
# Sessions and computations

A `Session` is what a program runs in: the scopes, the built-in functions, the output and the depth of calls.  It
also carries its history, the `Event`s up to now, and their order as its timeline: no step of a program reads them
and nothing of them exists when a program runs, but they let statements speak about every state that a run has gone
through.  An `Eval` computes on a session and ends with a result, with a `RuntimeError`, or for lack of fuel; what it
did to the session up to then stays done.  `Eval.inScope` runs a computation in a new scope and removes the scope
however it ends.
-/

namespace BraceScript

/-- What happens to a session. -/
inductive Event where
  /-- It gets into a state. -/
  | state (scopes : Scopes) (depth : Nat)
  /-- The scope `id` is about to be entered. -/
  | entered (id : ScopeId)
  /-- The scope `id` is about to be left. -/
  | leaving (scopes : Scopes) (id : ScopeId)
  /-- An expression has been evaluated. -/
  | value (e : Expr) (v : Value)
  /-- A variable of a declared type has been bound to its first value. -/
  | introduced (scope : ScopeId) (name : String) (type : Ty) (value : Value)
  /-- The variable that is called `name` in the scope `scope` is about to get a new value. -/
  | assigned (scopes : Scopes) (scope : ScopeId) (name : String)
  /-- A function has been declared in a scope. -/
  | declared (d : FunctionDecl) (scope : ScopeId)
  /-- A function is to be called, and its declaring scope has been found alive or not. -/
  | called (d : FunctionDecl) (closure : ScopeId) (alive : Bool)

/-- A value that can be reasoned about but does not exist when a program runs. -/
structure Ghost (α : Type) where
  Is : α → Prop
  unique : ∃ a, ∀ b, Is b ↔ b = a

namespace Ghost

variable {α β : Type}

@[inline] def of (a : α) : Ghost α := ⟨fun b => b = a, a, fun _ => .rfl⟩

@[inline] def map (f : α → β) (g : Ghost α) : Ghost β where
  Is b := ∃ a, g.Is a ∧ b = f a
  unique := by
    obtain ⟨a, ha⟩ := g.unique
    exact ⟨f a, fun b => ⟨fun ⟨a', h, e⟩ => e.trans (congrArg f ((ha a').1 h)), fun e => ⟨a, (ha a).2 rfl, e⟩⟩⟩

/-- The value itself. -/
noncomputable def get (g : Ghost α) : α := g.unique.choose

theorem is_iff {g : Ghost α} {a : α} : g.Is a ↔ a = g.get := g.unique.choose_spec a

@[simp] theorem get_of (a : α) : (of a).get = a := (is_iff.1 (show (of a).Is a from rfl)).symm

@[simp] theorem get_map (f : α → β) (g : Ghost α) : (g.map f).get = f g.get :=
  (is_iff.1 (show (g.map f).Is (f g.get) from ⟨g.get, is_iff.2 rfl, rfl⟩)).symm

end Ghost

/-- The state in which programs run. -/
structure Session where
  scopes : Scopes
  builtins : Registry
  output : Output
  /-- How many calls may be under way at once. -/
  maxDepth : Nat
  /-- How many calls are under way. -/
  depth : Nat
  /-- What has happened up to now. -/
  history : Event → Prop
  /-- No state is left out of the history. -/
  recorded : history (.state scopes depth)
  /-- The order in which it has happened, latest first. -/
  timeline : Ghost (List Event)
  timed : ∀ e, history e ↔ e ∈ timeline.get

namespace Session

/-- What has happened up to now, latest first. -/
noncomputable def events (s : Session) : List Event := s.timeline.get

/-- The session with one more event in its history. -/
@[inline] def note (s : Session) (e : Event) : Session :=
  { s with
    history := fun e' => e' = e ∨ s.history e'
    recorded := .inr s.recorded
    timeline := s.timeline.map (e :: ·)
    timed := fun e' => by rw [Ghost.get_map, List.mem_cons, s.timed] }

/-- The session in its next state. -/
@[inline] def moveTo (s : Session) (scopes : Scopes) (depth : Nat) : Session :=
  { s with
    scopes, depth
    history := fun e => e = .state scopes depth ∨ s.history e
    recorded := .inl rfl
    timeline := s.timeline.map (.state scopes depth :: ·)
    timed := fun e => by rw [Ghost.get_map, List.mem_cons, s.timed] }

@[simp] theorem events_note (s : Session) (e : Event) : (s.note e).events = e :: s.events := Ghost.get_map _ _

@[simp] theorem events_moveTo (s : Session) (scopes : Scopes) (depth : Nat) :
    (s.moveTo scopes depth).events = .state scopes depth :: s.events := Ghost.get_map _ _

theorem history_iff {s : Session} {e : Event} : s.history e ↔ e ∈ s.events := s.timed e

end Session

/-- How a computation ends. -/
inductive Outcome (α : Type) where
  | done (value : α) (session : Session)
  | failed (error : RuntimeError) (session : Session)
  | exhausted (session : Session)

/-- The session at the end of a computation. -/
def Outcome.session {α : Type} : Outcome α → Session
  | .done _ s | .failed _ s | .exhausted s => s

/-- A computation in a session. -/
def Eval (α : Type) : Type := Session → Outcome α

namespace Eval

variable {α β : Type}

@[inline] protected def pure (a : α) : Eval α := fun s => .done a s

@[inline] protected def bind (x : Eval α) (f : α → Eval β) : Eval β := fun s =>
  match x s with
  | .done a s => f a s
  | .failed e s => .failed e s
  | .exhausted s => .exhausted s

instance : Monad Eval where
  pure := Eval.pure
  bind := Eval.bind

@[simp] theorem pure_apply (a : α) (s : Session) : (pure a : Eval α) s = .done a s := rfl

theorem bind_of_done {x : Eval α} {s s₁ : Session} {a : α} (h : x s = .done a s₁) (f : α → Eval β) :
    (x >>= f) s = f a s₁ := by
  change Eval.bind x f s = f a s₁
  simp [Eval.bind, h]

theorem bind_of_failed {x : Eval α} {s s₁ : Session} {e : RuntimeError} (h : x s = .failed e s₁) (f : α → Eval β) :
    (x >>= f) s = .failed e s₁ := by
  change Eval.bind x f s = .failed e s₁
  simp [Eval.bind, h]

theorem bind_of_exhausted {x : Eval α} {s s₁ : Session} (h : x s = .exhausted s₁) (f : α → Eval β) :
    (x >>= f) s = .exhausted s₁ := by
  change Eval.bind x f s = .exhausted s₁
  simp [Eval.bind, h]

/-- Two computations in a row end with a result if the first does and the second does after it. -/
theorem bind_eq_done_iff {x : Eval α} {f : α → Eval β} {s s₂ : Session} {b : β} :
    (x >>= f) s = .done b s₂ ↔ ∃ a s₁, x s = .done a s₁ ∧ f a s₁ = .done b s₂ := by
  cases h : x s with
  | done a s₁ =>
    rw [bind_of_done h]
    constructor
    · exact fun hf => ⟨a, s₁, rfl, hf⟩
    · rintro ⟨_, _, ⟨⟩, hf⟩
      exact hf
  | failed e s₁ => simp [bind_of_failed h]
  | exhausted s₁ => simp [bind_of_exhausted h]

/-- Gives up for lack of fuel. -/
def exhausted : Eval α := fun s => .exhausted s

/-- Takes down what has happened. -/
@[inline] def record (e : Event) : Eval Unit := fun s => .done () (s.note e)

def fail (cause : RuntimeError.Cause) (span : Span) : Eval α := fun s => .failed ⟨cause, span⟩ s

/-- The result of a pure step; an error is reported at `span`. -/
def ofExcept (span : Span) : Except RuntimeError.Cause α → Eval α
  | .ok a => pure a
  | .error cause => fail cause span

/-- The result of a check; a mismatch is reported at `span`. -/
def checked (span : Span) : Except Mismatch α → Eval α
  | .ok a => pure a
  | .error m => fail (.typeMismatch m) span

/-- The fault that an error about the scope of `name` amounts to. -/
def scopeFault (name : String) : ScopeError → RuntimeError.Cause
  | .notDeclared n => .undeclared n
  | .alreadyDeclared n => .alreadyDeclared n
  | .constant n => .constantReassignment n
  | .stale | .outOfOrder => .staleScope name

/-- Reads from the scopes on behalf of `name`; an error is reported at `span`. -/
def query (name : String) (span : Span) (f : Scopes → Except ScopeError α) : Eval α := fun s =>
  match f s.scopes with
  | .ok a => .done a s
  | .error e => .failed ⟨scopeFault name e, span⟩ s

/-- Changes the scopes on behalf of `name`; an error is reported at `span`. -/
def change (name : String) (span : Span) (f : Scopes → Except ScopeError Scopes) : Eval Unit := fun s =>
  match f s.scopes with
  | .ok scopes => .done () (s.moveTo scopes s.depth)
  | .error e => .failed ⟨scopeFault name e, span⟩ s

/-- Gives the variable `name` a new value; an error is reported at its place. -/
def replace (scope : ScopeId) (name : Ident) (value : Value) : Eval Unit := fun s =>
  match s.scopes.assign scope name.name value with
  | .ok scopes => .done () ((s.note (.assigned s.scopes scope name.name)).moveTo scopes s.depth)
  | .error e => .failed ⟨scopeFault name.name e, name.span⟩ s

/-- Binds a new name. -/
def declare (scope : ScopeId) (name : Ident) (value : Value) (isConstant : Bool) : Eval Unit :=
  change name.name name.span (·.declare scope name.name ⟨value, isConstant⟩)

/-- The session after the attempt to leave the scope `id`, and what went wrong with it. -/
def leave (id : ScopeId) (s : Session) : Option ScopeError × Session :=
  match s.scopes.pop id with
  | .ok scopes => (none, (s.note (.leaving s.scopes id)).moveTo scopes s.depth)
  | .error e => (some e, s.note (.leaving s.scopes id))

/-- Runs `body` in a new scope below `parent`, which is left afterwards in any case. -/
def inScope (parent : ScopeId) (span : Span) (body : ScopeId → Eval α) : Eval α := fun s =>
  let (scopes, id) := s.scopes.push parent
  match body id ((s.note (.entered id)).moveTo scopes s.depth) with
  | .exhausted s => .exhausted s
  | .done a s =>
    match leave id s with
    | (none, s) => .done a s
    | (some e, s) => .failed ⟨scopeFault "<block>" e, span⟩ s
  | .failed e s => .failed e (leave id s).2

/-- Runs `body` one call deeper. -/
def deeper (body : Eval α) : Eval α := fun s =>
  match body (s.moveTo s.scopes (s.depth + 1)) with
  | .exhausted s => .exhausted s
  | .done a s => .done a (s.moveTo s.scopes (s.depth - 1))
  | .failed e s => .failed e (s.moveTo s.scopes (s.depth - 1))

/-- The results of `f` on the items of a list, in order. -/
def each (f : α → Eval β) : List α → Eval (List β)
  | [] => pure []
  | a :: as => do
    let b ← f a
    let bs ← each f as
    return b :: bs

end Eval

end BraceScript
