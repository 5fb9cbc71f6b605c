import BraceScript.Scope

/-!
# Scopes by identity

A reference for `Scopes` in which nothing is ever used again.  A `ScopeModel` remembers all scopes that were ever
created; the identity of a scope is the number of those created before it, and a stack holds the identities of the
scopes that are alive.  Names are looked up through the identities of the parents, which fails as soon as it meets a
scope that is no longer on the stack.

`ScopeAction` lists the operations on scopes.  `Scopes.perform` and `ScopeModel.perform` carry one out, and
`Scopes.Replay.run` and `ScopeModel.run` a whole script of them, in which scopes are referred to by the order in
which they were created.
-/

namespace BraceScript

/-! ### The reference -/

/-- A scope of the reference: its parent, and what its names mean. -/
structure ScopeModel.Entry where
  parent : Option Nat
  binding : String → Option Binding
  struct : String → Option StructDecl

/-- All scopes that were ever created, latest first, and the identities of those that are alive, oldest first. -/
structure ScopeModel where
  entries : List ScopeModel.Entry
  stack : List Nat

namespace ScopeModel

namespace Entry

/-- A scope without names. -/
def empty (parent : Option Nat) : Entry := ⟨parent, fun _ => none, fun _ => none⟩

/-- The scope in which `name` has the binding `b`. -/
def bind (e : Entry) (name : String) (b : Binding) : Entry :=
  { e with binding := fun n => if n = name then some b else e.binding n }

/-- The scope in which the struct `d` is declared. -/
def declare (e : Entry) (d : StructDecl) : Entry :=
  { e with struct := fun n => if n = d.name.name then some d else e.struct n }

end Entry

/-- The scope with identity `id`. -/
def entryOf? : List Entry → Nat → Option Entry
  | [], _ => none
  | e :: older, id => if id = older.length then some e else entryOf? older id

/-- The scopes with the one of identity `id` changed. -/
def update (f : Entry → Entry) (id : Nat) : List Entry → List Entry
  | [] => []
  | e :: older => if id = older.length then f e :: older else e :: update f id older

/-- The first answer that `find` gives for the scope `id`, its parent, the parent of that one and so on. -/
def walk {α : Type} (stack : List Nat) (find : Entry → Option α) :
    List Entry → Nat → Except ScopeError (Option (Nat × α))
  | [], _ => .error .stale
  | e :: older, id =>
    if id = older.length then
      if id ∈ stack then
        match find e, e.parent with
        | some a, _ => .ok (some (id, a))
        | none, none => .ok none
        | none, some parent => walk stack find older parent
      else .error .stale
    else walk stack find older id

/-- The root scope alone. -/
def initial : ScopeModel := ⟨[.empty none], [0]⟩

/-- The scope `id`, if it is alive. -/
def get? (m : ScopeModel) (id : Nat) : Option Entry := if id ∈ m.stack then entryOf? m.entries id else none

/-- A new scope below `parent`. -/
def push (m : ScopeModel) (parent : Nat) : ScopeModel :=
  ⟨.empty (some parent) :: m.entries, m.stack ++ [m.entries.length]⟩

/-- Removes the scope that was created last.  The root scope stays. -/
def pop (m : ScopeModel) (id : Nat) : Except ScopeError ScopeModel :=
  if id ∉ m.stack then .error .stale
  else if id = 0 ∨ m.stack.getLast? ≠ some id then .error .outOfOrder
  else .ok { m with stack := m.stack.dropLast }

/-- The model with the scope `id` changed. -/
def modify (m : ScopeModel) (id : Nat) (f : Entry → Entry) : ScopeModel :=
  { m with entries := update f id m.entries }

/-- The nearest scope from `id` on that binds `name`, and the binding. -/
def lookup (m : ScopeModel) (id : Nat) (name : String) : Except ScopeError (Nat × Binding) :=
  match walk m.stack (·.binding name) m.entries id with
  | .ok (some found) => .ok found
  | .ok none => .error (.notDeclared name)
  | .error e => .error e

/-- The struct called `name`, seen from `id`. -/
def getStruct (m : ScopeModel) (id : Nat) (name : String) : Except ScopeError StructDecl :=
  match walk m.stack (·.struct name) m.entries id with
  | .ok (some (_, d)) => .ok d
  | .ok none => .error (.notDeclared name)
  | .error e => .error e

/-- Binds a new name in the scope `id` itself. -/
def declare (m : ScopeModel) (id : Nat) (name : String) (b : Binding) : Except ScopeError ScopeModel :=
  match m.get? id with
  | none => .error .stale
  | some e => if (e.binding name).isSome then .error (.alreadyDeclared name) else .ok (m.modify id (·.bind name b))

/-- Replaces the value of `name` in the scope that binds it. -/
def assign (m : ScopeModel) (id : Nat) (name : String) (value : Value) : Except ScopeError ScopeModel :=
  match m.lookup id name with
  | .error e => .error e
  | .ok (owner, b) =>
    if b.isConstant then .error (.constant name) else .ok (m.modify owner (·.bind name { b with value }))

/-- Declares a struct in the scope `id` itself. -/
def declareStruct (m : ScopeModel) (id : Nat) (d : StructDecl) : Except ScopeError ScopeModel :=
  match m.get? id with
  | none => .error .stale
  | some e =>
    if (e.struct d.name.name).isSome then .error (.alreadyDeclared d.name.name)
    else .ok (m.modify id (·.declare d))

end ScopeModel

/-! ### Operations and answers -/

/-- An operation on a scope.  The number of scopes that are alive can be asked of any scope. -/
inductive ScopeAction where
  | push
  | pop
  | declare (name : String) (b : Binding)
  | assign (name : String) (value : Value)
  | get (name : String)
  | resolve (name : String)
  | isConstant (name : String)
  | isAlive
  | declareStruct (d : StructDecl)
  | getStruct (name : String)
  | depth

/-- What an operation answers, where scopes are named by handles of type `H`. -/
inductive ScopeAnswer (H : Type) where
  | opened (scope : H)
  | done
  | value (v : Value)
  | owner (scope : H)
  | flag (b : Bool)
  | struct (d : StructDecl)
  | count (n : Nat)
  | failed (e : ScopeError)
  /-- No scope of this number has been created yet. -/
  | unknown

namespace ScopeAnswer

variable {H K α : Type}

/-- The answer with each handle renamed. -/
def map (f : H → K) : ScopeAnswer H → ScopeAnswer K
  | opened h => opened (f h)
  | done => done
  | value v => value v
  | owner h => owner (f h)
  | flag b => flag b
  | struct d => struct d
  | count n => count n
  | failed e => failed e
  | unknown => unknown

/-- The answer to a question. -/
def ofQuery (answer : α → ScopeAnswer H) : Except ScopeError α → ScopeAnswer H
  | .ok a => answer a
  | .error e => failed e

/-- The answer to a change of the scopes `s`, and the scopes afterwards. -/
def ofChange {σ : Type} (s : σ) : Except ScopeError σ → ScopeAnswer H × σ
  | .ok t => (done, t)
  | .error e => (failed e, s)

end ScopeAnswer

/-- Carries out an operation on the scope `id`. -/
def Scopes.perform (s : Scopes) (id : ScopeId) : ScopeAction → ScopeAnswer ScopeId × Scopes
  | .push => (.opened (s.push id).2, (s.push id).1)
  | .pop => ScopeAnswer.ofChange s (s.pop id)
  | .declare name b => ScopeAnswer.ofChange s (s.declare id name b)
  | .assign name value => ScopeAnswer.ofChange s (s.assign id name value)
  | .get name => (.ofQuery .value (s.get id name), s)
  | .resolve name => (.ofQuery .owner (s.resolve id name), s)
  | .isConstant name => (.ofQuery .flag (s.isConstant id name), s)
  | .isAlive => (.flag (s.isAlive id), s)
  | .declareStruct d => ScopeAnswer.ofChange s (s.declareStruct id d)
  | .getStruct name => (.ofQuery .struct (s.getStruct id name), s)
  | .depth => (.count s.depth, s)

/-- Carries out an operation on the scope `id`. -/
def ScopeModel.perform (m : ScopeModel) (id : Nat) : ScopeAction → ScopeAnswer Nat × ScopeModel
  | .push => (.opened m.entries.length, m.push id)
  | .pop => ScopeAnswer.ofChange m (m.pop id)
  | .declare name b => ScopeAnswer.ofChange m (m.declare id name b)
  | .assign name value => ScopeAnswer.ofChange m (m.assign id name value)
  | .get name => (.ofQuery (.value ·.2.value) (m.lookup id name), m)
  | .resolve name => (.ofQuery (.owner ·.1) (m.lookup id name), m)
  | .isConstant name => (.ofQuery (.flag ·.2.isConstant) (m.lookup id name), m)
  | .isAlive => (.flag (id ∈ m.stack), m)
  | .declareStruct d => ScopeAnswer.ofChange m (m.declareStruct id d)
  | .getStruct name => (.ofQuery .struct (m.getStruct id name), m)
  | .depth => (.count m.stack.length, m)

/-! ### Scripts -/

/-- Operations in a row, each with the number of the scope it is about: the root has number zero and every new scope
the next number. -/
abbrev ScopeScript := List (Nat × ScopeAction)

/-- Whether an operation creates a scope. -/
def ScopeAction.isPush : ScopeAction → Bool
  | push => true
  | _ => false

/-- How many scopes a script creates at most. -/
def ScopeScript.pushes (script : ScopeScript) : Nat := script.countP (·.2.isPush)

/-- Scopes together with the handles that have been given out, in order. -/
structure Scopes.Replay where
  scopes : Scopes
  handles : List ScopeId

/-- The start of a script. -/
def Scopes.Replay.start : Replay := ⟨.initial, [Scopes.initial.root]⟩

/-- Carries out an operation on the scope with the given number. -/
def Scopes.Replay.step (r : Replay) (number : Nat) (action : ScopeAction) : ScopeAnswer ScopeId × Replay :=
  match r.handles[number]? with
  | none => (.unknown, r)
  | some id =>
    match r.scopes.perform id action with
    | (.opened new, scopes) => (.opened new, ⟨scopes, r.handles ++ [new]⟩)
    | (answer, scopes) => (answer, ⟨scopes, r.handles⟩)

/-- The answers to a script, and the scopes after it. -/
def Scopes.Replay.run : Replay → ScopeScript → List (ScopeAnswer ScopeId) × Replay
  | r, [] => ([], r)
  | r, (number, action) :: script =>
    let (answer, next) := r.step number action
    let (answers, last) := next.run script
    (answer :: answers, last)

/-- Carries out an operation on the scope with the given number. -/
def ScopeModel.step (m : ScopeModel) (number : Nat) (action : ScopeAction) : ScopeAnswer Nat × ScopeModel :=
  if number < m.entries.length then m.perform number action else (.unknown, m)

/-- The answers to a script, and the model after it. -/
def ScopeModel.run : ScopeModel → ScopeScript → List (ScopeAnswer Nat) × ScopeModel
  | m, [] => ([], m)
  | m, (number, action) :: script =>
    let (answer, next) := m.step number action
    let (answers, last) := next.run script
    (answer :: answers, last)

end BraceScript
