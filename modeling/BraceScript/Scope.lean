import BraceScript.Value
import BraceScript.Syntax

/-!
# Scopes

A scope binds names to values, declares structs and has a parent in which names are looked up further.  `Scopes`
keeps the scopes in slots: the first `live` slots hold the scopes that are alive, in the order of their creation, and
only the last of them can be removed.  A slot is used again for a later scope, under a new generation, so a `ScopeId`
that has outlived its scope is recognised.  The root scope is always alive.
-/

namespace BraceScript

/-- A value bound to a name. -/
structure Binding where
  value : Value
  isConstant : Bool

/-- Why an operation on scopes fails. -/
inductive ScopeError where
  | notDeclared (name : String)
  | alreadyDeclared (name : String)
  | constant (name : String)
  | stale
  | outOfOrder
deriving DecidableEq, Repr

def ScopeError.message : ScopeError → String
  | notDeclared name => "`" ++ name ++ "` is not declared"
  | alreadyDeclared name => "`" ++ name ++ "` is already declared in this scope"
  | constant name => "cannot reassign constant `" ++ name ++ "`"
  | stale => "scope is no longer alive"
  | outOfOrder => "scopes must be popped in reverse order of creation"

/-- The names of a scope, latest first, and its parent. -/
structure Scope where
  parent : Option ScopeId
  bindings : List (String × Binding)
  structs : List StructDecl

namespace Scope

/-- A scope without names. -/
def empty (parent : Option ScopeId) : Scope := ⟨parent, [], []⟩

/-- The binding of `name` in this scope itself. -/
def binding? (s : Scope) (name : String) : Option Binding := s.bindings.lookup name

/-- The struct called `name` that is declared in this scope itself. -/
def struct? (s : Scope) (name : String) : Option StructDecl := s.structs.find? (·.name.name == name)

/-- The scope with one more name. -/
def bind (s : Scope) (name : String) (b : Binding) : Scope := { s with bindings := (name, b) :: s.bindings }

/-- The scope with the value of a bound name replaced. -/
def set (s : Scope) (name : String) (value : Value) : Scope :=
  { s with bindings := s.bindings.map fun (n, b) => if n = name then (n, { b with value }) else (n, b) }

end Scope

/-- A slot: the generation of its present or last tenant, and the tenant. -/
structure Slot where
  generation : UInt32
  scope : Scope

/-- All scopes. -/
structure Scopes where
  slots : Array Slot
  live : Nat

namespace Scopes

/-- The root scope alone. -/
def initial : Scopes := ⟨#[⟨0, .empty none⟩], 1⟩

/-- The handle of the root scope. -/
def root (s : Scopes) : ScopeId := ⟨0, (s.slots[0]?.map Slot.generation).getD 0⟩

/-- The number of scopes that are alive. -/
def depth (s : Scopes) : Nat := s.live

/-- The scope of a handle, if it is alive. -/
def get? (s : Scopes) (id : ScopeId) : Option Scope :=
  if id.index < s.live then
    match s.slots[id.index]? with
    | some slot => if slot.generation = id.generation then some slot.scope else none
    | none => none
  else none

def isAlive (s : Scopes) (id : ScopeId) : Bool := (s.get? id).isSome

/-- A new scope below `parent`.  The first free slot is used under its next generation. -/
def push (s : Scopes) (parent : ScopeId) : Scopes × ScopeId :=
  let scope := Scope.empty (some parent)
  match s.slots[s.live]? with
  | some slot =>
    let generation := slot.generation + 1
    (⟨s.slots.setIfInBounds s.live ⟨generation, scope⟩, s.live + 1⟩, ⟨s.live, generation⟩)
  | none => (⟨s.slots.push ⟨0, scope⟩, s.live + 1⟩, ⟨s.live, 0⟩)

/-- Changes the scope in a slot. -/
def modify (s : Scopes) (id : ScopeId) (f : Scope → Scope) : Scopes :=
  { s with slots := s.slots.modify id.index fun slot => { slot with scope := f slot.scope } }

/-- Removes the scope that was created last.  The root scope stays. -/
def pop (s : Scopes) (id : ScopeId) : Except ScopeError Scopes :=
  if !s.isAlive id then .error .stale
  else if id.index = 0 ∨ id.index + 1 ≠ s.live then .error .outOfOrder
  else .ok { s.modify id fun _ => .empty none with live := s.live - 1 }

/-- The first answer that `find` gives for the scope `id`, its parent, the parent of that one and so on.  Nothing is
answered if the scopes do not come to an end within the given number of rounds. -/
def walk {α : Type} (s : Scopes) (find : Scope → Option α) :
    Nat → ScopeId → Option (Except ScopeError (Option (ScopeId × α)))
  | 0, _ => none
  | rounds + 1, id =>
    match s.get? id with
    | none => some (.error .stale)
    | some scope =>
      match find scope, scope.parent with
      | some a, _ => some (.ok (some (id, a)))
      | none, none => some (.ok none)
      | none, some parent => s.walk find rounds parent

/-- The first answer that `find` gives for the scope `id` or one that encloses it.  No more scopes can be met than
are alive. -/
def search {α : Type} (s : Scopes) (find : Scope → Option α) (id : ScopeId) :
    Except ScopeError (Option (ScopeId × α)) :=
  (s.walk find s.live id).getD (.error .stale)

/-- The nearest scope from `id` on that binds `name`, and the binding. -/
def lookup (s : Scopes) (id : ScopeId) (name : String) : Except ScopeError (ScopeId × Binding) :=
  match s.search (·.binding? name) id with
  | .ok (some found) => .ok found
  | .ok none => .error (.notDeclared name)
  | .error e => .error e

/-- The scope that binds `name`, seen from `id`. -/
def resolve (s : Scopes) (id : ScopeId) (name : String) : Except ScopeError ScopeId :=
  (s.lookup id name).map (·.1)

/-- The value of `name`, seen from `id`. -/
def get (s : Scopes) (id : ScopeId) (name : String) : Except ScopeError Value :=
  (s.lookup id name).map (·.2.value)

def isConstant (s : Scopes) (id : ScopeId) (name : String) : Except ScopeError Bool :=
  (s.lookup id name).map (·.2.isConstant)

/-- Binds a new name in the scope `id` itself. -/
def declare (s : Scopes) (id : ScopeId) (name : String) (b : Binding) : Except ScopeError Scopes :=
  match s.get? id with
  | none => .error .stale
  | some scope =>
    if (scope.binding? name).isSome then .error (.alreadyDeclared name)
    else .ok (s.modify id (·.bind name b))

/-- Replaces the value of `name` in the scope that binds it. -/
def assign (s : Scopes) (id : ScopeId) (name : String) (value : Value) : Except ScopeError Scopes :=
  match s.lookup id name with
  | .error e => .error e
  | .ok (owner, b) =>
    if b.isConstant then .error (.constant name)
    else .ok (s.modify owner (·.set name value))

/-- Declares a struct in the scope `id` itself. -/
def declareStruct (s : Scopes) (id : ScopeId) (d : StructDecl) : Except ScopeError Scopes :=
  match s.get? id with
  | none => .error .stale
  | some scope =>
    if (scope.struct? d.name.name).isSome then .error (.alreadyDeclared d.name.name)
    else .ok (s.modify id fun scope => { scope with structs := d :: scope.structs })

/-- The struct called `name`, seen from `id`. -/
def getStruct (s : Scopes) (id : ScopeId) (name : String) : Except ScopeError StructDecl :=
  match s.search (·.struct? name) id with
  | .ok (some (_, d)) => .ok d
  | .ok none => .error (.notDeclared name)
  | .error e => .error e

end Scopes

end BraceScript
