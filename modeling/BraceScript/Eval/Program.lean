import BraceScript.Session
import BraceScript.Eval.Property
import BraceScript.Syntax.Text

/-!
# Evaluation

Expressions yield values (`Expr.eval`) and statements a `Flow` (`Stmt.exec`): they end normally with a value or
return from the enclosing call.  Evaluation is by fuel, which goes down with every step into a part of the program
and with every round of a loop; a computation that ends does so alike with more fuel.
-/

namespace BraceScript

/-- How a statement ends. -/
inductive Flow where
  | normal (value : Value)
  | returned (value : Value)

def Flow.value : Flow → Value
  | normal v => v
  | returned v => v

namespace Eval

/-! ### Names -/

/-- The value of a name.  Names that are not declared may be built-in functions. -/
def lookup (scope : ScopeId) (id : Ident) : Eval Value := fun s =>
  match s.scopes.get scope id.name with
  | .ok v => .done v s
  | .error (.notDeclared n) =>
    if s.builtins.has id.name then .done (.builtin id.name) s else .failed ⟨.undeclared n, id.span⟩ s
  | .error e => .failed ⟨scopeFault id.name e, id.span⟩ s

/-- The value of a declared name; an error is reported at `span`. -/
def valueOf (scope : ScopeId) (name : String) (span : Span) : Eval Value := query name span (·.get scope name)

/-- Stores a value in a variable, which keeps its type.  Errors about the value are reported at `span`. -/
def store (scope : ScopeId) (id : Ident) (value : Value) (span : Span) : Eval Value := do
  let old ← valueOf scope id.name span
  if ← query id.name span (·.isConstant scope id.name) then fail (.constantReassignment id.name) id.span
  else
    let new ← checked span (old.retag value)
    replace scope id new
    return new

/-! ### Assignments -/

/-- The result of a step that knows the place of its own errors. -/
def located {α : Type} : Except RuntimeError α → Eval α
  | .ok a => pure a
  | .error e => fail e.cause e.span

/-- Assigns `new`, the value of an expression at `span`, to `target`. -/
def assign (scope : ScopeId) (target : Expr) (op : Located AssignOp) (new : Value) (span : Span) : Eval Value :=
  match target with
  | .ident id =>
    match op.value with
    | .set => store scope id new span
    | .update f => do
      let old ← valueOf scope id.name span
      let combined ← ofExcept op.span (Value.binary (.arith f) old new)
      store scope id combined span
  | .property .. =>
    match target.path? with
    | none => fail (.invalidAssignment .notRootedInVariable) target.span
    | some (root, path) => do
      let object ← valueOf scope root.name span
      let (changed, stored) ← located (Value.setProperty op new span path object)
      replace scope root changed
      return stored
  | _ => fail (.invalidAssignment (.notATarget target.text)) target.span

/-- Completes `++` and `--` on a variable by storing the new value. -/
def storeStep (scope : ScopeId) (op : Located UnaryOp) (operand : Expr) (new : Value) : Eval Value :=
  match op.value, operand with
  | .increment, .ident id | .decrement, .ident id => store scope id new op.span
  | _, _ => pure new

/-! ### Struct literals, positions and items -/

/-- The fields of a new instance before any is set. -/
def defaultFields (d : StructDecl) : List (String × Value) :=
  d.properties.foldl
    (fun fields p => if p.isStatic then fields else Value.setField p.name.name (Value.defaultFor p.type) fields) []

/-- The property of `d`, which the program calls `struct`, that a field of a struct literal sets. -/
def settable (struct : String) (d : StructDecl) (name : Ident) : Eval PropertyDecl :=
  match d.property? name.name with
  | none => fail (.unknownProperty struct name.name) name.span
  | some p =>
    if p.isStatic then fail (.invalidAssignment (.staticProperty p.name.name struct)) name.span else pure p

/-- The struct called `name`. -/
def structNamed (scope : ScopeId) (name : Ident) : Eval StructDecl := fun s =>
  match s.scopes.getStruct scope name.name with
  | .ok d => .done d s
  | .error (.notDeclared _) => .failed ⟨.unknownStruct name.name, name.span⟩ s
  | .error e => .failed ⟨scopeFault name.name e, name.span⟩ s

/-- The item at a position that a list of items has. -/
def itemAt {α : Type} (items : List α) (position : Int) : Except RuntimeError.Cause α :=
  match if position < 0 then none else items[position.toNat]? with
  | some a => .ok a
  | none => .error (.indexOutOfBounds position items.length)

/-- The item of the collection `base`, which holds `collection`, at `position`, which is the value of an expression
at `span`. -/
def index (base : Ident) (collection position : Value) (span : Span) : Eval Value :=
  match position with
  | .integer n _ =>
    match collection with
    | .array items => ofExcept span (itemAt items n)
    | .string s => ofExcept span ((itemAt s.toList n).map .character)
    | _ => fail (.typeMismatch (.notIndexable collection.typeName)) base.span
  | _ => fail (.typeMismatch (.position position.typeName)) span

/-- What a loop over a value goes through. -/
def iterated (v : Value) (span : Span) : Eval (List Value) :=
  match v with
  | .array items => pure items
  | .string s => pure (s.toList.map .character)
  | _ => fail (.typeMismatch (.notIterable v.typeName)) span

/-! ### Calls -/

/-- Calls a built-in function. -/
def callBuiltin (name : String) (args : List Value) (span : Span) : Eval Value := fun s =>
  match s.builtins.get? name with
  | none => .failed ⟨.undeclared name, span⟩ s
  | some b =>
    if b.arity.any (· ≠ args.length) then
      .failed ⟨.arityMismatch name (b.arity.getD 0) args.length, span⟩ s
    else
      match b.call args s.output with
      | (.ok v, output) => .done v { s with output }
      | (.error m, output) => .failed ⟨.builtin name m, span⟩ { s with output }

/-- Checks that a function can be called now with this number of arguments. -/
def callable (d : FunctionDecl) (closure : ScopeId) (args : Nat) (span : Span) : Eval Unit := fun s =>
  if args ≠ d.params.length then .failed ⟨.arityMismatch d.name.name d.params.length args, span⟩ s
  else if s.maxDepth ≤ s.depth then .failed ⟨.callDepthExceeded s.maxDepth, span⟩ s
  else if s.scopes.isAlive closure then .done () (s.note (.called d closure true))
  else .failed ⟨.staleScope d.name.name, span⟩ (s.note (.called d closure false))

/-- Binds a new name of a declared type. -/
def introduce (scope : ScopeId) (name : Ident) (type : Ty) (value : Value) (isConstant : Bool) : Eval Unit := do
  declare scope name value isConstant
  record (.introduced scope name.name type value)

/-- Binds the parameters of `function` to the arguments. -/
def bindParams (function : String) (frame : ScopeId) (span : Span) : List Param → List Value → Eval Unit
  | p :: ps, v :: vs => do
    let v ← checked span ((v.conform p.type).mapError (.argument p.name.name function))
    introduce frame p.name p.type v false
    bindParams function frame span ps vs
  | _, _ => pure ()

/-- The value of a call whose body has ended. -/
def result (d : FunctionDecl) (span : Span) : Flow → Eval Value
  | .returned v => checked span ((v.conform d.returnType).mapError (.result d.name.name))
  | .normal _ =>
    match d.returnType with
    | .void => pure .void
    | .null => pure .null
    | t => fail (.missingReturn d.name.name t) span

/-- A call of a function whose body is run by `body`. -/
def callFunction (d : FunctionDecl) (closure : ScopeId) (args : List Value) (span : Span)
    (body : ScopeId → Eval Flow) : Eval Value := do
  callable d closure args.length span
  let flow ← deeper (inScope closure span fun frame => do
    bindParams d.name.name frame span d.params args
    body frame)
  result d span flow

/-! ### Sequences and loops -/

/-- Runs statements by `exec` until one returns.  The value is that of the last one, or `last` if there is none. -/
def statements (exec : Stmt → Eval Flow) (last : Value) : List Stmt → Eval Flow
  | [] => pure (.normal last)
  | s :: ss => do
    match ← exec s with
    | .normal v => statements exec v ss
    | .returned v => return .returned v

/-- Runs `body` on each item and its position, counted from `i`, until one returns. -/
def forEach (body : UInt64 → Value → Eval Flow) (i : UInt64) : List Value → Eval Flow
  | [] => pure (.normal .null)
  | v :: vs => do
    match ← body i v with
    | .normal _ => forEach body (i + 1) vs
    | .returned v => return .returned v

/-- Binds the names of a `foreach` loop. -/
def bindItem (scope : ScopeId) (value : Ident) (position : Option Ident) (i : UInt64) (v : Value) : Eval Unit := do
  declare scope value v false
  match position with
  | some id => declare scope id (.int i.toNat) false
  | none => return ()

/-- Binds the name of a variable declaration. -/
def declareVariable (scope : ScopeId) (d : VariableDecl) (v : Value) : Eval Unit :=
  match d.type with
  | some t => introduce scope d.name t v d.isConstant
  | none => declare scope d.name v d.isConstant

/-- Binds the name of a function. -/
def declareFunction (scope : ScopeId) (d : FunctionDecl) : Eval Value := do
  let f := Value.function d scope
  declare scope d.name f true
  record (.declared d scope)
  return f

/-- The value that `x` computes for the expression `e`. -/
@[inline] def yields (e : Expr) (x : Eval Value) : Eval Value := do
  let v ← x
  record (.value e v)
  return v

end Eval

open Eval in
mutual

/-- The value of an expression. -/
def Expr.eval : Nat → ScopeId → Expr → Eval Value
  | 0, _, _ => Eval.exhausted
  | fuel + 1, scope, e => yields e <|
    match e with
    | .ident id => lookup scope id
    | .literal l _ => pure (.ofLiteral l)
    | .unary op operand _ _ => do
      let v ← Expr.eval fuel scope operand
      let new ← ofExcept op.span (Value.unary op.value v)
      storeStep scope op operand new
    | .binary op left right _ => do
      let a ← Expr.eval fuel scope left
      let b ← Expr.eval fuel scope right
      ofExcept op.span (Value.binary op.value a b)
    | .assign target op value _ => do
      let new ← Expr.eval fuel scope value
      assign scope target op new value.span
    | .call callee arguments span => do
      let target ← lookup scope callee
      let args ← each (Expr.eval fuel scope) arguments
      match target with
      | .function d closure =>
        callFunction d closure args span fun frame => Stmt.execAll fuel frame d.body.statements
      | .builtin name => callBuiltin name args span
      | _ => fail (.notCallable callee.name) callee.span
    | .build name fields _ => do
      let d ← structNamed scope name
      let values ← each (Expr.evalField fuel scope name.name d) fields
      return .struct d (values.foldl (fun all (n, v) => Value.setField n v all) (defaultFields d))
    | .property object name _ => do
      let v ← Expr.eval fuel scope object
      located (v.readProperty name)
    | .array elements _ _ => do
      let items ← each (Expr.eval fuel scope) elements
      return .array items
    | .index base position _ => do
      let collection ← lookup scope base
      let p ← Expr.eval fuel scope position
      index base collection p position.span

/-- The name and the value of a field of a struct literal. -/
def Expr.evalField : Nat → ScopeId → String → StructDecl → Ident × Expr → Eval (String × Value)
  | 0, _, _, _, _ => Eval.exhausted
  | fuel + 1, scope, struct, d, (name, e) => do
    let p ← settable struct d name
    let v ← Expr.eval fuel scope e
    let v ← checked e.span (v.conform p.type)
    return (name.name, v)

/-- Runs statements in order. -/
def Stmt.execAll : Nat → ScopeId → List Stmt → Eval Flow
  | 0, _, _ => Eval.exhausted
  | fuel + 1, scope, ss => statements (Stmt.exec fuel scope) .null ss

/-- Runs a statement. -/
def Stmt.exec : Nat → ScopeId → Stmt → Eval Flow
  | 0, _, _ => Eval.exhausted
  | fuel + 1, scope, .expression e _ => do
    return .normal (← Expr.eval fuel scope e)
  | fuel + 1, scope, .block body => Block.exec fuel scope body
  | fuel + 1, scope, .declare d => do
    let v ← VariableDecl.initial fuel scope d
    declareVariable scope d v
    return .normal v
  | _ + 1, scope, .function d => do
    return .normal (← declareFunction scope d)
  | _ + 1, _, .ret none _ => return .returned .void
  | fuel + 1, scope, .ret (some e) _ => do
    return .returned (← Expr.eval fuel scope e)
  | fuel + 1, scope, .branch s => IfStmt.exec fuel scope s
  | _ + 1, scope, .struct d => do
    change d.name.name d.name.span (·.declareStruct scope d)
    return .normal .null
  | fuel + 1, scope, .whileLoop condition body _ => Stmt.loop fuel scope condition body none
  | fuel + 1, scope, .forLoop counter init condition post body span =>
    inScope scope span fun outer => do
      let v ← Expr.eval fuel outer init
      declare outer counter v false
      Stmt.loop fuel outer condition body (some post)
  | fuel + 1, scope, .foreach value position iterable body _ => do
    let v ← Expr.eval fuel scope iterable
    let items ← iterated v iterable.span
    forEach (fun i item => inScope scope body.span fun inner => do
      bindItem inner value position i item
      Stmt.execAll fuel inner body.statements) 0 items
  | _ + 1, _, .imports _ => return .normal .null

/-- The value that a declaration gives to its name. -/
def VariableDecl.initial : Nat → ScopeId → VariableDecl → Eval Value
  | 0, _, _ => Eval.exhausted
  | fuel + 1, scope, d =>
    match d.value, d.type with
    | some e, some t => do
      let v ← Expr.eval fuel scope e
      checked e.span (v.conform t)
    | some e, none => Expr.eval fuel scope e
    | none, some t => pure (.defaultFor t)
    | none, none => pure .null

/-- Runs the statements of a block in a scope of their own. -/
def Block.exec : Nat → ScopeId → Block → Eval Flow
  | 0, _, _ => Eval.exhausted
  | fuel + 1, scope, b => inScope scope b.span fun inner => Stmt.execAll fuel inner b.statements

/-- Runs the first block of an `if` whose condition holds. -/
def IfStmt.exec : Nat → ScopeId → IfStmt → Eval Flow
  | 0, _, _ => Eval.exhausted
  | fuel + 1, scope, s => do
    let v ← Expr.eval fuel scope s.condition
    if v.isTruthy then Block.exec fuel scope s.consequent
    else
      match s.alternate with
      | .nothing => return .normal .null
      | .elseIf next => IfStmt.exec fuel scope next
      | .otherwise body => Block.exec fuel scope body

/-- Runs a block as long as a condition holds, and after each round the expression `post` if there is one. -/
def Stmt.loop : Nat → ScopeId → Expr → Block → Option Expr → Eval Flow
  | 0, _, _, _, _ => Eval.exhausted
  | fuel + 1, scope, condition, body, post => do
    let v ← Expr.eval fuel scope condition
    if v.isTruthy then
      match ← Block.exec fuel scope body with
      | .returned v => return .returned v
      | .normal _ =>
        match post with
        | some e =>
          let _ ← Expr.eval fuel scope e
          Stmt.loop fuel scope condition body post
        | none => Stmt.loop fuel scope condition body post
    else return .normal .null

end

/-- Runs a program in the root scope.  The result is the value of its last statement, or what it returns. -/
def Program.run (fuel : Nat) (p : Program) : Eval Value := fun s =>
  match Stmt.execAll fuel s.scopes.root p.contents s with
  | .done flow s => .done flow.value s
  | .failed e s => .failed e s
  | .exhausted s => .exhausted s

end BraceScript
