import BraceScript.Proofs.Constants

/-!
# Declarations stay in their scope

What a scope declares are its names, each a constant or not, and its structs.  The evaluation of an expression leaves
the declarations of all scopes that were alive before as they are (`Scopes.SameDeclarations`), whatever functions it
calls and however it ends.  A statement may add declarations, but only to the scope it is executed in and only such
as were not there (`Scopes.ExtendsAt`); a block, an `if` or a loop adds none at all.
-/

namespace BraceScript

/-! ### The declarations of a scope -/

namespace Scope

variable {a b c : Scope} {name : String}

/-- The names of a scope, each with whether it is a constant, latest first. -/
def names (scope : Scope) : List (String × Bool) := scope.bindings.map fun (n, b) => (n, b.isConstant)

private theorem binding?_eq_none_iff : a.binding? name = none ↔ ∀ p ∈ a.names, p.1 ≠ name := by
  unfold binding? names
  rw [List.lookup_eq_none_iff]
  constructor
  · intro h p hp
    obtain ⟨entry, hentry, rfl⟩ := List.mem_map.1 hp
    have hne : name ≠ entry.1 := by simpa using h entry hentry
    exact hne.symm
  · intro h entry hentry
    have hne : entry.1 ≠ name := h _ (List.mem_map_of_mem hentry)
    simpa using hne.symm

private theorem struct?_eq_none_iff : a.struct? name = none ↔ ∀ d ∈ a.structs, d.name.name ≠ name := by
  unfold struct?
  simp

private theorem names_set (value : Value) : (a.set name value).names = a.names := by
  unfold names set
  rw [List.map_map]
  apply List.map_congr_left
  rintro ⟨n, b⟩ -
  simp only [Function.comp_apply]
  split <;> rfl

/-- Both scopes declare the same. -/
structure SameDeclarations (a b : Scope) : Prop where
  names : b.names = a.names
  structs : b.structs = a.structs

private theorem SameDeclarations.refl (a : Scope) : a.SameDeclarations a := ⟨rfl, rfl⟩

private theorem SameDeclarations.trans (h : a.SameDeclarations b) (h' : b.SameDeclarations c) :
    a.SameDeclarations c :=
  ⟨h'.names.trans h.names, h'.structs.trans h.structs⟩

/-- `b` declares what `a` does, and besides only names and structs that `a` does not have. -/
structure Extends (a b : Scope) : Prop where
  names : ∃ new, b.names = new ++ a.names ∧ ∀ p ∈ new, a.binding? p.1 = none
  structs : ∃ new, b.structs = new ++ a.structs ∧ ∀ d ∈ new, a.struct? d.name.name = none

private theorem SameDeclarations.extends (h : a.SameDeclarations b) : a.Extends b :=
  ⟨⟨[], h.names, by simp⟩, ⟨[], h.structs, by simp⟩⟩

/-- What is new to `b` is new to `a`, too. -/
private theorem Extends.trans (h : a.Extends b) (h' : b.Extends c) : a.Extends c := by
  obtain ⟨⟨ns, hns, hnew⟩, ds, hds, hstructs⟩ := h
  obtain ⟨⟨ns', hns', hnew'⟩, ds', hds', hstructs'⟩ := h'
  constructor
  · refine ⟨ns' ++ ns, by rw [hns', hns, List.append_assoc], fun p hp => ?_⟩
    rcases List.mem_append.1 hp with hp | hp
    · have hfree := binding?_eq_none_iff.1 (hnew' p hp)
      rw [hns] at hfree
      exact binding?_eq_none_iff.2 fun q hq => hfree q (List.mem_append_right _ hq)
    · exact hnew p hp
  · refine ⟨ds' ++ ds, by rw [hds', hds, List.append_assoc], fun d hd => ?_⟩
    rcases List.mem_append.1 hd with hd | hd
    · have hfree := struct?_eq_none_iff.1 (hstructs' d hd)
      rw [hds] at hfree
      exact struct?_eq_none_iff.2 fun q hq => hfree q (List.mem_append_right _ hq)
    · exact hstructs d hd

private theorem extends_bind {new : Binding} (hnone : a.binding? name = none) : a.Extends (a.bind name new) :=
  ⟨⟨[(name, new.isConstant)], rfl, by simpa using hnone⟩, ⟨[], rfl, by simp⟩⟩

private theorem extends_declareStruct {d : StructDecl} (hnone : a.struct? d.name.name = none) :
    a.Extends { a with structs := d :: a.structs } :=
  ⟨⟨[], rfl, by simp⟩, ⟨[d], rfl, by simpa using hnone⟩⟩

end Scope

/-! ### The declarations of all scopes -/

namespace Scopes

variable {s t u : Scopes} {scope : ScopeId} {name : String}

/-- Every scope that is alive in `s` is alive in `t` and declares the same. -/
def SameDeclarations (s t : Scopes) : Prop :=
  ∀ id here, s.get? id = some here → ∃ there, t.get? id = some there ∧ here.SameDeclarations there

/-- Every scope that is alive in `s` is alive in `t` and declares the same, but for what is new in `scope`. -/
def ExtendsAt (scope : ScopeId) (s t : Scopes) : Prop :=
  ∀ id here, s.get? id = some here → ∃ there, t.get? id = some there ∧
    (id ≠ scope → here.SameDeclarations there) ∧ here.Extends there

private theorem SameDeclarations.refl (s : Scopes) : s.SameDeclarations s :=
  fun _ here hget => ⟨here, hget, .refl here⟩

private theorem SameDeclarations.trans (h : s.SameDeclarations t) (h' : t.SameDeclarations u) :
    s.SameDeclarations u := by
  intro id here hget
  obtain ⟨there, hthere, hsame⟩ := h id here hget
  obtain ⟨last, hlast, hsame'⟩ := h' id there hthere
  exact ⟨last, hlast, hsame.trans hsame'⟩

private theorem SameDeclarations.extendsAt (h : s.SameDeclarations t) (scope : ScopeId) : ExtendsAt scope s t := by
  intro id here hget
  obtain ⟨there, hthere, hsame⟩ := h id here hget
  exact ⟨there, hthere, fun _ => hsame, hsame.extends⟩

private theorem ExtendsAt.trans (h : ExtendsAt scope s t) (h' : ExtendsAt scope t u) : ExtendsAt scope s u := by
  intro id here hget
  obtain ⟨there, hthere, hsame, hextends⟩ := h id here hget
  obtain ⟨last, hlast, hsame', hextends'⟩ := h' id there hthere
  exact ⟨last, hlast, fun hne => (hsame hne).trans (hsame' hne), hextends.trans hextends'⟩

private theorem sameDeclarations_set (owner : ScopeId) (value : Value) :
    s.SameDeclarations (s.modify owner (·.set name value)) := by
  intro id here hget
  rw [get?_modify, hget]
  split
  · exact ⟨_, rfl, Scope.names_set value, rfl⟩
  · exact ⟨_, rfl, .refl here⟩

/-- A scope other than `scope` has another slot, so a change of `scope` alone extends it. -/
private theorem extendsAt_modify {here : Scope} (hget : s.get? scope = some here) {f : Scope → Scope}
    (hf : here.Extends (f here)) : ExtendsAt scope s (s.modify scope f) := by
  intro id other hother
  rw [get?_modify, hother]
  by_cases hindex : scope.index = id.index
  · obtain rfl : scope = id := eq_of_index hget hother hindex
    obtain rfl : here = other := Option.some.inj (hget.symm.trans hother)
    rw [if_pos rfl]
    exact ⟨_, rfl, fun hne => absurd rfl hne, hf⟩
  · rw [if_neg hindex]
    exact ⟨_, rfl, fun _ => .refl other, (Scope.SameDeclarations.refl other).extends⟩

/-- What is declared in a new scope is not seen in the scopes that were there. -/
private theorem SameDeclarations.of_push {parent : ScopeId} (hstored : s.live ≤ s.slots.size)
    (h : ExtendsAt (s.push parent).2 (s.push parent).1 t) : s.SameDeclarations t := by
  intro id here hget
  have hlt : id.index < s.live := (get?_eq_some_iff.1 hget).1
  have hne : id ≠ (s.push parent).2 := by
    rintro rfl
    rw [push_index] at hlt
    omega
  obtain ⟨there, hthere, hsame, -⟩ := h id here (by rw [get?_push_of_ne parent hstored (by omega), hget])
  exact ⟨there, hthere, hsame hne⟩

private theorem SameDeclarations.dropLast (h : s.SameDeclarations t) (hlive : t.live = s.live + 1) :
    s.SameDeclarations t.dropLast := by
  intro id here hget
  have hlt : id.index < s.live := (get?_eq_some_iff.1 hget).1
  obtain ⟨there, hthere, hsame⟩ := h id here hget
  exact ⟨there, by rw [get?_dropLast (by omega), hthere], hsame⟩

private theorem sameDeclarations_of_assign {value : Value} (h : s.assign scope name value = .ok t) :
    s.SameDeclarations t := by
  unfold assign at h
  split at h
  · cases h
  · split at h
    · cases h
    · cases h
      exact sameDeclarations_set _ value

private theorem extendsAt_of_declare {b : Binding} (h : s.declare scope name b = .ok t) : ExtendsAt scope s t := by
  unfold declare at h
  split at h
  · cases h
  · rename_i here hget
    split at h
    · cases h
    · rename_i hnone
      cases h
      exact extendsAt_modify hget (Scope.extends_bind (by simpa using hnone))

private theorem extendsAt_of_declareStruct {d : StructDecl} (h : s.declareStruct scope d = .ok t) :
    ExtendsAt scope s t := by
  unfold declareStruct at h
  split at h
  · cases h
  · rename_i here hget
    split at h
    · cases h
    · rename_i hnone
      cases h
      exact extendsAt_modify hget (Scope.extends_declareStruct (by simpa using hnone))

end Scopes

/-! ### Computations -/

namespace Eval

variable {α β : Type} {scope : ScopeId} {R : Scopes → Scopes → Prop}

/-- The computation is balanced, and however it ends, also for lack of fuel, its last scopes are related to the
first. -/
def Moves (R : Scopes → Scopes → Prop) ⦃α : Type⦄ (scope : ScopeId) (x : Eval α) : Prop :=
  Balances scope x ∧ ∀ s : Session, s.Sound → s.scopes.isAlive scope = true → R s.scopes (x s).session.scopes

/-- Nothing is declared in a scope that was there before. -/
def Undeclaring ⦃α : Type⦄ (scope : ScopeId) (x : Eval α) : Prop := Moves Scopes.SameDeclarations scope x

/-- What is declared is declared in `scope`, of the scopes that were there before, and is new in it. -/
def Declaring ⦃α : Type⦄ (scope : ScopeId) (x : Eval α) : Prop := Moves (Scopes.ExtendsAt scope) scope x

private theorem Moves.mono {R' : Scopes → Scopes → Prop} {x : Eval α} (hx : Moves R scope x)
    (hR : ∀ s t, R s t → R' s t) : Moves R' scope x :=
  ⟨hx.1, fun s hs ha => hR _ _ (hx.2 s hs ha)⟩

private theorem Moves.bind (htrans : ∀ {s t u}, R s t → R t u → R s u) {x : Eval α} {f : α → Eval β}
    (hx : Moves R scope x) (hf : ∀ a, Moves R scope (f a)) : Moves R scope (x >>= f) := by
  refine ⟨hx.1.bind fun a => (hf a).1, fun s hs ha => ?_⟩
  have hfirst := hx.2 s hs ha
  cases h : x s with
  | done a t =>
    rw [h] at hfirst
    obtain ⟨ht, hlevel⟩ := hx.1 s t hs ha (by rw [h]; rfl)
    rw [bind_of_done h]
    exact htrans hfirst ((hf a).2 t ht (hlevel.outline.isAlive ha))
  | failed e t =>
    rw [h] at hfirst
    rw [bind_of_failed h]
    exact hfirst
  | exhausted t =>
    rw [h] at hfirst
    rw [bind_of_exhausted h]
    exact hfirst

private theorem Moves.change (hrefl : ∀ s, R s s) (name : String) (span : Span)
    {f : Scopes → Except ScopeError Scopes} (houtline : ∀ {s t}, f s = .ok t → s.SameOutline t)
    (hf : ∀ {s t}, f s = .ok t → R s t) : Moves R scope (change name span f) := by
  refine ⟨balances_change name span houtline, fun s _ _ => ?_⟩
  unfold Eval.change
  split
  · rename_i scopes hok
    exact hf hok
  · exact hrefl _

private theorem Reads.undeclaring {x : Eval α} (h : x.Reads) : Undeclaring scope x := by
  refine ⟨h.balances, fun s _ _ => ?_⟩
  rcases h.cases s with ⟨a, ha⟩ | ⟨e, he⟩
  · rw [ha]
    exact .refl _
  · rw [he]
    exact .refl _

private theorem undeclaring_replace (name : Ident) (value : Value) :
    Undeclaring scope (replace scope name value) := by
  refine ⟨balances_replace name value, fun s _ _ => ?_⟩
  unfold replace
  split
  · rename_i scopes hok
    exact Scopes.sameDeclarations_of_assign hok
  · exact .refl _

private theorem undeclaring_callBuiltin (name : String) (args : List Value) (span : Span) :
    Undeclaring scope (callBuiltin name args span) := by
  refine ⟨balances_callBuiltin name args span, fun s _ _ => ?_⟩
  rcases callBuiltin_cases name args span s with ⟨b, v, output, -, -, hdone⟩ | ⟨cause, output, hfail, -⟩
  · rw [hdone]
    exact .refl _
  · rw [hfail]
    exact .refl _

/-- What the body of a new scope declares is gone with the scope, and inaccessible from outside as long as it is
there. -/
private theorem Declaring.inScope {span : Span} {body : ScopeId → Eval α} (h : ∀ id, Declaring id (body id)) :
    Undeclaring scope (inScope scope span body) := by
  refine ⟨.inScope fun id => (h id).1, fun s hs ha => ?_⟩
  have halive := Scopes.isAlive_push scope hs.nested.stored
  have hinside : s.scopes.SameDeclarations (body (s.scopes.push scope).2 (s.entered scope)).session.scopes :=
    .of_push hs.nested.stored ((h _).2 _ (hs.entered ha) halive)
  have hleave : ∀ t, (body (s.scopes.push scope).2 (s.entered scope)).session? = some t →
      s.scopes.SameDeclarations t.scopes →
      leave (s.scopes.push scope).2 t = (none, t.left (s.scopes.push scope).2) ∧
        s.scopes.SameDeclarations t.scopes.dropLast := by
    intro t ht hsame
    obtain ⟨hsound, hlevel⟩ := (h _).1 _ t (hs.entered ha) halive ht
    obtain ⟨-, hleave, -⟩ := leave_of_level hs hsound hlevel
    exact ⟨hleave, hsame.dropLast (hlevel.outline.live.trans (Scopes.push_live scope))⟩
  rw [inScope_eq]
  cases hb : body (s.scopes.push scope).2 (s.entered scope) with
  | exhausted t =>
    rw [hb] at hinside
    exact hinside
  | done a t =>
    rw [hb] at hinside
    obtain ⟨hleft, hsame⟩ := hleave t (by rw [hb]; rfl) hinside
    simp only [hleft]
    exact hsame
  | failed e t =>
    rw [hb] at hinside
    obtain ⟨hleft, hsame⟩ := hleave t (by rw [hb]; rfl) hinside
    simp only [hleft]
    exact hsame

private theorem Undeclaring.deeper {body : Eval α} {s : Session} (h : Undeclaring scope body) (hs : s.Sound)
    (ha : s.scopes.isAlive scope = true) (hd : s.depth < s.maxDepth) :
    s.scopes.SameDeclarations (deeper body s).session.scopes := by
  have hinside := h.2 (s.moveTo s.scopes (s.depth + 1)) (hs.moveTo hs.nested hd) ha
  unfold Eval.deeper
  cases hb : body (s.moveTo s.scopes (s.depth + 1)) with
  | exhausted t | done _ t | failed _ t =>
    rw [hb] at hinside
    exact hinside

/-- The frame of a call lies below the scope of the function, wherever this is. -/
private theorem Declaring.call {span : Span} {body : ScopeId → Eval α} (d : FunctionDecl) (closure : ScopeId)
    (args : Nat) (h : ∀ id, Declaring id (body id)) :
    Undeclaring scope (callable d closure args span >>= fun _ => Eval.deeper (Eval.inScope closure span body)) := by
  refine ⟨.call d closure args fun id => (h id).1, fun s hs _ => ?_⟩
  rcases callable_cases d closure args span s with ⟨hc, hd, ha⟩ | ⟨hc, -⟩ | ⟨e, hc, -⟩
  · rw [bind_of_done hc]
    have hnote : (s.note (.called d closure true)).Sound := hs.note (by simp) (by simp)
    exact Undeclaring.deeper (s := s.note (.called d closure true)) (Declaring.inScope h) hnote ha hd
  · rw [bind_of_failed hc]
    exact .refl _
  · rw [bind_of_failed hc]
    exact .refl _

/-- No expression declares anything, and a statement declares in its own scope only. -/
private theorem declarations_discipline : Discipline Undeclaring Declaring where
  reads := Reads.undeclaring
  exhausted := ⟨balances_discipline.exhausted, fun _ _ _ => .refl _⟩
  record _ _ h := ⟨balances_record h, fun _ _ _ => .refl _⟩
  opened h := h.mono fun _ _ hsame => hsame.extendsAt _
  bind := Moves.bind .trans
  bind_loud := Moves.bind .trans
  assign _ := undeclaring_replace
  builtin _ := undeclaring_callBuiltin
  declare _ _ _ _ :=
    .change (fun s => (Scopes.SameDeclarations.refl s).extendsAt _) _ _ Scopes.sameOutline_declare
      Scopes.extendsAt_of_declare
  declareStruct _ _ _ _ :=
    .change (fun s => (Scopes.SameDeclarations.refl s).extendsAt _) _ _ Scopes.sameOutline_declareStruct
      Scopes.extendsAt_of_declareStruct
  inScope := Declaring.inScope
  call := Declaring.call

end Eval

/-- However it ends, the evaluation of an expression leaves the declarations of all scopes that were alive as they
are.  The execution of a statement leaves those of all other scopes as they are and adds to its own scope only names
and structs that were not there; a block, an `if` or a loop adds none. -/
theorem Session.Attained.declarations_stay {s : Session} (hs : s.Attained) {scope : ScopeId}
    (ha : s.scopes.isAlive scope = true) (fuel : Nat) :
    (∀ e : Expr, s.scopes.SameDeclarations (e.eval fuel scope s).session.scopes) ∧
    (∀ st : Stmt, s.scopes.ExtendsAt scope (st.exec fuel scope s).session.scopes) ∧
    ∀ st : Stmt, st.IsEnclosed → s.scopes.SameDeclarations (st.exec fuel scope s).session.scopes := by
  have hall := Eval.declarations_discipline.disciplined fuel
  refine ⟨fun e => ?_, fun st => ?_, fun st hst => ?_⟩
  · exact (hall.expr scope e).2 s hs.sound ha
  · exact (hall.stmt scope st).2 s hs.sound ha
  · exact (hall.enclosed scope st hst).2 s hs.sound ha

/-- The program `const c := 1; fn f() { let c := 2; { let d := 3; g; } }`. -/
private def locals : Program :=
  let c : Ident := ⟨"c", default⟩
  let number (n : Int) : Expr := .literal (.integer n .w8) default
  let inner : Block := ⟨[.declare ⟨⟨"d", default⟩, false, none, some (number 3), default⟩,
    .expression (.ident ⟨"g", default⟩) default], default⟩
  let body : Block := ⟨[.declare ⟨c, false, none, some (number 2), default⟩, .block inner], default⟩
  ⟨"m", [], [.declare ⟨c, true, none, some (number 1), default⟩,
    .function ⟨⟨"f", default⟩, [], .void, body, default⟩], default⟩

/-- The session after it. -/
private def localsDone : Session := (locals.run 12 (.fresh .empty 1 .empty)).session

/-- The expression `f()`. -/
private def callLocals : Expr := .call ⟨"f", default⟩ [] default

/-- The statement `let x;`. -/
private def declareX : Stmt := .declare ⟨⟨"x", default⟩, false, none, none, default⟩

/-- The call of `f` fails in a block inside the function, where two scopes with names of their own are alive, and the
root scope binds the constants `f` and `c` as before; so it does if the call stands in a block.  The statement
`let x;` adds one name. -/
theorem Session.Attained.declarations_stay_failingCall :
    ∃ here e t e' t' flow u there, localsDone.scopes.get? ⟨0, 0⟩ = some here ∧
      here.names = [("f", true), ("c", true)] ∧
      callLocals.eval 12 ⟨0, 0⟩ localsDone = .failed e t ∧ localsDone.scopes.SameDeclarations t.scopes ∧
      (Stmt.block ⟨[.expression callLocals default], default⟩).exec 12 ⟨0, 0⟩ localsDone = .failed e' t' ∧
      localsDone.scopes.SameDeclarations t'.scopes ∧
      declareX.exec 12 ⟨0, 0⟩ localsDone = .done flow u ∧ localsDone.scopes.ExtendsAt ⟨0, 0⟩ u.scopes ∧
      u.scopes.get? ⟨0, 0⟩ = some there ∧ there.names = [("x", false), ("f", true), ("c", true)] := by
  have hs : localsDone.Reachable := .run locals 12 (.fresh .empty 1 .empty) rfl
  obtain ⟨here, hget, hnames⟩ :
      ∃ here, localsDone.scopes.get? ⟨0, 0⟩ = some here ∧ here.names = [("f", true), ("c", true)] := ⟨_, rfl, rfl⟩
  obtain ⟨e, t, hcall⟩ : ∃ e t, callLocals.eval 12 ⟨0, 0⟩ localsDone = .failed e t := ⟨_, _, rfl⟩
  obtain ⟨e', t', hblock⟩ : ∃ e t,
      (Stmt.block ⟨[.expression callLocals default], default⟩).exec 12 ⟨0, 0⟩ localsDone = .failed e t := ⟨_, _, rfl⟩
  obtain ⟨flow, u, there, hdeclare, hthere, hnew⟩ : ∃ flow u there,
      declareX.exec 12 ⟨0, 0⟩ localsDone = .done flow u ∧
      u.scopes.get? ⟨0, 0⟩ = some there ∧ there.names = [("x", false), ("f", true), ("c", true)] :=
    ⟨_, _, _, rfl, rfl, rfl⟩
  obtain ⟨hexpr, hstmt, henclosed⟩ :=
    Session.Attained.declarations_stay hs.attained (Scopes.isAlive_of_get? hget) 12
  refine ⟨here, e, t, e', t', flow, u, there, hget, hnames, hcall, ?_, hblock, ?_, hdeclare, ?_, hthere, hnew⟩
  · have hkept := hexpr callLocals
    rwa [hcall] at hkept
  · have hkept := henclosed (.block ⟨[.expression callLocals default], default⟩) trivial
    rwa [hblock] at hkept
  · have hadded := hstmt declareX
    rwa [hdeclare] at hadded

end BraceScript
