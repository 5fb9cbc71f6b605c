import Mathlib.Logic.Relation
import BraceScript.Proofs.Escape

/-!
# Variables of a declared type

`Value.HasType` says which values are of a type.  A variable that is declared with a type starts with a value of it,
and it holds that value until something is assigned to it.  The type itself is not kept: an assignment compares the
new value with the one it replaces.  `Value.Lasts` is what is left of the type after any number of assignments: the
tag of a number and its range, the kind of any other value.  Only a variable of type `void` that starts as `null` may
end as anything.
-/

namespace BraceScript

namespace Value

/-- The value is of the type: numbers are tagged with it, and so are the items of arrays.  The type `void` has two
values, and `null` is the type of everything. -/
def HasType : Ty → Value → Prop
  | .integer t, integer n s => s = t ∧ t.holds n = true
  | .float t, float _ s => s = t
  | .boolean, boolean _ | .string, string _ | .character, character _ | .void, void | .void, null | .null, _ => True
  | .array t, array items => ∀ v ∈ items, HasType t v
  | _, _ => False

/-- What assignments leave of a type. -/
def Lasts : Ty → Value → Prop
  | .integer t, integer n s => s = t ∧ t.holds n = true
  | .float t, float _ s => s = t
  | .boolean, boolean _ | .string, string _ | .character, character _ | .void, void | .array _, array _ | .null, _ =>
    True
  | _, _ => False

variable {T : Ty} {v w : Value}

theorem hasType_defaultFor (T : Ty) : HasType T (defaultFor T) := by
  cases T with
  | integer t =>
    obtain ⟨width, signed⟩ := t
    cases width <;> cases signed <;> exact ⟨rfl, rfl⟩
  | float t => exact rfl
  | array t => simp [defaultFor, HasType]
  | _ => exact trivial

theorem hasType_of_conform (h : conform T v = .ok w) : HasType T w := by
  induction T generalizing v w with
  | integer t =>
    cases v with
    | integer n s =>
      rw [conform] at h
      split at h
      · rename_i hholds
        cases h
        exact ⟨rfl, hholds⟩
      · cases h
    | _ => cases h
  | float t => cases v <;> cases h <;> exact rfl
  | array t ih =>
    obtain ⟨items, ws, -, rfl, hws⟩ := conform_array_eq_ok h
    intro u hu
    obtain ⟨v, -, hv⟩ := hws u hu
    exact ih hv
  | null => exact trivial
  | boolean | string | character | void => cases v <;> cases h <;> exact trivial

private theorem Starts.hasType (h : v.Starts T) : HasType T v := by
  rcases h with rfl | ⟨w, hw⟩
  · exact hasType_defaultFor T
  · exact hasType_of_conform hw

private theorem HasType.lasts (h : HasType T v) (hv : v ≠ null) : Lasts T v := by
  cases T <;> cases v <;> first | exact h | exact trivial | exact absurd rfl hv

/-- A value that may be stored over another one keeps what lasts of its type. -/
private theorem Lasts.retag {old new : Value} (h : Lasts T old) (hr : old.retag new = .ok w) : Lasts T w := by
  cases T with
  | null => exact trivial
  | integer t =>
    cases old with
    | integer n s =>
      obtain ⟨rfl, -⟩ := h
      cases new with
      | integer m u =>
        have htype : HasType (.integer s) w := hasType_of_conform hr
        cases w <;> exact htype
      | _ => cases hr
    | _ => exact h.elim
  | float t =>
    cases old with
    | float x s =>
      obtain rfl : s = t := h
      cases new with
      | integer | float =>
        have htype : HasType (.float s) w := hasType_of_conform hr
        cases w <;> exact htype
      | _ => cases hr
    | _ => exact h.elim
  | _ =>
    -- another value is stored as it is, if it is of the same kind
    cases old <;> first | exact h.elim | (cases new <;> cases hr; exact trivial)

private theorem not_lasts_struct {d : StructDecl} {fields : List (String × Value)} (hT : T ≠ .null) :
    ¬ Lasts T (struct d fields) := by
  cases T <;> first | exact id | exact absurd rfl hT

/-- An assignment to a property does not harm a typed variable either: it holds no instance. -/
private theorem Lasts.replaces {old new : Value} (h : Lasts T old) (hr : old.Replaces new) : Lasts T new := by
  rcases hr with ⟨v, hr⟩ | ⟨op, v, span, path, stored, hset⟩
  · exact h.retag hr
  · by_cases hT : T = .null
    · rw [hT]
      exact trivial
    · cases old with
      | struct d fields => exact absurd h (not_lasts_struct hT)
      | _ => cases path <;> cases hset

private theorem Lasts.replaced {old new : Value} (h : Lasts T old) (hr : Relation.ReflTransGen Replaces old new) :
    Lasts T new := by
  induction hr with
  | refl => exact h
  | tail _ hlast ih => exact ih.replaces hlast

end Value

/-! ### Typed variables in a run -/

/-- Something has been assigned to the variable `name` of the scope `id`. -/
def Event.Assigned (es : List Event) (id : ScopeId) (name : String) : Prop :=
  ∃ scopes scope, assigned scopes scope name ∈ es ∧ scopes.resolve scope name = .ok id

private theorem Event.Assigned.cons {es : List Event} {id : ScopeId} {name : String} (h : Assigned es id name)
    (e : Event) : Assigned (e :: es) id name := by
  obtain ⟨scopes, scope, hmem, hresolve⟩ := h
  exact ⟨scopes, scope, List.mem_cons_of_mem e hmem, hresolve⟩

/-- What is known of a variable of which `first` was the first value: it is still its value if it is a constant or if
nothing has been assigned to it, and otherwise its value has been replaced by assignments, one after the other. -/
structure Binding.Keeps (first : Value) (isAssigned : Prop) (b : Binding) : Prop where
  constant : b.isConstant = true → b.value = first
  untouched : ¬ isAssigned → b.value = first
  replaced : Relation.ReflTransGen Value.Replaces first b.value

private theorem Binding.Keeps.mono {first : Value} {p q : Prop} {b : Binding} (h : b.Keeps first p) (hpq : p → q) :
    b.Keeps first q := ⟨h.constant, fun hq => h.untouched fun hp => hq (hpq hp), h.replaced⟩

/-- Every typed variable whose scope has not been left is there and has its first value or has been assigned to. -/
def Scopes.Keeps (s : Scopes) (es : List Event) : Prop :=
  ∀ since id name T first before, es = since ++ .introduced id name T first :: before → ¬ Event.Left since id →
    ∃ b, s.Binds id name b ∧ b.Keeps first (Event.Assigned since id name)

namespace Scopes.Keeps

variable {s t : Scopes} {es : List Event}

/-- Variables that stay as they are. -/
private theorem mono (h : s.Keeps es) (hst : ∀ id name b, s.Binds id name b → t.Binds id name b) : t.Keeps es := by
  intro since id name T first before he hleft
  obtain ⟨b, hb, hkeeps⟩ := h since id name T first before he hleft
  exact ⟨b, hst id name b hb, hkeeps⟩

private theorem cons (h : s.Keeps es) {e : Event} (he : ∀ id name T first, e ≠ .introduced id name T first) :
    s.Keeps (e :: es) := by
  intro since id name T first before heq hleft
  obtain ⟨between, rfl, hrest⟩ := Event.split_of_ne (he id name T first) heq
  obtain ⟨b, hb, hkeeps⟩ := h between id name T first before hrest fun hl => hleft (hl.cons e)
  exact ⟨b, hb, hkeeps.mono fun ha => ha.cons e⟩

private theorem introduce (h : s.Keeps es) {id : ScopeId} {name : String} {T : Ty} {v : Value} {isConstant : Bool}
    (hb : s.Binds id name ⟨v, isConstant⟩) : s.Keeps (.introduced id name T v :: es) := by
  intro since id' name' T' first before heq hleft
  cases since with
  | nil =>
    obtain ⟨⟨rfl, rfl, rfl, rfl⟩, -⟩ := List.cons.inj heq
    exact ⟨_, hb, fun _ => rfl, fun _ => rfl, .refl⟩
  | cons e between =>
    obtain ⟨-, hrest⟩ := List.cons.inj heq
    obtain ⟨b, hb, hkeeps⟩ := h between id' name' T' first before hrest fun hl => hleft (hl.cons e)
    exact ⟨b, hb, hkeeps.mono fun ha => ha.cons e⟩

/-- A variable gets a new value only after its assignment has been taken down. -/
private theorem set (h : s.Keeps es) {scope owner : ScopeId} {name : String} {b : Binding} {w : Value}
    (hl : s.lookup scope name = .ok (owner, b)) (hb : s.Binds owner name b) (hconstant : b.isConstant = false)
    (hw : b.value.Replaces w) : (s.modify owner (·.set name w)).Keeps (.assigned s scope name :: es) := by
  intro since id n T first before heq hleft
  obtain ⟨between, rfl, hrest⟩ := Event.split_of_ne (by simp) heq
  obtain ⟨old, hold, hkeeps⟩ := h between id n T first before hrest fun hl => hleft (hl.cons _)
  rcases hb.set hold w with ⟨rfl, rfl, rfl, hset⟩ | hset
  · have hresolve : s.resolve scope n = .ok id := by simp only [resolve, hl, Except.map]
    refine ⟨_, hset, fun hc => ?_, fun hnot => ?_, hkeeps.replaced.tail hw⟩
    · rw [hconstant] at hc
      cases hc
    · exact absurd ⟨s, scope, List.mem_cons_self, hresolve⟩ hnot
  · exact ⟨old, hset, hkeeps.mono fun ha => ha.cons _⟩

private theorem bind (h : s.Keeps es) {owner : ScopeId} {here : Scope} {name : String} {new : Binding}
    (hget : s.get? owner = some here) (hnone : here.binding? name = none) :
    (s.modify owner (·.bind name new)).Keeps es :=
  h.mono fun _ _ _ hb => (binds_bind hget hnone).2 (.inr hb)

private theorem push (h : s.Keeps es) (parent : ScopeId) (hstored : s.live ≤ s.slots.size) :
    (s.push parent).1.Keeps es :=
  h.mono fun _ _ _ hb => (binds_push parent hstored).2 hb

private theorem declareStruct (h : s.Keeps es) (owner : ScopeId) (d : StructDecl) :
    (s.modify owner fun here => { here with structs := d :: here.structs }).Keeps es :=
  h.mono fun _ _ _ hb => (binds_declareStruct d).2 hb

/-- The variables that are lost are those of the scope that is left. -/
private theorem leave (h : s.Keeps es) {id : ScopeId} (hpop : s.pop id = .ok s.dropLast) (scopes : Scopes) :
    s.dropLast.Keeps (.leaving scopes id :: es) := by
  intro since id' name T first before heq hleft
  obtain ⟨between, rfl, hrest⟩ := Event.split_of_ne (by simp) heq
  obtain ⟨b, hb, hkeeps⟩ := h between id' name T first before hrest fun hl => hleft (hl.cons _)
  refine ⟨b, hb.of_pop hpop ?_, hkeeps.mono fun ha => ha.cons _⟩
  rintro rfl
  exact hleft ⟨scopes, by simp⟩

end Scopes.Keeps

/-- Typed variables start with a value of their type, and now and in every state up to now they have been kept. -/
structure Session.Typed (s : Session) : Prop where
  now : s.scopes.Keeps s.events
  states : ∀ later scopes depth earlier, s.events = later ++ .state scopes depth :: earlier → scopes.Keeps earlier
  starts : ∀ id name T first, .introduced id name T first ∈ s.events → first.HasType T

namespace Session.Typed

variable {s : Session}

private theorem note (h : s.Typed) {e : Event} (hstate : ∀ scopes depth, e ≠ .state scopes depth)
    (hnow : s.scopes.Keeps (e :: s.events))
    (hstart : ∀ id name T first, e = .introduced id name T first → first.HasType T) : (s.note e).Typed := by
  constructor
  · rw [events_note]
    exact hnow
  · intro later scopes depth earlier heq
    rw [events_note] at heq
    obtain ⟨between, -, hrest⟩ := Event.split_of_ne (hstate scopes depth) heq
    exact h.states between scopes depth earlier hrest
  · intro id name T first hmem
    rw [events_note] at hmem
    rcases List.mem_cons.1 hmem with heq | hmem
    · exact hstart id name T first heq.symm
    · exact h.starts id name T first hmem

private theorem noteOther (h : s.Typed) {e : Event} (hstate : ∀ scopes depth, e ≠ .state scopes depth)
    (he : ∀ id name T first, e ≠ .introduced id name T first) : (s.note e).Typed :=
  h.note hstate (h.now.cons he) fun id name T first heq => absurd heq (he id name T first)

private theorem moveTo (h : s.Typed) {scopes : Scopes} (depth : Nat) (hk : scopes.Keeps s.events) :
    (s.moveTo scopes depth).Typed := by
  constructor
  · rw [events_moveTo]
    exact hk.cons (by simp)
  · intro later scopes' depth' earlier heq
    rw [events_moveTo] at heq
    cases later with
    | nil =>
      obtain ⟨⟨rfl, rfl⟩, rfl⟩ := List.cons.inj heq
      exact hk
    | cons e between =>
      obtain ⟨-, hrest⟩ := List.cons.inj heq
      exact h.states between scopes' depth' earlier hrest
  · intro id name T first hmem
    rw [events_moveTo] at hmem
    rcases List.mem_cons.1 hmem with heq | hmem
    · cases heq
    · exact h.starts id name T first hmem

private theorem introduce (h : s.Typed) {scope : ScopeId} {here : Scope} {name : String} {T : Ty} {v : Value}
    {isConstant : Bool} (hget : s.scopes.get? scope = some here) (hnone : here.binding? name = none)
    (hv : v.Starts T) : ((Eval.bound s scope name ⟨v, isConstant⟩).note (.introduced scope name T v)).Typed := by
  have hbound : (Eval.bound s scope name ⟨v, isConstant⟩).Typed := h.moveTo _ (h.now.bind hget hnone)
  refine hbound.note (by simp) ?_ ?_
  · exact hbound.now.introduce ((Scopes.binds_bind hget hnone).2 (.inl ⟨rfl, rfl, rfl⟩))
  · rintro id name T first ⟨⟩
    exact hv.hasType

private theorem leave (h : s.Typed) {id : ScopeId} (hpop : s.scopes.pop id = .ok s.scopes.dropLast) :
    (s.left id).Typed := by
  have hnote : (s.note (.leaving s.scopes id)).Typed := h.noteOther (by simp) (by simp)
  refine hnote.moveTo _ ?_
  rw [events_note]
  exact h.now.leave hpop s.scopes

private theorem enter (h : s.Typed) (hs : s.Sound) (parent : ScopeId) : (s.entered parent).Typed := by
  have hnote : (s.note (.entered (s.scopes.push parent).2)).Typed := h.noteOther (by simp) (by simp)
  exact hnote.moveTo _ (hnote.now.push parent hs.nested.stored)

end Session.Typed

namespace Contract

/-- Typed variables are kept. -/
def typed : Contract where
  inv := Session.Typed
  fault _ := Session.Typed
  good _ _ := True
  raw _ _ _ := True
  literal _ := True

private theorem stepLaws_typed : typed.StepLaws where
  toValueLaws := .of_top (fun _ _ => trivial) (fun _ _ _ => trivial) (fun _ => trivial) fun _ => trivial
  bound _ _ := trivial
  struct _ _ := trivial
  builtin _ _ _ _ := trivial
  output _ h := ⟨h.now, h.states, h.starts⟩
  value h _ := ⟨h.noteOther (by simp) (by simp), trivial⟩
  assign := by
    intro s scope owner name b w _ h hl hb hconstant hw _
    have hnote : (s.note (.assigned s.scopes scope name)).Typed := h.noteOther (by simp) (by simp)
    refine hnote.moveTo _ ?_
    rw [Session.events_note]
    exact h.now.set hl hb hconstant hw
  declare _ h hget hnone _ := h.moveTo _ (h.now.bind hget hnone)
  introduce _ h hget hnone _ hv := h.introduce hget hnone hv
  declareFunction := by
    intro s scope here d _ h hget hnone _ _
    have hbound : (Eval.bound s scope d.name.name ⟨.function d scope, true⟩).Typed :=
      h.moveTo _ (h.now.bind hget hnone)
    exact hbound.noteOther (by simp) (by simp)
  declareStruct _ h _ _ := h.moveTo _ (h.now.declareStruct _ _)
  enter hs _ h := h.enter hs _
  leave _ hpop h := h.leave hpop
  deeper depth h := h.moveTo depth h.now

private theorem lawful_typed : typed.Lawful :=
  stepLaws_typed.lawful (fun _ _ => .rfl) fun h _ _ => h.noteOther (by simp) (by simp)

end Contract

private theorem Session.typed_fresh (builtins : Registry) (maxDepth : Nat) (output : Output) :
    (Session.fresh builtins maxDepth output).Typed := by
  have hkeeps : ∀ {scopes : Scopes} {es : List Event}, es <:+ [.state .initial 0] → scopes.Keeps es := by
    intro scopes es hes since id name T first before heq
    have hmem : Event.introduced id name T first ∈ [Event.state .initial 0] := hes.subset (by rw [heq]; simp)
    simp at hmem
  constructor
  · rw [events_fresh]
    exact hkeeps List.suffix_rfl
  · intro later scopes depth earlier heq
    rw [events_fresh] at heq
    refine hkeeps ?_
    rw [heq]
    exact (List.suffix_cons _ _).trans (List.suffix_append _ _)
  · intro id name T first hmem
    rw [events_fresh] at hmem
    simp at hmem

private theorem Session.Reachable.typed {s : Session} (h : s.Reachable) : s.Typed :=
  Contract.lawful_typed.reachable (fun _ => ⟨fun _ _ _ => trivial, fun _ _ => trivial⟩) (fun _ _ h => h)
    (fun _ _ _ _ => typed_fresh _ _ _)
    (fun _ _ _ h => ⟨h.now, h.states, h.starts⟩) h.by_any

/-! ### Declarations that are taken down -/

namespace Eval

variable {s u : Session}

private theorem introduce_eq_done {scope : ScopeId} {name : Ident} {T : Ty} {v : Value} {isConstant : Bool}
    (h : introduce scope name T v isConstant s = .done () u) :
    .introduced scope name.name T v ∈ u.events ∧ s.events <:+ u.events := by
  unfold introduce at h
  obtain ⟨_, t, hdeclare, hrecord⟩ := bind_eq_done_iff.1 h
  have hevents : s.events <:+ t.events := by
    unfold declare change at hdeclare
    split at hdeclare
    · cases hdeclare
      rw [Session.events_moveTo]
      exact List.suffix_cons _ _
    · cases hdeclare
  cases hrecord
  rw [Session.events_note]
  exact ⟨List.mem_cons_self, hevents.trans (List.suffix_cons _ _)⟩

private theorem checked_eq_done {α : Type} {span : Span} {r : Except Mismatch α} {a : α}
    (h : checked span r s = .done a u) : u = s := by
  cases r with
  | ok b =>
    cases h
    rfl
  | error m => cases h

/-- Every parameter is introduced with its type. -/
private theorem bindParams_eq_done {function : String} {frame : ScopeId} {span : Span} {ps : List Param}
    {vs : List Value} (hlength : vs.length = ps.length) (h : bindParams function frame span ps vs s = .done () u) :
    s.events <:+ u.events ∧ ∀ p ∈ ps, ∃ v, .introduced frame p.name.name p.type v ∈ u.events := by
  induction ps generalizing vs s with
  | nil =>
    cases h
    exact ⟨List.suffix_rfl, by simp⟩
  | cons p ps ih =>
    cases vs with
    | nil => cases hlength
    | cons v vs =>
      rw [bindParams] at h
      obtain ⟨w, s₁, hchecked, hrest⟩ := bind_eq_done_iff.1 h
      obtain ⟨_, s₂, hintroduce, hparams⟩ := bind_eq_done_iff.1 hrest
      obtain rfl : s₁ = s := checked_eq_done hchecked
      obtain ⟨hmem, hevents⟩ := introduce_eq_done hintroduce
      obtain ⟨hsuffix, hall⟩ := ih (Nat.succ.inj hlength) hparams
      refine ⟨hevents.trans hsuffix, ?_⟩
      rw [List.forall_mem_cons]
      exact ⟨⟨w, hsuffix.subset hmem⟩, hall⟩

end Eval

/-- A declaration with a type introduces its name with it. -/
private theorem Stmt.declare_eq_done {fuel : Nat} {scope : ScopeId} {d : VariableDecl} {T : Ty} {s u : Session}
    {flow : Flow} (hT : d.type = some T) (h : (Stmt.declare d).exec fuel scope s = .done flow u) :
    .introduced scope d.name.name T flow.value ∈ u.events := by
  cases fuel with
  | zero => cases h
  | succ fuel =>
    rw [Stmt.exec] at h
    obtain ⟨v, s₁, -, hrest⟩ := Eval.bind_eq_done_iff.1 h
    obtain ⟨_, s₂, hdeclare, hpure⟩ := Eval.bind_eq_done_iff.1 hrest
    cases hpure
    simp only [Eval.declareVariable, hT] at hdeclare
    exact (Eval.introduce_eq_done hdeclare).1

/-! ### Types last -/

/-- Every variable that is declared with a type and every parameter is introduced with a value of its type.  In every
later state, as long as its scope has not been left, it is there.  If it is a constant or nothing has been assigned
to it, it has still that value, which is of the type down to the items of arrays.  Otherwise assignments have
replaced its value, one after the other; unless it started as `null`, it is then tagged with the type and in its
range, or of the kind that the type says. -/
theorem Program.run_keeps_types {s : Session} (hs : s.Reachable) (p : Program) (fuel : Nat) :
    (∀ fuel scope d T (s u : Session) flow, d.type = some T → (Stmt.declare d).exec fuel scope s = .done flow u →
      .introduced scope d.name.name T flow.value ∈ u.events) ∧
    (∀ function frame span ps vs (s u : Session), vs.length = ps.length →
      Eval.bindParams function frame span ps vs s = .done () u →
      ∀ p ∈ ps, ∃ v, .introduced frame p.name.name p.type v ∈ u.events) ∧
    (∀ id name T first, .introduced id name T first ∈ (p.run fuel s).session.events → first.HasType T) ∧
    ∀ later scopes depth since id name T first before, (p.run fuel s).session.events =
        later ++ .state scopes depth :: (since ++ .introduced id name T first :: before) →
      ¬ Event.Left since id → ∃ b, scopes.Binds id name b ∧
        (b.isConstant = true ∨ ¬ Event.Assigned since id name → b.value = first ∧ b.value.HasType T) ∧
        Relation.ReflTransGen Value.Replaces first b.value ∧ (first ≠ .null → b.value.Lasts T) := by
  have htyped := (Contract.lawful_typed.run p (fun _ _ _ => trivial) fuel hs.sound hs.typed).inv (fun _ _ h => h)
  refine ⟨?_, ?_, htyped.starts, ?_⟩
  · intro fuel scope d T s u flow hT hrun
    exact Stmt.declare_eq_done hT hrun
  · intro function frame span ps vs s u hlength hrun
    exact (Eval.bindParams_eq_done hlength hrun).2
  · intro later scopes depth since id name T first before heq hleft
    have hfirst : first.HasType T := htyped.starts id name T first (by rw [heq]; simp)
    obtain ⟨b, hb, hkeeps⟩ := htyped.states later scopes depth _ heq since id name T first before rfl hleft
    refine ⟨b, hb, fun hsame => ?_, hkeeps.replaced, fun hnull => (hfirst.lasts hnull).replaced hkeeps.replaced⟩
    have hvalue : b.value = first := hsame.elim hkeeps.constant hkeeps.untouched
    exact ⟨hvalue, hvalue ▸ hfirst⟩

private def byte : Ty := .integer ⟨.w8, false⟩

private def number (n : Int) : Expr := .literal (.integer n (.narrowest n)) default

private def declaring (name : String) (T : Ty) (first : Expr) : Stmt :=
  .declare ⟨⟨name, default⟩, false, some T, some first, default⟩

private def assigning (name : String) (op : AssignOp) (next : Expr) : Stmt :=
  .expression (.assign (.ident ⟨name, default⟩) ⟨op, default⟩ next default) default

/-- The program `let y: u8 = 200; let x: []u8 = [1]; y -= 100;`. -/
private def updateBeside : Program :=
  ⟨"m", [], [declaring "y" byte (number 200), declaring "x" (.array byte) (.array [number 1] 1 default),
    assigning "y" (.update .sub) (number 100)], default⟩

/-- Of the scopes `s`, `y` is assigned to after `x` has been introduced, and that after `y`. -/
private def UpdatesBeside (s : Scopes) (es : List Event) : Prop :=
  ∃ e scopes w scopes' depth e₁ w₁ e₂ w₂ rest, es = [e] ++ .state s 0 ::
    ([.assigned scopes s.root "y", .value (number 100) w] ++
      .introduced s.root "x" (.array byte) (.array [.integer 1 ⟨.w8, false⟩]) ::
    ([.state scopes' depth, .value e₁ w₁, .value e₂ w₂] ++
      .introduced s.root "y" byte (.integer 200 ⟨.w8, false⟩) :: rest))

/-- After `let y: u8 = 200; let x: []u8 = [1]; y -= 100;` the first variable is still tagged with `u8`, and the
second, to which nothing has been assigned, is still of its type. -/
theorem Program.run_keeps_types_update :
    ∃ v t, updateBeside.run 9 (.fresh .empty 1 .empty) = .done v t ∧ UpdatesBeside t.scopes t.events ∧
      (∃ b, t.scopes.Binds t.scopes.root "y" b ∧ b.value.Lasts byte) ∧
      ∃ b, t.scopes.Binds t.scopes.root "x" b ∧ b.value.HasType (.array byte) := by
  obtain ⟨v, t, hrun, hevents⟩ : ∃ v t, updateBeside.run 9 (.fresh .empty 1 .empty) = .done v t ∧
      UpdatesBeside t.scopes t.events := by
    refine ⟨_, _, rfl, ?_⟩
    apply Session.events_of_timeline (P := UpdatesBeside _)
    · repeat apply Ghost.is_map
      exact rfl
    · exact ⟨_, _, _, _, _, _, _, _, _, _, rfl⟩
  obtain ⟨-, -, -, hkeeps⟩ := Program.run_keeps_types (.fresh .empty 1 .empty) updateBeside 9
  rw [hrun] at hkeeps
  refine ⟨v, t, hrun, hevents, ?_, ?_⟩
  · obtain ⟨e, scopes, w, scopes', depth, e₁, w₁, e₂, w₂, rest, heq⟩ := hevents
    obtain ⟨b, hb, -, -, hlasts⟩ := hkeeps [e] _ _ [_, _, _, _, _, _] _ _ _ _ rest heq (by simp [Event.Left])
    exact ⟨b, hb, hlasts (by simp)⟩
  · obtain ⟨e, scopes, w, scopes', depth, e₁, w₁, e₂, w₂, rest, heq⟩ := hevents
    obtain ⟨b, hb, huntouched, -⟩ := hkeeps _ _ _ _ _ _ _ _ _ heq (by simp [Event.Left])
    exact ⟨b, hb, (huntouched (.inr (by simp [Event.Assigned]))).2⟩

/-- The program `let x: T = first; x = next;`. -/
private def declareThenAssign (T : Ty) (first next : Expr) : Program :=
  ⟨"m", [], [declaring "x" T first, assigning "x" .set next], default⟩

/-- The variable `x`, introduced with the type `T` and the value `first`, holds `last` when the program has run. -/
private def Program.Turns (p : Program) (T : Ty) (first last : Value) : Prop :=
  ∃ v t, p.run 9 (.fresh .empty 1 .empty) = .done v t ∧ t.history (.introduced t.scopes.root "x" T first) ∧
    (∀ scopes, ¬ t.history (.leaving scopes t.scopes.root)) ∧ t.scopes.Binds t.scopes.root "x" ⟨last, false⟩

/-- A variable need not keep its type: after `let x: void = null; x = 5;` it holds an integer, and after
`let x: []i8 = [1]; x = ["a"];` an array of strings. -/
theorem Program.run_forgets_types :
    ((declareThenAssign .void (.literal .null default) (number 5)).Turns .void .null (.integer 5 ⟨.w8, true⟩) ∧
      ¬ Value.HasType .void (.integer 5 ⟨.w8, true⟩)) ∧
    (declareThenAssign (.array (.integer ⟨.w8, true⟩)) (.array [number 1] 1 default)
        (.array [.literal (.string "a") default] 1 default)).Turns (.array (.integer ⟨.w8, true⟩))
          (.array [.integer 1 ⟨.w8, true⟩]) (.array [.string "a"]) ∧
      ¬ Value.HasType (.array (.integer ⟨.w8, true⟩)) (.array [.string "a"]) := by
  refine ⟨⟨⟨_, _, rfl, ?_, ?_, ⟨_, rfl, rfl⟩⟩, id⟩, ⟨_, _, rfl, ?_, ?_, ⟨_, rfl, rfl⟩⟩, ?_⟩
  · -- the integer was evaluated, stored and yielded after the declaration
    exact .inr (.inr (.inr (.inr (.inl rfl))))
  · rintro scopes (h | h | h | h | h | h | h | h) <;> cases h
  · exact .inr (.inr (.inr (.inr (.inr (.inl rfl)))))
  · rintro scopes (h | h | h | h | h | h | h | h | h | h) <;> cases h
  · intro h
    exact h (.string "a") (by simp)

end BraceScript
