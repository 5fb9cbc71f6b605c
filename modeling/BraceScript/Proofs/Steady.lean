import BraceScript.Proofs.Contract

/-!
# Properties of values that last

A property of values that does not depend on what has happened before lasts as soon as good values are made of good
values only, and every built-in function keeps it.  `Contract.steady` is the contract that asks for it: at every
moment after some past, what is bound and what expressions are evaluated to has the property, and the structs that
are declared are allowed.  Its laws are those about values, and one about the default instances of the structs
(`Contract.lawful_steady`).
-/

namespace BraceScript

/-- What the built-in function yields for arguments with the property has the property. -/
def Builtin.Keeps (p : Value → Prop) (b : Builtin) : Prop :=
  ∀ args output v rest, (∀ a ∈ args, p a) → b.call args output = (.ok v, rest) → p v

/-! ### Scopes -/

/-- What is bound has the property, and the structs that are declared are allowed. -/
structure Scopes.Steady (p : Value → Prop) (stmt : Stmt → Prop) (s : Scopes) : Prop where
  bound : s.Holds p
  structs : ∀ d, s.Declares d → stmt (.struct d)

namespace Scopes.Steady

variable {p : Value → Prop} {stmt : Stmt → Prop} {s : Scopes} {owner : ScopeId} {name : String}

private theorem set (h : s.Steady p stmt) {value : Value} (hv : p value) :
    (s.modify owner (·.set name value)).Steady p stmt :=
  ⟨h.bound.set hv, fun d hd => h.structs d (hd.of_modify fun _ => rfl)⟩

private theorem bind (h : s.Steady p stmt) {here : Scope} {new : Binding} (hget : s.get? owner = some here)
    (hnone : here.binding? name = none) (hv : p new.value) : (s.modify owner (·.bind name new)).Steady p stmt :=
  ⟨h.bound.bind hget hnone hv, fun d hd => h.structs d (hd.of_modify fun _ => rfl)⟩

private theorem declareStruct (h : s.Steady p stmt) {d : StructDecl} (hd : stmt (.struct d)) :
    (s.modify owner fun here => { here with structs := d :: here.structs }).Steady p stmt := by
  refine ⟨h.bound.declareStruct d, fun d' hd' => ?_⟩
  rcases hd'.of_declareStruct with rfl | hd'
  · exact hd
  · exact h.structs d' hd'

private theorem push (h : s.Steady p stmt) (parent : ScopeId) (hstored : s.live ≤ s.slots.size) :
    (s.push parent).1.Steady p stmt :=
  ⟨h.bound.push parent hstored, fun d hd => h.structs d (hd.of_push hstored)⟩

private theorem dropLast (h : s.Steady p stmt) : s.dropLast.Steady p stmt :=
  ⟨h.bound.dropLast, fun d hd => h.structs d hd.of_dropLast⟩

private theorem initial : Scopes.initial.Steady p stmt := ⟨holds_initial, fun _ hd => absurd hd not_declares_initial⟩

end Scopes.Steady

/-! ### Sessions -/

/-- Now and at every moment after `past`, what is bound and what has been evaluated has the property `p`, and the
structs that are declared are allowed. -/
structure Session.Steady (p : Value → Prop) (stmt : Stmt → Prop) (past : List Event) (s : Session) : Prop where
  builtins : ∀ b ∈ s.builtins.entries, b.Keeps p
  now : s.scopes.Steady p stmt
  since : ∃ new, s.events = new ++ past ∧ (∀ scopes depth, .state scopes depth ∈ new → scopes.Steady p stmt) ∧
    ∀ e v, .value e v ∈ new → p v

namespace Session.Steady

variable {p : Value → Prop} {stmt : Stmt → Prop} {past : List Event} {s : Session}

private theorem note (h : s.Steady p stmt past) {e : Event} (hstate : ∀ scopes depth, e ≠ .state scopes depth)
    (hvalue : ∀ d v, e = .value d v → p v) : (s.note e).Steady p stmt past := by
  obtain ⟨hbuiltins, hnow, new, hnew, hstates, hvalues⟩ := h
  refine ⟨hbuiltins, hnow, e :: new, by rw [events_note, hnew]; rfl, ?_, ?_⟩
  · intro scopes depth hmem
    rcases List.mem_cons.1 hmem with heq | hmem
    · exact absurd heq.symm (hstate scopes depth)
    · exact hstates scopes depth hmem
  · intro d v hmem
    rcases List.mem_cons.1 hmem with heq | hmem
    · exact hvalue d v heq.symm
    · exact hvalues d v hmem

private theorem moveTo (h : s.Steady p stmt past) {scopes : Scopes} (depth : Nat) (hscopes : scopes.Steady p stmt) :
    (s.moveTo scopes depth).Steady p stmt past := by
  obtain ⟨hbuiltins, -, new, hnew, hstates, hvalues⟩ := h
  refine ⟨hbuiltins, hscopes, .state scopes depth :: new, by rw [events_moveTo, hnew]; rfl, ?_, ?_⟩
  · intro scopes' depth' hmem
    rcases List.mem_cons.1 hmem with heq | hmem
    · obtain ⟨rfl, -⟩ := Event.state.inj heq
      exact hscopes
    · exact hstates scopes' depth' hmem
  · intro d v hmem
    rcases List.mem_cons.1 hmem with heq | hmem
    · cases heq
    · exact hvalues d v hmem

/-- A session in which nothing has happened yet. -/
theorem fresh {builtins : Registry} (h : ∀ b ∈ builtins.entries, b.Keeps p) (maxDepth : Nat) (output : Output) :
    (Session.fresh builtins maxDepth output).Steady p stmt [] := by
  refine ⟨h, .initial, [.state .initial 0], by rw [events_fresh]; rfl, ?_, by simp⟩
  intro scopes depth hmem
  obtain ⟨rfl, -⟩ := Event.state.inj (List.mem_singleton.1 hmem)
  exact .initial

/-- What is known of the present only. -/
theorem start (hbuiltins : ∀ b ∈ s.builtins.entries, b.Keeps p) (hnow : s.scopes.Steady p stmt) :
    s.Steady p stmt s.events := ⟨hbuiltins, hnow, [], rfl, by simp, by simp⟩

end Session.Steady

/-! ### The contract -/

namespace Contract

variable {p : Value → Prop} {literal : Literal → Prop} {stmt : Stmt → Prop} {past : List Event}

/-- Values have the property `p` at every moment after `past`. -/
def steady (p : Value → Prop) (literal : Literal → Prop) (stmt : Stmt → Prop) (past : List Event) : Contract where
  inv := Session.Steady p stmt past
  fault _ := Session.Steady p stmt past
  good _ := p
  raw _ _ := p
  literal := literal
  stmt := stmt

private theorem stepLaws_steady (h : (steady p literal stmt past).ValueLaws)
    (hstruct : ∀ d, stmt (.struct d) → p (.struct d (Eval.defaultFields d))) :
    (steady p literal stmt past).StepLaws where
  toValueLaws := h
  bound h hb := h.now.bound _ _ _ hb
  struct h hd := hstruct _ (h.now.structs _ hd)
  builtin h hb hargs hcall := h.builtins _ (List.mem_of_find?_eq_some hb) _ _ _ _ hargs hcall
  output _ h := ⟨h.builtins, h.now, h.since⟩
  value h hv := ⟨h.note (by simp) (by rintro _ _ ⟨⟩; exact hv), hv⟩
  assign := by
    intro s scope owner name b w _ hs _ _ _ _ hw
    have hnote : (s.note (.assigned s.scopes scope name)).Steady p stmt past := hs.note (by simp) (by simp)
    exact hnote.moveTo _ (hs.now.set hw)
  declare _ h hget hnone hv := h.moveTo _ (h.now.bind hget hnone hv)
  introduce := by
    intro s scope here name t v isConstant _ hs hget hnone hv _
    have hbound : (Eval.bound s scope name ⟨v, isConstant⟩).Steady p stmt past :=
      hs.moveTo _ (hs.now.bind hget hnone hv)
    exact hbound.note (by simp) (by simp)
  declareFunction := by
    intro s scope here d _ hs hget hnone hd hcode
    have hgood : p (.function d scope) := @ValueLaws.declared _ h [] d scope hd hcode
    have hbound : (Eval.bound s scope d.name.name ⟨.function d scope, true⟩).Steady p stmt past :=
      hs.moveTo _ (hs.now.bind hget hnone hgood)
    exact hbound.note (by simp) (by simp)
  declareStruct _ h _ hd := h.moveTo _ (h.now.declareStruct hd)
  enter := by
    intro s parent hs _ h
    have hnote : (s.note (.entered (s.scopes.push parent).2)).Steady p stmt past := h.note (by simp) (by simp)
    exact hnote.moveTo _ (hnote.now.push parent hs.nested.stored)
  leave := by
    intro s id _ _ h
    have hnote : (s.note (.leaving s.scopes id)).Steady p stmt past := h.note (by simp) (by simp)
    exact hnote.moveTo _ hnote.now.dropLast
  deeper depth h := h.moveTo depth h.now

theorem lawful_steady (h : (steady p literal stmt past).ValueLaws)
    (hstruct : ∀ d, stmt (.struct d) → p (.struct d (Eval.defaultFields d))) : (steady p literal stmt past).Lawful :=
  (stepLaws_steady h hstruct).lawful (fun _ _ => .rfl) fun h _ _ => h.note (by simp) (by simp)

end Contract

end BraceScript
