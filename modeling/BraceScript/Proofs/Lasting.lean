import Mathlib.Logic.Relation
import BraceScript.Proofs.Escape

/-!
# Variables over time

A variable is there as long as its scope has not been left, and only assignments change it.  `Binding.Becomes` says
what can become of a binding: a constant stays as it is, and the value of any other variable is replaced by
assignments, one after the other (`Value.Replaces`).  By `Program.run_lasting` this relates any two states of a run,
so whatever a single assignment keeps of a value is kept as long as the variable lives.
-/

namespace BraceScript

/-- The binding has turned into `b'` by assignments. -/
structure Binding.Becomes (b b' : Binding) : Prop where
  isConstant : b'.isConstant = b.isConstant
  constant : b.isConstant = true → b'.value = b.value
  value : Relation.ReflTransGen Value.Replaces b.value b'.value

namespace Binding.Becomes

variable {b b₁ b₂ : Binding}

private theorem refl (b : Binding) : b.Becomes b := ⟨rfl, fun _ => rfl, .refl⟩

private theorem trans (h : b.Becomes b₁) (h' : b₁.Becomes b₂) : b.Becomes b₂ where
  isConstant := h'.isConstant.trans h.isConstant
  constant hc := (h'.constant (h.isConstant.trans hc)).trans (h.constant hc)
  value := h.value.trans h'.value

end Binding.Becomes

/-! ### Scopes -/

namespace Scopes

/-- Every variable of `s` is there in `t`, at most with a new value. -/
private def Passes (s t : Scopes) : Prop := ∀ id name b, s.Binds id name b → ∃ b', t.Binds id name b' ∧ b.Becomes b'

variable {s t : Scopes} {owner : ScopeId} {name : String}

private theorem passes_set {b : Binding} {w : Value} (hb : s.Binds owner name b) (hconstant : b.isConstant = false)
    (hw : b.value.Replaces w) : s.Passes (s.modify owner (·.set name w)) := by
  intro id n old hold
  rcases hb.set hold w with ⟨-, -, rfl, hset⟩ | hset
  · refine ⟨_, hset, rfl, fun hc => ?_, .single hw⟩
    rw [hconstant] at hc
    cases hc
  · exact ⟨old, hset, .refl old⟩

private theorem passes_bind {here : Scope} {new : Binding} (hget : s.get? owner = some here)
    (hnone : here.binding? name = none) : s.Passes (s.modify owner (·.bind name new)) :=
  fun _ _ b hb => ⟨b, (binds_bind hget hnone).2 (.inr hb), .refl b⟩

private theorem passes_push (parent : ScopeId) (hstored : s.live ≤ s.slots.size) : s.Passes (s.push parent).1 :=
  fun _ _ b hb => ⟨b, (binds_push parent hstored).2 hb, .refl b⟩

private theorem passes_declareStruct (owner : ScopeId) (d : StructDecl) :
    s.Passes (s.modify owner fun here => { here with structs := d :: here.structs }) :=
  fun _ _ b hb => ⟨b, (binds_declareStruct d).2 hb, .refl b⟩

/-- What was bound in an earlier state, in a scope that has not been left since then, is bound in `s`. -/
def Carries (s : Scopes) (es : List Event) : Prop :=
  ∀ since scopes depth before id name b, es = since ++ .state scopes depth :: before → ¬ Event.Left since id →
    scopes.Binds id name b → ∃ b', s.Binds id name b' ∧ b.Becomes b'

namespace Carries

variable {es : List Event}

private theorem passes (h : s.Carries es) (hst : s.Passes t) : t.Carries es := by
  intro since scopes depth before id name b he hleft hb
  obtain ⟨b₁, hb₁, hbecomes⟩ := h since scopes depth before id name b he hleft hb
  obtain ⟨b₂, hb₂, hbecomes'⟩ := hst id name b₁ hb₁
  exact ⟨b₂, hb₂, hbecomes.trans hbecomes'⟩

private theorem cons (h : s.Carries es) {e : Event} (he : ∀ scopes depth, e ≠ .state scopes depth) :
    s.Carries (e :: es) := by
  intro since scopes depth before id name b heq hleft hb
  obtain ⟨between, rfl, hrest⟩ := Event.split_of_ne (he scopes depth) heq
  exact h between scopes depth before id name b hrest (fun hl => hleft (hl.cons e)) hb

/-- The present state. -/
private theorem state (h : s.Carries es) (depth : Nat) : s.Carries (.state s depth :: es) := by
  intro since scopes depth' before id name b heq hleft hb
  cases since with
  | nil =>
    obtain ⟨⟨rfl, -⟩, -⟩ := List.cons.inj heq
    exact ⟨b, hb, .refl b⟩
  | cons e between =>
    obtain ⟨-, hrest⟩ := List.cons.inj heq
    exact h between scopes depth' before id name b hrest (fun hl => hleft (hl.cons e)) hb

/-- The variables that are lost are those of the scope that is left. -/
private theorem leave (h : s.Carries es) {id : ScopeId} (hpop : s.pop id = .ok s.dropLast) (scopes : Scopes) :
    s.dropLast.Carries (.leaving scopes id :: es) := by
  intro since scopes' depth before id' name b heq hleft hb
  obtain ⟨between, rfl, hrest⟩ := Event.split_of_ne (by simp) heq
  obtain ⟨b', hb', hbecomes⟩ := h between scopes' depth before id' name b hrest (fun hl => hleft (hl.cons _)) hb
  refine ⟨b', hb'.of_pop hpop ?_, hbecomes⟩
  rintro rfl
  exact hleft ⟨scopes, by simp⟩

end Carries

end Scopes

/-! ### Sessions -/

/-- Now and in every state up to now, the variables of all earlier states were there. -/
structure Session.Lasting (s : Session) : Prop where
  now : s.scopes.Carries s.events
  states : ∀ later scopes depth earlier, s.events = later ++ .state scopes depth :: earlier → scopes.Carries earlier

namespace Session.Lasting

variable {s : Session}

private theorem note (h : s.Lasting) {e : Event} (he : ∀ scopes depth, e ≠ .state scopes depth) :
    (s.note e).Lasting := by
  constructor
  · rw [events_note]
    exact h.now.cons he
  · intro later scopes depth earlier heq
    rw [events_note] at heq
    obtain ⟨between, -, hrest⟩ := Event.split_of_ne (he scopes depth) heq
    exact h.states between scopes depth earlier hrest

private theorem moveTo (h : s.Lasting) {scopes : Scopes} (depth : Nat) (hscopes : scopes.Carries s.events) :
    (s.moveTo scopes depth).Lasting := by
  constructor
  · rw [events_moveTo]
    exact hscopes.state depth
  · intro later scopes' depth' earlier heq
    rw [events_moveTo] at heq
    cases later with
    | nil =>
      obtain ⟨⟨rfl, rfl⟩, rfl⟩ := List.cons.inj heq
      exact hscopes
    | cons e between =>
      obtain ⟨-, hrest⟩ := List.cons.inj heq
      exact h.states between scopes' depth' earlier hrest

private theorem bind (h : s.Lasting) {scope : ScopeId} {here : Scope} {name : String} {new : Binding}
    (hget : s.scopes.get? scope = some here) (hnone : here.binding? name = none) :
    (Eval.bound s scope name new).Lasting :=
  h.moveTo _ (h.now.passes (Scopes.passes_bind hget hnone))

private theorem leave (h : s.Lasting) {id : ScopeId} (hpop : s.scopes.pop id = .ok s.scopes.dropLast) :
    (s.left id).Lasting := by
  refine (h.note (by simp)).moveTo _ ?_
  rw [events_note]
  exact h.now.leave hpop s.scopes

private theorem enter (h : s.Lasting) (hs : s.Sound) (parent : ScopeId) : (s.entered parent).Lasting := by
  have hnote : (s.note (.entered (s.scopes.push parent).2)).Lasting := h.note (by simp)
  exact hnote.moveTo _ (hnote.now.passes (Scopes.passes_push parent hs.nested.stored))

private theorem fresh (builtins : Registry) (maxDepth : Nat) (output : Output) :
    (Session.fresh builtins maxDepth output).Lasting := by
  have hnil : Scopes.initial.Carries [] := by
    intro since scopes depth before id name b heq
    simp at heq
  constructor
  · rw [events_fresh]
    exact hnil.state 0
  · intro later scopes depth earlier heq
    rw [events_fresh] at heq
    cases later with
    | nil =>
      obtain ⟨⟨rfl, rfl⟩, rfl⟩ := List.cons.inj heq
      exact hnil
    | cons e between => simp at heq

end Session.Lasting

/-! ### Runs -/

namespace Contract

/-- Variables last. -/
def lasting : Contract where
  inv := Session.Lasting
  fault _ := Session.Lasting
  good _ _ := True
  raw _ _ _ := True
  literal _ := True

private theorem stepLaws_lasting : lasting.StepLaws where
  toValueLaws := .of_top (fun _ _ => trivial) (fun _ _ _ => trivial) (fun _ => trivial) fun _ => trivial
  bound _ _ := trivial
  struct _ _ := trivial
  builtin _ _ _ _ := trivial
  output _ h := ⟨h.now, h.states⟩
  value h _ := ⟨h.note (by simp), trivial⟩
  assign := by
    intro s scope owner name b w _ h _ hb hconstant hw _
    have hnote : (s.note (.assigned s.scopes scope name)).Lasting := h.note (by simp)
    exact hnote.moveTo _ (hnote.now.passes (Scopes.passes_set hb hconstant hw))
  declare _ h hget hnone _ := h.bind hget hnone
  introduce _ h hget hnone _ _ := (h.bind hget hnone).note (by simp)
  declareFunction _ h hget hnone _ _ := (h.bind hget hnone).note (by simp)
  declareStruct _ h _ _ := h.moveTo _ (h.now.passes (Scopes.passes_declareStruct _ _))
  enter hs _ h := h.enter hs _
  leave _ hpop h := h.leave hpop
  deeper depth h := h.moveTo depth h.now

private theorem lawful_lasting : lasting.Lawful :=
  stepLaws_lasting.lawful (fun _ _ => .rfl) fun h _ _ => h.note (by simp)

end Contract

private theorem Session.Reachable.lasting {s : Session} (h : s.Reachable) : s.Lasting :=
  Contract.lawful_lasting.reachable (fun _ => ⟨fun _ _ _ => trivial, fun _ _ => trivial⟩) (fun _ _ h => h)
    (fun _ _ _ _ => .fresh _ _ _) (fun _ _ _ h => ⟨h.now, h.states⟩) h.by_any

/-- What was bound in a state of a run is bound in every later state, as long as the scope has not been left. -/
theorem Program.run_lasting {s : Session} (hs : s.Reachable) (p : Program) (fuel : Nat) :
    (p.run fuel s).session.Lasting :=
  (Contract.lawful_lasting.run p (fun _ _ _ => trivial) fuel hs.sound hs.lasting).inv fun _ _ h => h

end BraceScript
