import BraceScript.Proofs.Constants
import BraceScript.Proofs.ParallelSessions

/-!
# States that occur in runs

A session occurs in a run if what has happened in it has happened in the run, up to some point (`Session.OccursBy`).
In every state that a run goes through the slots of scopes have been used at most once for each entry, and the
functions in all variables are from scopes that are alive or have been left (`Session.Settled`).  So a session that
occurs in a run is side by side with itself (`Session.OccursBy.parallel`).
-/

namespace BraceScript

/-- No slot has come to a generation beyond `n`, and the functions in all variables are from scopes that there are or
were. -/
structure Scopes.SettledAt (s : Scopes) (n : Nat) : Prop where
  bounded : ∀ i g, s.generation? i = some g → g.toNat ≤ n
  known : s.Holds (Value.All (Value.IsKnown fun _ c => s.knows c = true))

/-- The function yields only functions from its arguments, and does not look at their scopes. -/
structure Builtin.Discreet (b : Builtin) : Prop where
  faithful : b.Faithful
  uniform : b.Uniform

namespace Session

/-- In every state up to now, slots had been used once for each entry at most, and functions were from scopes that
there were or had been, unless generations may have wrapped around. -/
def AllSettled (s : Session) : Prop :=
  ∀ later scopes depth earlier, s.events = later ++ .state scopes depth :: earlier →
    Event.entries earlier < 4294967296 → scopes.SettledAt (Event.entries earlier)

variable {s t : Session}

namespace AllSettled

private theorem note (h : s.AllSettled) {e : Event} (he : ∀ scopes depth, e ≠ .state scopes depth) :
    (s.note e).AllSettled := by
  intro later scopes depth earlier heq
  rw [events_note] at heq
  obtain ⟨between, -, hrest⟩ := Event.split_of_ne (he scopes depth) heq
  exact h between scopes depth earlier hrest

private theorem moveTo (h : s.AllSettled) {scopes : Scopes} (depth : Nat)
    (hscopes : Event.entries s.events < 4294967296 → scopes.SettledAt (Event.entries s.events)) :
    (s.moveTo scopes depth).AllSettled := by
  intro later scopes' depth' earlier heq
  rw [events_moveTo] at heq
  cases later with
  | nil =>
    obtain ⟨⟨rfl, rfl⟩, rfl⟩ := List.cons.inj heq
    exact hscopes
  | cons e between =>
    obtain ⟨-, hrest⟩ := List.cons.inj heq
    exact h between scopes' depth' earlier hrest

end AllSettled

/-- All states were settled up to now, and built-in functions do nothing to change that. -/
structure Settled (s : Session) : Prop where
  dated : s.Dated
  grounded : s.Grounded
  uniform : ∀ b ∈ s.builtins.entries, b.Uniform
  states : s.AllSettled

/-- A scope with a function in it is alive or has been left, so it is known. -/
private theorem Grounded.settledAt (h : s.Grounded) (hdated : s.Dated) {n : Nat} (hn : Event.entries s.events = n)
    (hfew : n < 4294967296) : s.scopes.SettledAt n := by
  subst hn
  have hslots := hdated hfew
  refine ⟨hslots.bounded, h.bound.mono (Value.All.mono fun v hv => ?_)⟩
  cases v with
  | function d c =>
    obtain ⟨later, earlier, hsplit⟩ := List.append_of_mem (show Event.declared d c ∈ s.events from hv)
    rcases hslots.declared later d c earlier hsplit with halive | ⟨scopes, hleft⟩
    · exact Scopes.knows_of_isAlive halive
    · obtain ⟨g, hg, hle, -⟩ := hslots.left c ⟨scopes, by rw [hsplit]; exact List.mem_append_left _ hleft⟩
      exact Scopes.knows_iff.2 ⟨g, hg, hle⟩
  | _ => trivial

namespace Settled

private theorem note (h : s.Settled) {e : Event} (he : ∀ scopes depth, e ≠ .state scopes depth)
    (hdated : (s.note e).Dated) (hgrounded : (s.note e).Grounded) : (s.note e).Settled :=
  ⟨hdated, hgrounded, h.uniform, h.states.note he⟩

private theorem moveTo (h : s.Settled) {scopes : Scopes} {depth : Nat} (hdated : (s.moveTo scopes depth).Dated)
    (hgrounded : (s.moveTo scopes depth).Grounded) : (s.moveTo scopes depth).Settled :=
  ⟨hdated, hgrounded, h.uniform, h.states.moveTo depth (hgrounded.settledAt hdated (entries_moveTo _ _))⟩

/-- The function that is bound is known only once its declaration has been taken down. -/
private theorem declareFunction (h : s.Settled) {scope : ScopeId} {d : FunctionDecl}
    (hdated : ((Eval.bound s scope d.name.name ⟨.function d scope, true⟩).note (.declared d scope)).Dated)
    (hgrounded : ((Eval.bound s scope d.name.name ⟨.function d scope, true⟩).note (.declared d scope)).Grounded) :
    ((Eval.bound s scope d.name.name ⟨.function d scope, true⟩).note (.declared d scope)).Settled := by
  refine ⟨hdated, hgrounded, h.uniform,
    AllSettled.note (h.states.moveTo _ (hgrounded.settledAt hdated ?_)) (by simp)⟩
  unfold Eval.bound
  rw [entries_note rfl, entries_moveTo]

private theorem assign (h : s.Settled) (hs : s.Sound) {scope owner : ScopeId} {name : String} {b : Binding}
    {w : Value} (hl : s.scopes.lookup scope name = .ok (owner, b)) (hb : s.scopes.Binds owner name b)
    (hc : b.isConstant = false) (hw : b.value.Replaces w) (hgood : w.Known s.events) :
    (Eval.assigned s scope owner name w).Settled := by
  have hdated := Contract.stepLaws_dated.assign hs h.dated hl hb hc hw trivial
  have hgrounded := Contract.stepLaws_grounded.assign hs h.grounded hl hb hc hw hgood
  refine ⟨hdated, hgrounded, h.uniform, (h.states.note (by simp)).moveTo _ (hgrounded.settledAt hdated ?_)⟩
  exact entries_moveTo _ _

private theorem enter (h : s.Settled) (hs : s.Sound) {parent : ScopeId} (ha : s.scopes.isAlive parent = true) :
    (s.entered parent).Settled := by
  have hdated := Contract.stepLaws_dated.enter hs ha h.dated
  have hgrounded := Contract.stepLaws_grounded.enter hs ha h.grounded
  exact ⟨hdated, hgrounded, h.uniform, (h.states.note (by simp)).moveTo _
    (hgrounded.settledAt hdated (entries_moveTo _ _))⟩

private theorem leave (h : s.Settled) (hs : s.Sound) {id : ScopeId}
    (hpop : s.scopes.pop id = .ok s.scopes.dropLast) : (s.left id).Settled := by
  have hdated := Contract.stepLaws_dated.leave hs hpop h.dated
  have hgrounded := Contract.stepLaws_grounded.leave hs hpop h.grounded
  exact ⟨hdated, hgrounded, h.uniform, (h.states.note (by simp)).moveTo _
    (hgrounded.settledAt hdated (entries_moveTo _ _))⟩

private theorem fresh {builtins : Registry} (h : ∀ b ∈ builtins.entries, b.Discreet) (maxDepth : Nat)
    (output : Output) : (Session.fresh builtins maxDepth output).Settled := by
  have hgrounded : (Session.fresh builtins maxDepth output).Grounded :=
    (ReachableBy.fresh maxDepth output fun b hb => (h b hb).faithful).grounded
  refine ⟨dated_fresh _ _ _, hgrounded, fun b hb => (h b hb).uniform, ?_⟩
  intro later scopes depth earlier heq
  rw [events_fresh] at heq
  cases later with
  | nil =>
    obtain ⟨⟨rfl, rfl⟩, rfl⟩ := List.cons.inj heq
    exact hgrounded.settledAt (dated_fresh _ _ _) (by rw [events_fresh]; rfl)
  | cons e between => simp at heq

private theorem register (h : s.Settled) {b : Builtin} (hb : b.Discreet) :
    { s with builtins := s.builtins.register b }.Settled := by
  refine ⟨h.dated, ⟨h.grounded.bound, fun c hc => ?_, h.grounded.called⟩, fun c hc => ?_, h.states⟩
  · rcases Registry.mem_register hc with rfl | hc
    · exact hb.faithful
    · exact h.grounded.builtins c hc
  · rcases Registry.mem_register hc with rfl | hc
    · exact hb.uniform
    · exact h.uniform c hc

end Settled

end Session

/-! ### Runs -/

namespace Contract

/-- All states are settled. -/
def settled : Contract where
  inv := Session.Settled
  fault _ := Session.Settled
  good es v := v.Known es
  raw es _ v := v.Known es
  literal _ := True

private theorem stepLaws_settled : settled.StepLaws where
  toValueLaws := .of_known (fun _ _ => .rfl) (fun hpast h => hpast.subset h) (fun h => h)
    (fun _ => ⟨fun _ _ _ => trivial, fun _ _ => trivial⟩) fun _ _ => List.mem_cons_self
  bound h := stepLaws_grounded.bound h.grounded
  struct h := stepLaws_grounded.struct h.grounded
  builtin h := stepLaws_grounded.builtin h.grounded
  output output h := ⟨stepLaws_dated.output output h.dated, stepLaws_grounded.output output h.grounded,
    h.uniform, h.states⟩
  value := by
    intro s e v h hv
    obtain ⟨hdated, -⟩ := stepLaws_dated.value (e := e) (v := v) h.dated trivial
    obtain ⟨hgrounded, hgood⟩ := stepLaws_grounded.value h.grounded hv
    exact ⟨h.note (by simp) hdated hgrounded, hgood⟩
  assign hs h hl hb hc hw hgood := h.assign hs hl hb hc hw hgood
  declare hs h hget hnone hgood :=
    h.moveTo (stepLaws_dated.declare hs h.dated hget hnone trivial)
      (stepLaws_grounded.declare hs h.grounded hget hnone hgood)
  introduce hs h hget hnone hgood hstarts :=
    Session.Settled.note (h.moveTo (stepLaws_dated.declare hs h.dated hget hnone trivial)
        (stepLaws_grounded.declare hs h.grounded hget hnone hgood)) (by simp)
      (stepLaws_dated.introduce hs h.dated hget hnone trivial hstarts)
      (stepLaws_grounded.introduce hs h.grounded hget hnone hgood hstarts)
  declareFunction hs h hget hnone _ _ :=
    h.declareFunction (stepLaws_dated.declareFunction hs h.dated hget hnone trivial
      ⟨fun _ _ _ => trivial, fun _ _ => trivial⟩)
      (h.grounded.declareFunction hget hnone)
  declareStruct hs h hget _ :=
    h.moveTo (stepLaws_dated.declareStruct hs h.dated hget trivial)
      (stepLaws_grounded.declareStruct hs h.grounded hget trivial)
  enter hs ha h := h.enter hs ha
  leave hs hpop h := h.leave hs hpop
  deeper depth h := h.moveTo (stepLaws_dated.deeper depth h.dated) (stepLaws_grounded.deeper depth h.grounded)

private theorem lawful_settled : settled.Lawful := by
  refine stepLaws_settled.lawful (fun _ _ => .rfl) ?_
  intro s d closure alive h hgood ha
  have hdated : (s.note (.called d closure alive)).Dated := by
    refine h.dated.note rfl (by simp) (by simp) ?_
    rintro _ _ _ ⟨⟩
    exact ha.symm
  have hgrounded : (s.note (.called d closure alive)).Grounded := by
    refine h.grounded.note ?_
    rintro _ _ _ ⟨⟩
    exact hgood
  exact h.note (by simp) hdated hgrounded

end Contract

private theorem Session.ReachableBy.settled {s : Session} (h : s.ReachableBy Builtin.Discreet) : s.Settled :=
  Contract.lawful_settled.reachable (fun _ => ⟨fun _ _ _ => trivial, fun _ _ => trivial⟩) (fun _ _ h => h)
    (fun _ _ _ hb => .fresh hb _ _) (fun _ _ hb hs => hs.register hb) h

/-- The sessions that come about between and during runs with built-in functions that are `ok`: what has happened in
them is what has happened in some run up to some point. -/
def Session.OccursBy (ok : Builtin → Prop) (s : Session) : Prop :=
  ∃ (first : Session) (p : Program) (fuel : Nat), first.ReachableBy ok ∧ s.builtins = first.builtins ∧
    s.maxDepth = (p.run fuel first).session.maxDepth ∧ s.events <:+ (p.run fuel first).session.events

namespace Session.OccursBy

variable {ok : Builtin → Prop} {s : Session}

private theorem attained (h : s.OccursBy ok) : s.Attained := by
  obtain ⟨first, p, fuel, hfirst, -, hmax, hevents⟩ := h
  exact ⟨first, p, fuel, hfirst.reachable, hmax, fun e he => history_iff.2 (hevents.subset (history_iff.1 he))⟩

/-- A session in which not too many scopes have been entered is side by side with itself. -/
theorem parallel (h : s.OccursBy Builtin.Discreet) (hfew : Event.entries s.events < 4294967296) :
    s.Parallel none s := by
  have hsound := h.attained.sound
  obtain ⟨first, p, fuel, hfirst, hbuiltins, -, hevents⟩ := h
  have hrun := (Contract.lawful_settled.run p (fun _ _ _ => trivial) fuel hfirst.reachable.sound hfirst.settled).inv
    fun _ _ h => h
  -- the present state is one of the states of the run
  obtain ⟨between, earlier, hsplit⟩ := List.append_of_mem (history_iff.1 s.recorded)
  obtain ⟨later, hlater⟩ := hevents
  have hearlier : Event.entries earlier ≤ Event.entries s.events := by
    rw [hsplit]
    exact Event.entries_le ((List.suffix_cons _ _).trans (List.suffix_append _ _))
  have hsettled : s.scopes.SettledAt (Event.entries earlier) := by
    refine hrun.states (later ++ between) s.scopes s.depth earlier ?_ (Nat.lt_of_le_of_lt hearlier hfew)
    rw [← hlater, hsplit, List.append_assoc]
  have htidy : s.Tidy := ⟨hsound, fun i g hg => Nat.le_trans (hsettled.bounded i g hg) hearlier⟩
  refine ⟨htidy, htidy, .refl hsound.nested hsettled.known, rfl, ?_, rfl, rfl, rfl, Nat.le_refl _, hfew⟩
  rw [hbuiltins]
  exact hfirst.settled.uniform

end Session.OccursBy

theorem Session.ReachableBy.occurs {ok : Builtin → Prop} {s : Session} (h : s.ReachableBy ok) : s.OccursBy ok :=
  ⟨s, ⟨"", [], [], default⟩, 1, h, rfl, rfl, List.suffix_rfl⟩

namespace Registry

/-- The default built-in functions do not look at the scopes of functions. -/
private theorem uniform_default (now : Nat) : ∀ b ∈ (Registry.default now).entries, b.Uniform := by
  intro b hb f args output
  have hargs : b.call (args.map (Value.relabel (.ofScopes f))) output = b.call args output := by
    rcases mem_register hb with rfl | hb
    · rfl
    rcases mem_register hb with rfl | hb
    · simp only [Builtin.len, Builtin.lengthOf_relabel]
    rcases mem_register hb with rfl | hb
    · exact Builtin.print_relabel _ args output
    · cases hb
  rw [hargs]
  cases hcall : b.call args output with
  | mk r rest =>
    cases r with
    | error m => rfl
    | ok v =>
      rcases call_default hb hcall with rfl | ⟨n, -, rfl⟩
      · rfl
      · rfl

theorem discreet_default (now : Nat) : ∀ b ∈ (Registry.default now).entries, b.Discreet := fun b hb =>
  ⟨faithful_default now b hb, uniform_default now b hb⟩

end Registry

end BraceScript
