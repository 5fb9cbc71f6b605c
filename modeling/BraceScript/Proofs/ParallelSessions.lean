import BraceScript.Proofs.ParallelScopes

/-!
# Sessions side by side

What `Scopes.Parallel` says about the scopes of two runs is kept by everything that a session goes through: names are
bound and assigned, scopes are entered and left on both sides, and the second session may enter and leave one scope
on its own (`Session.Parallel`, `Session.Follow`).  Fewer than `2 ^ 32` scopes must have been entered, as otherwise a
handle that is no longer alive could be taken for one that is; as the history of a session only grows (`Eval.Grows`),
it is enough to count them at the end.
-/

namespace BraceScript

/-! ### What has happened is never forgotten -/

namespace Eval

variable {α β : Type}

/-- Whatever the computation does is added to what has happened before. -/
def Grows ⦃α : Type⦄ (_ : ScopeId) (x : Eval α) : Prop := ∀ s : Session, s.events <:+ (x s).session.events

theorem Reads.grows {scope : ScopeId} {x : Eval α} (h : x.Reads) : Grows scope x := by
  intro s
  rcases h.cases s with ⟨a, ha⟩ | ⟨e, he⟩
  · rw [ha]
    exact List.suffix_rfl
  · rw [he]
    exact List.suffix_rfl

theorem Grows.bind {scope : ScopeId} {x : Eval α} {f : α → Eval β} (hx : Grows scope x)
    (hf : ∀ a, Grows scope (f a)) : Grows scope (x >>= f) := by
  intro s
  have hfirst := hx s
  cases h : x s with
  | done a t =>
    rw [h] at hfirst
    rw [bind_of_done h]
    exact hfirst.trans (hf a t)
  | failed e t =>
    rw [h] at hfirst
    rw [bind_of_failed h]
    exact hfirst
  | exhausted t =>
    rw [h] at hfirst
    rw [bind_of_exhausted h]
    exact hfirst

theorem grows_change {scope : ScopeId} (name : String) (span : Span) (f : Scopes → Except ScopeError Scopes) :
    Grows scope (change name span f) := by
  intro s
  unfold change
  split
  · exact s.suffix_moveTo _ _
  · exact List.suffix_rfl

private theorem grows_replace {scope : ScopeId} (name : Ident) (value : Value) :
    Grows scope (replace scope name value) := by
  intro s
  unfold replace
  split
  · exact s.suffix_note_moveTo _ _ _
  · exact List.suffix_rfl

theorem grows_callBuiltin {scope : ScopeId} (name : String) (args : List Value) (span : Span) :
    Grows scope (callBuiltin name args span) := by
  intro s
  rcases callBuiltin_cases name args span s with ⟨b, v, output, -, -, hdone⟩ | ⟨cause, output, hfail, -⟩
  · rw [hdone]
    exact List.suffix_rfl
  · rw [hfail]
    exact List.suffix_rfl

/-- What happens inside a scope is part of what has happened after it. -/
theorem suffix_inScope (parent : ScopeId) (span : Span) (body : ScopeId → Eval α) (s : Session) :
    (body (s.scopes.push parent).2 (s.entered parent)).session.events <:+
      (inScope parent span body s).session.events := by
  rw [inScope_eq]
  cases body (s.scopes.push parent).2 (s.entered parent) with
  | exhausted t => exact List.suffix_rfl
  | failed e t => exact suffix_leave _ t
  | done a t =>
    have hleave := suffix_leave (s.scopes.push parent).2 t
    dsimp only
    generalize leave (s.scopes.push parent).2 t = left at hleave ⊢
    obtain ⟨fault, u⟩ := left
    cases fault <;> exact hleave

theorem Grows.inScope {scope : ScopeId} {span : Span} {body : ScopeId → Eval α} (h : ∀ id, Grows id (body id)) :
    Grows scope (inScope scope span body) := fun s =>
  (s.suffix_entered scope).trans ((h _ _).trans (suffix_inScope scope span body s))

/-- What happens in a call is part of what has happened after it. -/
theorem suffix_deeper (body : Eval α) (s : Session) :
    (body (s.moveTo s.scopes (s.depth + 1))).session.events <:+ (deeper body s).session.events := by
  unfold deeper
  cases body (s.moveTo s.scopes (s.depth + 1)) with
  | exhausted t => exact List.suffix_rfl
  | failed e t => exact t.suffix_moveTo _ _
  | done a t => exact t.suffix_moveTo _ _

private theorem Grows.deeper {scope : ScopeId} {body : Eval α} (h : Grows scope body) : Grows scope (deeper body) :=
  fun s =>
  (s.suffix_moveTo _ _).trans ((h _).trans (suffix_deeper body s))

private theorem grows_callable {scope : ScopeId} (d : FunctionDecl) (closure : ScopeId) (args : Nat) (span : Span) :
    Grows scope (callable d closure args span) := by
  intro s
  rcases callable_cases d closure args span s with ⟨hc, -⟩ | ⟨hc, -⟩ | ⟨e, hc, -⟩
  · rw [hc]
    exact s.suffix_note _
  · rw [hc]
    exact s.suffix_note _
  · rw [hc]
    exact List.suffix_rfl

/-- No evaluation forgets what has happened. -/
theorem grows_discipline : Discipline Grows Grows where
  reads := Reads.grows
  exhausted _ := List.suffix_rfl
  record _ e _ s := s.suffix_note e
  opened := id
  bind := Grows.bind
  bind_loud := Grows.bind
  assign _ := grows_replace
  builtin _ := grows_callBuiltin
  declare _ _ _ _ := grows_change _ _ _
  declareStruct _ _ _ _ := grows_change _ _ _
  inScope := Grows.inScope
  call d closure args h := (grows_callable d closure args _).bind fun _ => Grows.deeper (Grows.inScope h)

end Eval

/-! ### Sessions in order -/

/-- The events that leave the scopes and the calls as they are. -/
def Event.IsPlain : Event → Prop
  | .value .. | .introduced .. | .assigned .. | .declared .. | .called .. => True
  | .state .. | .entered _ | .leaving .. => False

theorem Event.IsRemark.isPlain {e : Event} (h : e.IsRemark) : e.IsPlain := by
  cases e <;> first | exact trivial | exact h.elim

private theorem Event.IsPlain.isEntry {e : Event} (h : e.IsPlain) : e.isEntry = false := by
  cases e <;> first | rfl | exact h.elim

theorem Event.entries_le {es es' : List Event} (h : es <:+ es') : entries es ≤ entries es' := h.sublist.countP_le

namespace Session

variable {s t : Session}

/-- Everything has been in order up to now, and a slot has been used once for each entry at most. -/
structure Tidy (s : Session) : Prop where
  sound : s.Sound
  bounded : ∀ i g, s.scopes.generation? i = some g → g.toNat ≤ Event.entries s.events

theorem entries_note {e : Event} (he : e.isEntry = false) :
    Event.entries (s.note e).events = Event.entries s.events := by
  rw [events_note, Event.entries_cons, he]
  rfl

theorem entries_moveTo (scopes : Scopes) (depth : Nat) :
    Event.entries (s.moveTo scopes depth).events = Event.entries s.events := by
  rw [events_moveTo, Event.entries_cons]
  rfl

private theorem entries_entered (parent : ScopeId) :
    Event.entries (s.entered parent).events = Event.entries s.events + 1 := by
  unfold entered
  rw [entries_moveTo, events_note, Event.entries_cons]
  rfl

private theorem entries_left (id : ScopeId) : Event.entries (s.left id).events = Event.entries s.events := by
  unfold left
  rw [entries_moveTo, entries_note rfl]

namespace Tidy

private theorem note (h : s.Tidy) {e : Event} (he : e.IsPlain) : (s.note e).Tidy := by
  refine ⟨h.sound.note ?_ ?_, ?_⟩
  · rintro scopes depth rfl
    exact he
  · rintro scopes id rfl
    exact he
  · rw [entries_note he.isEntry]
    exact h.bounded

private theorem moveTo (h : s.Tidy) {scopes : Scopes} {depth : Nat} (hn : scopes.Nested)
    (hg : ∀ i, scopes.generation? i = s.scopes.generation? i) (hd : depth ≤ s.maxDepth) :
    (s.moveTo scopes depth).Tidy := by
  refine ⟨h.sound.moveTo hn hd, fun i g hi => ?_⟩
  rw [entries_moveTo]
  exact h.bounded i g ((hg i).symm.trans hi)

private theorem entered (h : s.Tidy) {parent : ScopeId} (ha : s.scopes.isAlive parent = true) :
    (s.entered parent).Tidy := by
  refine ⟨h.sound.entered ha, fun i g hi => ?_⟩
  have hstored := h.sound.nested.stored
  change (s.scopes.push parent).1.generation? i = some g at hi
  rw [entries_entered]
  by_cases hlast : i = s.scopes.live
  · rw [hlast, Scopes.generation?_push_self parent hstored, Option.some.injEq] at hi
    cases hold : s.scopes.generation? s.scopes.live with
    | none =>
      rw [hold] at hi
      rw [← hi]
      exact Nat.zero_le _
    | some old =>
      have hbound := h.bounded _ old hold
      have hnext : (old + 1).toNat ≤ old.toNat + 1 := by
        rw [UInt32.toNat_add]
        exact Nat.mod_le _ _
      rw [hold] at hi
      rw [← hi]
      exact Nat.le_trans hnext (Nat.succ_le_succ hbound)
  · rw [Scopes.generation?_push_of_ne parent hlast hstored] at hi
    exact Nat.le_succ_of_le (h.bounded i g hi)

/-- No generation wraps around with the next scope. -/
private theorem hasNext (h : s.Tidy) (hfew : Event.entries s.events + 1 < 4294967296) : s.scopes.HasNext := by
  intro g hg
  have hbound := h.bounded _ g hg
  omega

private theorem left (h : t.Tidy) {id : ScopeId} (hsound : (t.left id).Sound) : (t.left id).Tidy := by
  refine ⟨hsound, fun i g hi => ?_⟩
  rw [entries_left]
  exact h.bounded i g (by rw [← hi]; exact (Scopes.generation?_dropLast i).symm)

end Tidy

/-! ### Sessions side by side -/

end Session

/-- The function does to arguments with functions in other scopes what it does to the arguments. -/
def Builtin.Uniform (b : Builtin) : Prop :=
  ∀ (f : ScopeId → ScopeId) args output, b.call (args.map (Value.relabel (.ofScopes f))) output =
    ((b.call args output).1.map (Value.relabel (.ofScopes f)), (b.call args output).2)

namespace Session

/-- The sessions of two runs, of which the second may have an additional scope at `gap`. -/
structure Parallel (gap : Option Nat) (s s' : Session) : Prop where
  tidy : s.Tidy
  tidy' : s'.Tidy
  scopes : Scopes.Parallel gap s.scopes s'.scopes
  builtins : s'.builtins = s.builtins
  uniform : ∀ b ∈ s.builtins.entries, b.Uniform
  output : s'.output = s.output
  maxDepth : s'.maxDepth = s.maxDepth
  depth : s'.depth = s.depth
  entries : Event.entries s.events ≤ Event.entries s'.events
  few : Event.entries s'.events < 4294967296

/-- The handles of both sessions. -/
def pairing (gap : Option Nat) (s s' : Session) : Pairing := Scopes.pairing gap s.scopes s'.scopes

/-- Two sessions after `s` and `s'`, on the same levels, which are still side by side. -/
structure Follow (gap : Option Nat) (s s' t t' : Session) : Prop where
  parallel : t.Parallel gap t'
  level : s.Level t
  level' : s'.Level t'
  joined : (pairing gap s s').Extends (pairing gap t t')

variable {gap gap' : Option Nat} {s s' t t' u u' : Session} {c c' : ScopeId}

theorem Follow.refl (h : s.Parallel gap s') : Follow gap s s' s s' := ⟨h, .refl _, .refl _, .refl _⟩

theorem Follow.trans (h : Follow gap s s' t t') (h' : Follow gap t t' u u') : Follow gap s s' u u' :=
  ⟨h'.parallel, h.level.trans h'.level, h.level'.trans h'.level', h.joined.trans h'.joined⟩

theorem Follow.sees (h : Follow gap s s' t t') (hc : Scopes.Sees gap s.scopes s'.scopes c c') :
    Scopes.Sees gap t.scopes t'.scopes c c' := hc.sameOutline h.level.outline h.level'.outline

namespace Parallel

variable (h : s.Parallel gap s')
include h

theorem note {e e' : Event} (he : e.IsPlain) (he' : e'.IsPlain) : Follow gap s s' (s.note e) (s'.note e') := by
  refine ⟨?_, .note _ _, .note _ _, .refl _⟩
  refine ⟨h.tidy.note he, h.tidy'.note he', h.scopes, h.builtins, h.uniform, h.output, h.maxDepth, h.depth, ?_, ?_⟩
  · rw [entries_note he.isEntry, entries_note he'.isEntry]
    exact h.entries
  · rw [entries_note he'.isEntry]
    exact h.few

theorem print (output : Output) : Follow gap s s' { s with output } { s' with output } :=
  ⟨⟨⟨⟨h.tidy.sound.state, h.tidy.sound.leaving⟩, h.tidy.bounded⟩,
    ⟨⟨h.tidy'.sound.state, h.tidy'.sound.leaving⟩, h.tidy'.bounded⟩,
      h.scopes, h.builtins, h.uniform, rfl, h.maxDepth, h.depth, h.entries, h.few⟩,
    ⟨.refl _, rfl, rfl, fun _ he => he⟩, ⟨.refl _, rfl, rfl, fun _ he => he⟩, .refl _⟩

/-- Other scopes with the same generations, or another depth. -/
theorem moveTo {scopes scopes' : Scopes} {depth depth' : Nat} (hscopes : Scopes.Parallel gap scopes scopes')
    (hg : ∀ i, scopes.generation? i = s.scopes.generation? i)
    (hg' : ∀ i, scopes'.generation? i = s'.scopes.generation? i) (hdepth : depth' = depth)
    (hd : depth ≤ s.maxDepth) : (s.moveTo scopes depth).Parallel gap (s'.moveTo scopes' depth') := by
  have hd' : depth' ≤ s'.maxDepth := by rw [hdepth, h.maxDepth]; exact hd
  refine ⟨h.tidy.moveTo hscopes.nested hg hd, h.tidy'.moveTo hscopes.nested' hg' hd', hscopes, h.builtins, h.uniform,
    h.output, h.maxDepth, hdepth, ?_, ?_⟩
  · rw [entries_moveTo, entries_moveTo]
    exact h.entries
  · rw [entries_moveTo]
    exact h.few

/-- A change inside corresponding scopes. -/
theorem modify {o o' : ScopeId} {f f' : Scope → Scope} (hf : ∀ a, (f a).parent = a.parent)
    (hf' : ∀ a, (f' a).parent = a.parent)
    (hscopes : Scopes.Parallel gap (s.scopes.modify o f) (s'.scopes.modify o' f') ∧
      Scopes.pairing gap (s.scopes.modify o f) (s'.scopes.modify o' f') = Scopes.pairing gap s.scopes s'.scopes) :
    Follow gap s s' (s.moveTo (s.scopes.modify o f) s.depth) (s'.moveTo (s'.scopes.modify o' f') s'.depth) := by
  refine ⟨?_, (h.tidy.sound.change (Scopes.sameOutline_modify hf)).2,
    (h.tidy'.sound.change (Scopes.sameOutline_modify hf')).2, ?_⟩
  · exact h.moveTo hscopes.1 (fun _ => Scopes.generation?_modify f _)
      (fun _ => Scopes.generation?_modify f' _) h.depth
      (h.tidy.sound.state s.recorded).2
  · change (Scopes.pairing gap s.scopes s'.scopes).Extends
      (Scopes.pairing gap (s.scopes.modify o f) (s'.scopes.modify o' f'))
    rw [hscopes.2]
    exact .refl _

/-- Both enter a scope. -/
theorem entered (hc : Scopes.Sees gap s.scopes s'.scopes c c')
    (hfew : Event.entries (s'.entered c').events < 4294967296) :
    (s.entered c).Parallel gap (s'.entered c') ∧
    (pairing gap s s').Extends (pairing gap (s.entered c) (s'.entered c')) ∧
      Scopes.Linked gap (s.entered c).scopes (s'.entered c').scopes (s.scopes.push c).2 (s'.scopes.push c').2 := by
  have hentries := h.entries
  have hcount : Event.entries s'.events + 1 < 4294967296 := by rwa [entries_entered] at hfew
  obtain ⟨hscopes, hjoined, hlinked⟩ := h.scopes.push hc (h.tidy.hasNext (by omega)) (h.tidy'.hasNext hcount)
  refine ⟨⟨h.tidy.entered hc.left, h.tidy'.entered hc.right, hscopes, h.builtins, h.uniform, h.output,
    h.maxDepth, h.depth, ?_,
    hfew⟩, hjoined, hlinked⟩
  rw [entries_entered, entries_entered]
  omega

/-- Both leave the scope that they have entered. -/
theorem left (hf : Follow gap (s.entered c) (s'.entered c') t t')
    (hjoined : (pairing gap s s').Extends (pairing gap (s.entered c) (s'.entered c'))) :
    Eval.leave (s.scopes.push c).2 t = (none, t.left (s.scopes.push c).2) ∧
      Eval.leave (s'.scopes.push c').2 t' = (none, t'.left (s'.scopes.push c').2) ∧
      Follow gap s s' (t.left (s.scopes.push c).2) (t'.left (s'.scopes.push c').2) ∧
      (pairing gap t t').Extends (pairing gap (t.left (s.scopes.push c).2) (t'.left (s'.scopes.push c').2)) := by
  have ht := hf.parallel
  obtain ⟨-, hleave, hsound, hlevel⟩ := Eval.leave_of_level h.tidy.sound ht.tidy.sound hf.level
  obtain ⟨-, hleave', hsound', hlevel'⟩ := Eval.leave_of_level h.tidy'.sound ht.tidy'.sound hf.level'
  have hlive : t.scopes.live = s.scopes.live + 1 := hf.level.outline.live.trans (Scopes.push_live c)
  have hrooted := h.tidy.sound.nested.rooted
  obtain ⟨hscopes, hlast⟩ := ht.scopes.dropLast (by omega) fun m hm => by have := h.scopes.reach m hm; omega
  refine ⟨hleave, hleave', ⟨?_, hlevel, hlevel', (hjoined.trans hf.joined).trans hlast⟩, hlast⟩
  refine ⟨ht.tidy.left hsound, ht.tidy'.left hsound', hscopes, ht.builtins, ht.uniform, ht.output,
    ht.maxDepth, ht.depth, ?_, ?_⟩
  · rw [entries_left, entries_left]
    exact ht.entries
  · rw [entries_left]
    exact ht.few

end Parallel

/-! ### The additional scope -/

/-- The second session enters the additional scope. -/
theorem Parallel.entered_right (h : s.Parallel none s') (hc : Scopes.Linked none s.scopes s'.scopes c c')
    (hfew : Event.entries (s'.entered c').events < 4294967296) :
    s.Parallel (some s.scopes.live) (s'.entered c') ∧
      (pairing none s s').Extends (pairing (some s.scopes.live) s (s'.entered c')) ∧
      Scopes.Sees (some s.scopes.live) s.scopes (s'.entered c').scopes c (s'.scopes.push c').2 := by
  have hentries := h.entries
  have hcount : Event.entries s'.events + 1 < 4294967296 := by rwa [entries_entered] at hfew
  obtain ⟨hscopes, hjoined, hsees⟩ := h.scopes.push_right hc (h.tidy'.hasNext hcount)
  refine ⟨⟨h.tidy, h.tidy'.entered hc.right, hscopes, h.builtins, h.uniform, h.output, h.maxDepth, h.depth,
    ?_, hfew⟩, hjoined,
    hsees⟩
  rw [entries_entered]
  omega

/-- The second session leaves the additional scope. -/
theorem Parallel.left_right (h : s.Parallel none s') (hf : Follow (some s.scopes.live) s (s'.entered c') t t')
    (hjoined : (pairing none s s').Extends (pairing (some s.scopes.live) s (s'.entered c'))) :
    Eval.leave (s'.scopes.push c').2 t' = (none, t'.left (s'.scopes.push c').2) ∧
      Follow none s s' t (t'.left (s'.scopes.push c').2) ∧
      (pairing (some s.scopes.live) t t').Extends (pairing none t (t'.left (s'.scopes.push c').2)) := by
  have ht := hf.parallel
  obtain ⟨-, hleave', hsound', hlevel'⟩ := Eval.leave_of_level h.tidy'.sound ht.tidy'.sound hf.level'
  have hgap := ht.scopes
  rw [← hf.level.outline.live] at hgap
  obtain ⟨hscopes, hlast⟩ := hgap.dropLast_right
  rw [hf.level.outline.live] at hlast
  refine ⟨hleave', ⟨?_, hf.level, hlevel', (hjoined.trans hf.joined).trans hlast⟩, hlast⟩
  refine ⟨ht.tidy, ht.tidy'.left hsound', hscopes, ht.builtins, ht.uniform, ht.output, ht.maxDepth, ht.depth, ?_, ?_⟩
  · rw [entries_left]
    exact ht.entries
  · rw [entries_left]
    exact ht.few

end Session

end BraceScript
