import BraceScript.Proofs.Scopes
import BraceScript.Proofs.Evaluation
import BraceScript.Run

/-!
# Scopes and calls are nested

Every scope that is alive, the root apart, has a parent that is alive and older (`Scopes.Nested`).  Evaluation keeps
this at every state it goes through, whether it succeeds or fails, and comes back to the scopes and the depth of
calls that it started from (`Eval.Balances`).  The scopes that are alive, their generations and their parents make up
the outline of a session; a computation may change everything inside a scope but not the outline
(`Scopes.SameOutline`).
-/

namespace BraceScript

/-! ### The outline of the scopes -/

namespace Scopes

variable {s t u : Scopes} {id : ScopeId}

/-- The generation and the parent in a slot. -/
def outline (s : Scopes) (i : Nat) : Option (UInt32 × Option ScopeId) :=
  (s.slots[i]?).map fun slot => (slot.generation, slot.scope.parent)

/-- The same scopes are alive, with the same parents. -/
structure SameOutline (s t : Scopes) : Prop where
  live : t.live = s.live
  slot : ∀ i < s.live, t.outline i = s.outline i

theorem SameOutline.refl (s : Scopes) : s.SameOutline s := ⟨rfl, fun _ _ => rfl⟩

private theorem SameOutline.trans (h : s.SameOutline t) (h' : t.SameOutline u) : s.SameOutline u := by
  refine ⟨h'.live.trans h.live, fun i hi => ?_⟩
  rw [h'.slot i (by rw [h.live]; exact hi), h.slot i hi]

theorem outline_eq_some_iff {i : Nat} {generation : UInt32} {parent : Option ScopeId} :
    s.outline i = some (generation, parent) ↔
      ∃ scope, s.slots[i]? = some ⟨generation, scope⟩ ∧ scope.parent = parent := by
  unfold outline
  rw [Option.map_eq_some_iff]
  constructor
  · rintro ⟨⟨generation', scope⟩, hs, he⟩
    obtain ⟨rfl, rfl⟩ := Prod.mk.inj he
    exact ⟨scope, hs, rfl⟩
  · rintro ⟨scope, hs, rfl⟩
    exact ⟨_, hs, rfl⟩

private theorem isAlive_iff_outline :
    s.isAlive id = true ↔ id.index < s.live ∧ ∃ parent, s.outline id.index = some (id.generation, parent) := by
  rw [isAlive_iff]
  apply and_congr_right
  intro _
  constructor
  · rintro ⟨scope, hs⟩
    exact ⟨_, outline_eq_some_iff.2 ⟨scope, hs, rfl⟩⟩
  · rintro ⟨parent, hp⟩
    obtain ⟨scope, hs, -⟩ := outline_eq_some_iff.1 hp
    exact ⟨scope, hs⟩

/-- Handles that are alive stay so as long as the outline does not change. -/
theorem SameOutline.isAlive (h : s.SameOutline t) (ha : s.isAlive id = true) : t.isAlive id = true := by
  rw [isAlive_iff_outline] at ha ⊢
  obtain ⟨hi, parent, hp⟩ := ha
  exact ⟨by rw [h.live]; exact hi, parent, by rw [h.slot _ hi]; exact hp⟩

/-- A change inside a scope keeps the outline. -/
theorem sameOutline_modify {f : Scope → Scope} (hf : ∀ scope, (f scope).parent = scope.parent) :
    s.SameOutline (s.modify id f) := by
  refine ⟨rfl, fun i _ => ?_⟩
  unfold outline
  rw [modify_slots]
  split
  · rw [Option.map_map]
    congr 1
    funext slot
    simp [hf]
  · rfl

theorem sameOutline_declare {name : String} {b : Binding} (h : s.declare id name b = .ok t) : s.SameOutline t := by
  unfold declare at h
  split at h
  · cases h
  · split at h
    · cases h
    · cases h
      exact sameOutline_modify fun _ => rfl

theorem sameOutline_assign {name : String} {value : Value} (h : s.assign id name value = .ok t) :
    s.SameOutline t := by
  unfold assign at h
  split at h
  · cases h
  · split at h
    · cases h
    · cases h
      exact sameOutline_modify fun _ => rfl

theorem sameOutline_declareStruct {d : StructDecl} (h : s.declareStruct id d = .ok t) : s.SameOutline t := by
  unfold declareStruct at h
  split at h
  · cases h
  · split at h
    · cases h
    · cases h
      exact sameOutline_modify fun _ => rfl

/-! ### Nested scopes -/

/-- Every scope that is alive, the root apart, has a parent that is alive and older. -/
structure Nested (s : Scopes) : Prop where
  rooted : 0 < s.live
  stored : s.live ≤ s.slots.size
  top : ∃ generation, s.outline 0 = some (generation, none)
  parent : ∀ id scope, s.get? id = some scope → id ≠ s.root →
    ∃ p, scope.parent = some p ∧ s.isAlive p = true ∧ p.index < id.index

private theorem nested_initial : initial.Nested := by
  refine ⟨by decide, by decide, ⟨0, rfl⟩, ?_⟩
  intro id scope hget hroot
  obtain ⟨hi, hs⟩ := get?_eq_some_iff.1 hget
  have hzero : id.index = 0 := Nat.lt_one_iff.1 hi
  rw [hzero] at hs
  have hgeneration : (0 : UInt32) = id.generation := congrArg Slot.generation (Option.some.inj hs)
  refine absurd ?_ hroot
  rw [← (show ScopeId.mk id.index id.generation = id from rfl), hzero, ← hgeneration]
  rfl

theorem eq_root_of_index (ha : s.isAlive id = true) (hi : id.index = 0) : id = s.root := by
  obtain ⟨-, scope, hs⟩ := isAlive_iff.1 ha
  rw [hi] at hs
  obtain ⟨index, generation⟩ := id
  simp only at hi hs
  simp [root, hi, hs]

theorem Nested.isAlive_root (h : s.Nested) : s.isAlive s.root = true := by
  have hsize : 0 < s.slots.size := Nat.lt_of_lt_of_le h.rooted h.stored
  rw [isAlive_iff]
  refine ⟨h.rooted, s.slots[0].scope, ?_⟩
  simp [root, hsize]

/-- Whether scopes are nested can be read off their outline. -/
theorem SameOutline.nested (h : s.SameOutline t) (hs : s.Nested) : t.Nested := by
  have hsize : t.live ≤ t.slots.size := by
    apply Nat.not_lt.1
    intro hi
    rw [h.live] at hi
    have hnone : t.outline t.slots.size = none := by simp [outline]
    have hlt : t.slots.size < s.slots.size := Nat.lt_of_lt_of_le hi hs.stored
    rw [h.slot _ hi] at hnone
    simp [outline, hlt] at hnone
  refine ⟨by rw [h.live]; exact hs.rooted, hsize, by rw [h.slot 0 hs.rooted]; exact hs.top, ?_⟩
  intro id scope hget hroot
  obtain ⟨hi, hslot⟩ := get?_eq_some_iff.1 hget
  rw [h.live] at hi
  obtain ⟨scope', hslot', hparent⟩ := outline_eq_some_iff.1
    ((h.slot _ hi).symm.trans (outline_eq_some_iff.2 ⟨scope, hslot, rfl⟩))
  have hget' : s.get? id = some scope' := get?_eq_some_iff.2 ⟨hi, hslot'⟩
  have hindex : id.index ≠ 0 := fun h0 => hroot (eq_root_of_index (isAlive_of_get? hget) h0)
  obtain ⟨p, hp, halive, hlt⟩ := hs.parent id scope' hget' fun he => hindex (by rw [he]; rfl)
  exact ⟨p, hparent ▸ hp, h.isAlive halive, hlt⟩

theorem isAlive_push_of_isAlive {parent : ScopeId} (hs : s.live ≤ s.slots.size) (ha : s.isAlive id = true) :
    (s.push parent).1.isAlive id = true := by
  rw [isAlive_iff] at ha ⊢
  obtain ⟨hi, scope, hslot⟩ := ha
  refine ⟨by rw [push_live]; omega, scope, ?_⟩
  rw [push_slots_of_ne parent (Nat.ne_of_lt hi) hs, hslot]

/-- A new scope below one that is alive. -/
theorem Nested.push {parent : ScopeId} (h : s.Nested) (ha : s.isAlive parent = true) :
    (s.push parent).1.Nested := by
  have hsize : s.live + 1 ≤ (s.push parent).1.slots.size := by
    have hslot := push_slots_self parent h.stored
    exact (Array.getElem?_eq_some_iff.1 hslot).1
  have htop : (s.push parent).1.outline 0 = s.outline 0 := by
    unfold outline
    rw [push_slots_of_ne parent (Nat.ne_of_lt h.rooted) h.stored]
  refine ⟨by simp, by simpa using hsize, by rw [htop]; exact h.top, ?_⟩
  intro id scope hget hroot
  obtain ⟨hi, hslot⟩ := get?_eq_some_iff.1 hget
  rw [push_live] at hi
  by_cases hlast : id.index = s.live
  · -- the new scope itself
    rw [hlast, push_slots_self parent h.stored] at hslot
    have hscope : Scope.empty (some parent) = scope := congrArg Slot.scope (Option.some.inj hslot)
    refine ⟨parent, by rw [← hscope]; rfl, isAlive_push_of_isAlive h.stored ha, ?_⟩
    rw [hlast]
    exact (isAlive_iff.1 ha).1
  · rw [push_slots_of_ne parent hlast h.stored] at hslot
    have hget' : s.get? id = some scope := get?_eq_some_iff.2 ⟨by omega, hslot⟩
    have hindex : id.index ≠ 0 := fun h0 => hroot (eq_root_of_index (isAlive_of_get? hget) h0)
    obtain ⟨p, hp, halive, hlt⟩ := h.parent id scope hget' fun he => hindex (by rw [he]; rfl)
    exact ⟨p, hp, isAlive_push_of_isAlive h.stored halive, hlt⟩

theorem isAlive_dropLast (ha : s.isAlive id = true) (hi : id.index + 1 < s.live) : s.dropLast.isAlive id = true := by
  obtain ⟨-, scope, hslot⟩ := isAlive_iff.1 ha
  rw [isAlive_iff, dropLast_live, dropLast_slots_of_lt hi]
  exact ⟨by omega, scope, hslot⟩

theorem Nested.dropLast (h : s.Nested) (hlive : 1 < s.live) : s.dropLast.Nested := by
  have hsize : s.dropLast.slots.size = s.slots.size := by simp [Scopes.dropLast, modify]
  have htop : s.dropLast.outline 0 = s.outline 0 := by
    unfold outline
    rw [dropLast_slots_of_lt hlive]
  refine ⟨by rw [dropLast_live]; omega, ?_, by rw [htop]; exact h.top, ?_⟩
  · have hstored := h.stored
    rw [dropLast_live, hsize]
    omega
  · intro id scope hget hroot
    obtain ⟨hi, hslot⟩ := get?_eq_some_iff.1 hget
    rw [dropLast_live] at hi
    rw [dropLast_slots_of_lt (by omega)] at hslot
    have hget' : s.get? id = some scope := get?_eq_some_iff.2 ⟨by omega, hslot⟩
    have hindex : id.index ≠ 0 := fun h0 => hroot (eq_root_of_index (isAlive_of_get? hget) h0)
    obtain ⟨p, hp, halive, hlt⟩ := h.parent id scope hget' fun he => hindex (by rw [he]; rfl)
    exact ⟨p, hp, isAlive_dropLast halive (by omega), hlt⟩

end Scopes

/-! ### Sessions whose whole history is in order -/

namespace Session

variable {s t u : Session}

/-- At every moment up to now the scopes were nested and the calls within their limit, and every scope that was left
could be left. -/
structure Sound (s : Session) : Prop where
  state : ∀ {scopes depth}, s.history (.state scopes depth) → scopes.Nested ∧ depth ≤ s.maxDepth
  leaving : ∀ {scopes id}, s.history (.leaving scopes id) → ∃ rest, scopes.pop id = .ok rest

/-- `t` is a later moment of the session `s` with the same scopes alive and the same calls under way. -/
structure Level (s t : Session) : Prop where
  outline : s.scopes.SameOutline t.scopes
  depth : t.depth = s.depth
  maxDepth : t.maxDepth = s.maxDepth
  history : ∀ e, s.history e → t.history e

theorem Level.refl (s : Session) : s.Level s := ⟨.refl _, rfl, rfl, fun _ h => h⟩

theorem Level.trans (h : s.Level t) (h' : t.Level u) : s.Level u :=
  ⟨h.outline.trans h'.outline, h'.depth.trans h.depth, h'.maxDepth.trans h.maxDepth,
    fun e he => h'.history e (h.history e he)⟩

theorem Sound.nested (h : s.Sound) : s.scopes.Nested := (h.state s.recorded).1

theorem Sound.moveTo (h : s.Sound) {scopes : Scopes} {depth : Nat} (hn : scopes.Nested) (hd : depth ≤ s.maxDepth) :
    (s.moveTo scopes depth).Sound := by
  constructor
  · intro scopes' depth' he
    rcases he with he | he
    · obtain ⟨rfl, rfl⟩ := Event.state.inj he
      exact ⟨hn, hd⟩
    · exact h.state he
  · intro scopes' id he
    rcases he with he | he
    · cases he
    · exact h.leaving he

/-- Other events than states and departures do not matter. -/
theorem Sound.note (h : s.Sound) {e : Event} (hstate : ∀ scopes depth, e ≠ .state scopes depth)
    (hleaving : ∀ scopes id, e ≠ .leaving scopes id) : (s.note e).Sound := by
  constructor
  · intro scopes depth he
    rcases he with he | he
    · exact absurd he.symm (hstate scopes depth)
    · exact h.state he
  · intro scopes id he
    rcases he with he | he
    · exact absurd he.symm (hleaving scopes id)
    · exact h.leaving he

private theorem Sound.note_leaving (h : s.Sound) {scopes rest : Scopes} {id : ScopeId}
    (hp : scopes.pop id = .ok rest) : (s.note (.leaving scopes id)).Sound := by
  constructor
  · intro scopes' depth' he
    rcases he with he | he
    · cases he
    · exact h.state he
  · intro scopes' id' he
    rcases he with he | he
    · obtain ⟨rfl, rfl⟩ := Event.leaving.inj he
      exact ⟨rest, hp⟩
    · exact h.leaving he

theorem Level.note (s : Session) (e : Event) : s.Level (s.note e) := ⟨.refl _, rfl, rfl, fun _ he => .inr he⟩

/-- The session in which the body of a new scope below `parent` starts. -/
def entered (s : Session) (parent : ScopeId) : Session :=
  (s.note (.entered (s.scopes.push parent).2)).moveTo (s.scopes.push parent).1 s.depth

theorem Sound.entered (h : s.Sound) {parent : ScopeId} (ha : s.scopes.isAlive parent = true) :
    (s.entered parent).Sound :=
  (h.note (by simp) (by simp)).moveTo (h.nested.push ha) (h.state s.recorded).2

/-- The session after its last scope, with the handle `id`, has been left. -/
def left (s : Session) (id : ScopeId) : Session :=
  (s.note (.leaving s.scopes id)).moveTo s.scopes.dropLast s.depth

theorem suffix_note (s : Session) (e : Event) : s.events <:+ (s.note e).events := by
  rw [events_note]
  exact List.suffix_cons _ _

theorem suffix_moveTo (s : Session) (scopes : Scopes) (depth : Nat) :
    s.events <:+ (s.moveTo scopes depth).events := by
  rw [events_moveTo]
  exact List.suffix_cons _ _

theorem suffix_note_moveTo (s : Session) (e : Event) (scopes : Scopes) (depth : Nat) :
    s.events <:+ ((s.note e).moveTo scopes depth).events :=
  (s.suffix_note e).trans (suffix_moveTo _ scopes depth)

theorem suffix_entered (s : Session) (parent : ScopeId) : s.events <:+ (s.entered parent).events :=
  s.suffix_note_moveTo _ _ _

theorem suffix_left (s : Session) (id : ScopeId) : s.events <:+ (s.left id).events :=
  s.suffix_note_moveTo _ _ _

theorem Sound.remark (h : s.Sound) {e : Event} (he : e.IsRemark) : (s.note e).Sound := by
  refine h.note ?_ ?_
  · rintro scopes depth rfl
    exact he
  · rintro scopes id rfl
    exact he

/-- A change that keeps the outline. -/
theorem Sound.change (h : s.Sound) {scopes : Scopes} (ho : s.scopes.SameOutline scopes) :
    (s.moveTo scopes s.depth).Sound ∧ s.Level (s.moveTo scopes s.depth) :=
  ⟨h.moveTo (ho.nested h.nested) (h.state s.recorded).2, ho, rfl, rfl, fun _ he => .inr he⟩

end Session

/-! ### Balanced computations -/

/-- Whether the error is that of a scope that is no longer alive. -/
def RuntimeError.Cause.isStale : RuntimeError.Cause → Bool
  | .staleScope _ => true
  | _ => false

/-- The session in which a computation has ended. -/
def Outcome.session? {α : Type} : Outcome α → Option Session
  | .done _ s | .failed _ s => some s
  | .exhausted _ => none

namespace Eval

variable {α β : Type} {scope : ScopeId}

/-- However the computation ends, it does so on the level on which it has started, and nothing went wrong on the
way. -/
def Balances ⦃α : Type⦄ (scope : ScopeId) (x : Eval α) : Prop :=
  ∀ s t, s.Sound → s.scopes.isAlive scope = true → (x s).session? = some t → t.Sound ∧ s.Level t

theorem Reads.balances {x : Eval α} (h : x.Reads) : Balances scope x := by
  intro s t hs _ ht
  rcases h.cases s with ⟨a, ha⟩ | ⟨e, he⟩
  · rw [ha] at ht
    cases ht
    exact ⟨hs, .refl _⟩
  · rw [he] at ht
    cases ht
    exact ⟨hs, .refl _⟩

theorem Balances.bind {x : Eval α} {f : α → Eval β} (hx : Balances scope x) (hf : ∀ a, Balances scope (f a)) :
    Balances scope (x >>= f) := by
  intro s t hs ha ht
  cases h : x s with
  | done a s₁ =>
    obtain ⟨hs₁, hl⟩ := hx s s₁ hs ha (by rw [h]; rfl)
    rw [bind_of_done h] at ht
    obtain ⟨hst, hl'⟩ := hf a s₁ t hs₁ (hl.outline.isAlive ha) ht
    exact ⟨hst, hl.trans hl'⟩
  | failed e s₁ =>
    rw [bind_of_failed h] at ht
    exact hx s t hs ha (by rw [h]; exact ht)
  | exhausted s₁ =>
    rw [bind_of_exhausted h] at ht
    cases ht

theorem balances_change (name : String) (span : Span) {f : Scopes → Except ScopeError Scopes}
    (hf : ∀ {s t}, f s = .ok t → s.SameOutline t) : Balances scope (change name span f) := by
  intro s t hs _ ht
  unfold change at ht
  split at ht
  · rename_i scopes hok
    cases ht
    exact hs.change (hf hok)
  · cases ht
    exact ⟨hs, .refl _⟩

theorem balances_replace (name : Ident) (value : Value) : Balances scope (replace scope name value) := by
  intro s t hs _ ht
  unfold replace at ht
  split at ht
  · rename_i scopes hok
    cases ht
    have hnote : (s.note (.assigned s.scopes scope name.name)).Sound := hs.remark trivial
    obtain ⟨hsound, hlevel⟩ := hnote.change (Scopes.sameOutline_assign hok)
    exact ⟨hsound, Session.Level.trans (.note _ _) hlevel⟩
  · cases ht
    exact ⟨hs, .refl _⟩

theorem balances_callBuiltin (name : String) (args : List Value) (span : Span) :
    Balances scope (callBuiltin name args span) := by
  intro s t hs _ ht
  have hout : ∀ output, { s with output }.Sound ∧ s.Level { s with output } := fun output =>
    ⟨⟨hs.state, hs.leaving⟩, .refl _, rfl, rfl, fun _ h => h⟩
  unfold callBuiltin at ht
  split at ht
  · cases ht
    exact ⟨hs, .refl _⟩
  · split at ht
    · cases ht
      exact ⟨hs, .refl _⟩
    · split at ht
      · cases ht
        exact hout _
      · cases ht
        exact hout _

theorem suffix_leave (id : ScopeId) (s : Session) : s.events <:+ (leave id s).2.events := by
  unfold leave
  split
  · exact s.suffix_note_moveTo _ _ _
  · exact s.suffix_note _

/-- The scope in which a balanced computation has run can be left, and then the session is back on the level before
the scope was entered. -/
theorem leave_of_level {s t : Session} {parent : ScopeId} (hs : s.Sound) (ht : t.Sound)
    (hl : (s.entered parent).Level t) :
    t.scopes.pop (s.scopes.push parent).2 = .ok t.scopes.dropLast ∧
      leave (s.scopes.push parent).2 t = (none, t.left (s.scopes.push parent).2) ∧
      (t.left (s.scopes.push parent).2).Sound ∧ s.Level (t.left (s.scopes.push parent).2) := by
  have hlive : t.scopes.live = s.scopes.live + 1 := hl.outline.live.trans (Scopes.push_live parent)
  have hrooted : 0 < s.scopes.live := hs.nested.rooted
  have halive : t.scopes.isAlive (s.scopes.push parent).2 = true :=
    hl.outline.isAlive (Scopes.isAlive_push parent hs.nested.stored)
  -- nothing that was entered since is alive, so the scope is the last one
  have hpop : t.scopes.pop (s.scopes.push parent).2 = .ok t.scopes.dropLast :=
    Scopes.pop_eq_ok_iff.2
      ⟨halive, by rw [Scopes.push_index]; omega, by rw [Scopes.push_index]; exact hlive.symm, rfl⟩
  have houtline : s.scopes.SameOutline t.scopes.dropLast := by
    refine ⟨by rw [Scopes.dropLast_live, hlive]; rfl, fun i hi => ?_⟩
    -- entering and leaving only touch the slot behind those of `s`
    have hold : t.scopes.outline i = (s.scopes.push parent).1.outline i :=
      hl.outline.slot i (by change i < (s.scopes.push parent).1.live; rw [Scopes.push_live]; omega)
    unfold Scopes.outline at hold ⊢
    rw [Scopes.dropLast_slots_of_lt (by omega), hold,
      Scopes.push_slots_of_ne parent (Nat.ne_of_lt hi) hs.nested.stored]
  refine ⟨hpop, ?_, ?_, ?_⟩
  · unfold leave
    rw [hpop]
    rfl
  · exact (ht.note_leaving hpop).moveTo (ht.nested.dropLast (by omega)) (ht.state t.recorded).2
  · exact ⟨houtline, hl.depth, hl.maxDepth, fun e he => .inr (.inr (hl.history e (.inr (.inr he))))⟩

theorem inScope_eq (parent : ScopeId) (span : Span) (body : ScopeId → Eval α) (s : Session) :
    Eval.inScope parent span body s =
      match body (s.scopes.push parent).2 (s.entered parent) with
      | .exhausted t => .exhausted t
      | .done a t =>
        match leave (s.scopes.push parent).2 t with
        | (none, u) => .done a u
        | (some e, u) => .failed ⟨scopeFault "<block>" e, span⟩ u
      | .failed e t => .failed e (leave (s.scopes.push parent).2 t).2 := rfl

theorem Balances.inScope {span : Span} {body : ScopeId → Eval α} (h : ∀ id, Balances id (body id)) :
    Balances scope (inScope scope span body) := by
  intro s t hs ha ht
  have halive := Scopes.isAlive_push scope hs.nested.stored
  -- the scope is left in the same way after a value and after an error
  have hleave : ∀ s₂, (body (s.scopes.push scope).2 (s.entered scope)).session? = some s₂ →
      ∃ u, leave (s.scopes.push scope).2 s₂ = (none, u) ∧ u.Sound ∧ s.Level u := by
    intro s₂ h₂
    obtain ⟨hs₂, hl⟩ := h _ _ s₂ (hs.entered ha) halive h₂
    obtain ⟨-, hleave, hus, hul⟩ := leave_of_level hs hs₂ hl
    exact ⟨_, hleave, hus, hul⟩
  rw [inScope_eq] at ht
  cases hb : body (s.scopes.push scope).2 (s.entered scope) with
  | exhausted s₂ =>
    simp only [hb] at ht
    cases ht
  | done a s₂ =>
    obtain ⟨u, hu, hus, hul⟩ := hleave s₂ (by rw [hb]; rfl)
    simp only [hb, hu] at ht
    cases ht
    exact ⟨hus, hul⟩
  | failed e s₂ =>
    obtain ⟨u, hu, hus, hul⟩ := hleave s₂ (by rw [hb]; rfl)
    simp only [hb, hu] at ht
    cases ht
    exact ⟨hus, hul⟩

/-- After a call the session is back on the level before it. -/
theorem back_of_level {s t : Session} (ht : t.Sound) (hl : (s.moveTo s.scopes (s.depth + 1)).Level t) :
    (t.moveTo t.scopes (t.depth - 1)).Sound ∧ s.Level (t.moveTo t.scopes (t.depth - 1)) := by
  have hdepth : t.depth = s.depth + 1 := hl.depth
  have hbound := (ht.state t.recorded).2
  exact ⟨ht.moveTo ht.nested (by omega), hl.outline, by simp [Session.moveTo, hdepth], hl.maxDepth,
    fun e he => .inr (hl.history e (.inr he))⟩

/-- One call deeper, as long as the limit allows it. -/
private theorem deeper_of_balances {body : Eval α} {s t : Session} (h : Balances scope body) (hs : s.Sound)
    (ha : s.scopes.isAlive scope = true) (hd : s.depth < s.maxDepth) (ht : (deeper body s).session? = some t) :
    t.Sound ∧ s.Level t := by
  have hs₁ : (s.moveTo s.scopes (s.depth + 1)).Sound := hs.moveTo hs.nested hd
  unfold deeper at ht
  cases hb : body (s.moveTo s.scopes (s.depth + 1)) with
  | exhausted s₂ =>
    simp only [hb] at ht
    cases ht
  | done a s₂ =>
    obtain ⟨hs₂, hl⟩ := h _ s₂ hs₁ ha (by rw [hb]; rfl)
    simp only [hb] at ht
    cases ht
    exact back_of_level hs₂ hl
  | failed e s₂ =>
    obtain ⟨hs₂, hl⟩ := h _ s₂ hs₁ ha (by rw [hb]; rfl)
    simp only [hb] at ht
    cases ht
    exact back_of_level hs₂ hl

/-- A function that may be called has a declaring scope that is alive, and its call does not exceed the limit. -/
theorem callable_cases (d : FunctionDecl) (closure : ScopeId) (args : Nat) (span : Span) (s : Session) :
    (callable d closure args span s = .done () (s.note (.called d closure true)) ∧ s.depth < s.maxDepth ∧
      s.scopes.isAlive closure = true) ∨
    (callable d closure args span s = .failed ⟨.staleScope d.name.name, span⟩ (s.note (.called d closure false)) ∧
      s.scopes.isAlive closure = false) ∨
    ∃ cause, callable d closure args span s = .failed ⟨cause, span⟩ s ∧ cause.isStale = false := by
  unfold callable
  split
  · exact .inr (.inr ⟨_, rfl, rfl⟩)
  · split
    · exact .inr (.inr ⟨_, rfl, rfl⟩)
    · split
      · rename_i hd ha
        exact .inl ⟨rfl, by omega, ha⟩
      · rename_i ha
        exact .inr (.inl ⟨rfl, by simpa using ha⟩)

theorem Balances.call {span : Span} {body : ScopeId → Eval α} (d : FunctionDecl) (closure : ScopeId) (args : Nat)
    (h : ∀ id, Balances id (body id)) :
    Balances scope (callable d closure args span >>= fun _ => deeper (Eval.inScope closure span body)) := by
  intro s t hs _ ht
  have hnote : ∀ alive, (s.note (.called d closure alive)).Sound := fun alive => hs.note (by simp) (by simp)
  rcases callable_cases d closure args span s with ⟨hc, hd, ha⟩ | ⟨hc, -⟩ | ⟨e, hc, -⟩
  · rw [bind_of_done hc] at ht
    obtain ⟨hsound, hlevel⟩ := deeper_of_balances (.inScope h) (hnote true) ha hd ht
    exact ⟨hsound, (Session.Level.note _ _).trans hlevel⟩
  · rw [bind_of_failed hc] at ht
    cases ht
    exact ⟨hnote false, .note _ _⟩
  · rw [bind_of_failed hc] at ht
    cases ht
    exact ⟨hs, .refl _⟩

theorem balances_record {e : Event} (h : e.IsRemark) : Balances scope (record e) := by
  intro s t hs _ ht
  cases ht
  exact ⟨hs.remark h, .note _ _⟩

/-- Every evaluation is balanced. -/
theorem balances_discipline : Discipline Balances Balances where
  reads := Reads.balances
  exhausted := by
    intro α scope s t _ _ ht
    cases ht
  record _ := balances_record
  opened := id
  bind := Balances.bind
  bind_loud := Balances.bind
  assign _ := balances_replace
  builtin _ := balances_callBuiltin
  declare _ _ _ _ := balances_change _ _ Scopes.sameOutline_declare
  declareStruct _ _ _ _ := balances_change _ _ Scopes.sameOutline_declareStruct
  inScope := Balances.inScope
  call := Balances.call

end Eval

/-! ### Runs -/

/-- The sessions that can come about: a fresh one, one with another built-in function or another output, and one in
which a program has been run to its end. -/
inductive Session.Reachable : Session → Prop
  | fresh (builtins : Registry) (maxDepth : Nat) (output : Output) : Reachable (.fresh builtins maxDepth output)
  | register {s : Session} (b : Builtin) : Reachable s → Reachable { s with builtins := s.builtins.register b }
  | redirect {s : Session} (output : Output) : Reachable s → Reachable { s with output }
  | run {s t : Session} (p : Program) (fuel : Nat) : Reachable s → (p.run fuel s).session? = some t → Reachable t

theorem Session.sound_fresh (builtins : Registry) (maxDepth : Nat) (output : Output) :
    (Session.fresh builtins maxDepth output).Sound := by
  constructor
  · intro scopes depth he
    obtain ⟨rfl, rfl⟩ := Event.state.inj he
    exact ⟨Scopes.nested_initial, Nat.zero_le _⟩
  · intro scopes id he
    cases he

theorem Program.run_level {s t : Session} {p : Program} {fuel : Nat} (hs : s.Sound)
    (h : (p.run fuel s).session? = some t) : t.Sound ∧ s.Level t := by
  apply (Eval.balances_discipline.disciplined fuel).stmts s.scopes.root p.contents s t hs hs.nested.isAlive_root
  rw [← h]
  unfold Program.run
  split <;> rename_i hrun <;> rw [hrun] <;> rfl

theorem Session.Reachable.sound {s : Session} (h : s.Reachable) : s.Sound := by
  induction h with
  | fresh builtins maxDepth output => exact sound_fresh _ _ _
  | register b _ ih => exact ⟨ih.state, ih.leaving⟩
  | redirect output _ ih => exact ⟨ih.state, ih.leaving⟩
  | run p fuel _ h ih => exact (Program.run_level ih h).1

/-- A run that ends, with a value or with an error, leaves as many scopes alive and as many calls under way as it has
found.  At every moment of it the calls are within their limit and every scope that is alive, the root apart, has a
parent that is alive and has a smaller index, and every scope that is left can be left. -/
theorem Program.run_keeps_nesting {s t : Session} (hs : s.Reachable) (p : Program) (fuel : Nat)
    (h : (p.run fuel s).session? = some t) :
    t.scopes.depth = s.scopes.depth ∧ t.depth = s.depth ∧ (∀ e, s.history e → t.history e) ∧
    (∀ scopes depth, t.history (.state scopes depth) → depth ≤ s.maxDepth ∧
      ∀ id scope, scopes.get? id = some scope → id ≠ scopes.root →
        ∃ parent, scope.parent = some parent ∧ scopes.isAlive parent = true ∧ parent.index < id.index) ∧
    ∀ scopes id, t.history (.leaving scopes id) → ∃ rest, scopes.pop id = .ok rest := by
  obtain ⟨hsound, hlevel⟩ := Program.run_level hs.sound h
  refine ⟨hlevel.outline.live, hlevel.depth, hlevel.history, ?_, fun _ _ => hsound.leaving⟩
  intro scopes depth he
  obtain ⟨hnested, hdepth⟩ := hsound.state he
  exact ⟨by rw [← hlevel.maxDepth]; exact hdepth, hnested.parent⟩

/-- The program `fn f() { { g; } } f();`, whose call fails in a block inside the function, because `g` is not
declared. -/
private def failingCall : Program :=
  let f : Ident := ⟨"f", default⟩
  let body : Block := ⟨[.block ⟨[.expression (.ident ⟨"g", default⟩) default], default⟩], default⟩
  ⟨"m", [], [.function ⟨f, [], .void, body, default⟩, .expression (.call f [] default) default], default⟩

/-- Three scopes are alive when the call fails, and one afterwards. -/
theorem Program.run_keeps_nesting_failingCall :
    ∃ e t, failingCall.run 9 (.fresh .empty 1 .empty) = .failed e t ∧
      (∃ scopes, t.history (.state scopes 1) ∧ scopes.depth = 3) ∧
      t.scopes.depth = 1 ∧ t.depth = 0 ∧ ∀ scopes depth, t.history (.state scopes depth) → depth ≤ 1 := by
  obtain ⟨e, t, h, hdeep⟩ : ∃ e t, failingCall.run 9 (.fresh .empty 1 .empty) = .failed e t ∧
      ∃ scopes, t.history (.state scopes 1) ∧ scopes.depth = 3 := by
    refine ⟨_, _, rfl, ?_⟩
    -- the block was entered five events before the end: two scopes were left and the call was over
    exact ⟨_, Or.inr (Or.inr (Or.inr (Or.inr (Or.inr (Or.inl rfl))))), rfl⟩
  obtain ⟨hscopes, hdepth, -, hstates, -⟩ :=
    Program.run_keeps_nesting (.fresh .empty 1 .empty) failingCall 9 (t := t) (by rw [h]; rfl)
  exact ⟨e, t, h, hdeep, hscopes, hdepth, fun scopes depth he => (hstates scopes depth he).1⟩

end BraceScript
