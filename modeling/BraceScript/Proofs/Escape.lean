import BraceScript.Proofs.Contract

/-!
# Functions that outlive their scope

A function can be called as long as the scope that declares it is alive.  Slots of scopes are used again, so that a
handle is alive depends on generations; here they are tied to what happens in a run (`Scopes.Dated`): as long as
fewer than `2 ^ 32` scopes have been entered, generations only go up, a handle whose scope has been left stays dead,
and one whose scope has not been left is alive.
-/

namespace BraceScript

/-! ### What has happened to a scope -/

namespace Event

/-- Whether a scope is entered. -/
def isEntry : Event → Bool
  | entered _ => true
  | _ => false

/-- The number of scopes that have been entered. -/
def entries (es : List Event) : Nat := es.countP isEntry

/-- The scope `id` has been left. -/
def Left (es : List Event) (id : ScopeId) : Prop := ∃ scopes, leaving scopes id ∈ es

/-- An event that has nothing to do with whether functions can be called. -/
def IsQuiet : Event → Prop
  | state .. | value .. | introduced .. | assigned .. => True
  | entered _ | leaving .. | declared .. | called .. => False

variable {e : Event} {es : List Event} {id : ScopeId}

/-- The later one of two different events stands before the other. -/
theorem split_of_ne {x : Event} {later rest : List Event} (hne : e ≠ x) (h : e :: es = later ++ x :: rest) :
    ∃ between, later = e :: between ∧ es = between ++ x :: rest := by
  cases later with
  | nil => exact absurd (List.cons.inj h).1 hne
  | cons e' between =>
    obtain ⟨rfl, hrest⟩ := List.cons.inj h
    exact ⟨between, rfl, hrest⟩

theorem entries_cons (e : Event) (es : List Event) : entries (e :: es) = entries es + if e.isEntry then 1 else 0 :=
  List.countP_cons

theorem Left.cons (h : Left es id) (e : Event) : Left (e :: es) id := by
  obtain ⟨scopes, h⟩ := h
  exact ⟨scopes, by simp [h]⟩

private theorem left_cons_iff (h : ∀ scopes, e ≠ leaving scopes id) : Left (e :: es) id ↔ Left es id := by
  constructor
  · rintro ⟨scopes, hmem⟩
    rcases List.mem_cons.1 hmem with heq | hmem
    · exact absurd heq.symm (h scopes)
    · exact ⟨scopes, hmem⟩
  · exact fun h => h.cons e

end Event

/-! ### Generations -/

namespace Scopes

variable {s t : Scopes} {id : ScopeId} {es : List Event}

/-- The generation of a slot. -/
def generation? (s : Scopes) (i : Nat) : Option UInt32 := (s.slots[i]?).map Slot.generation

theorem isAlive_iff_generation :
    s.isAlive id = true ↔ id.index < s.live ∧ s.generation? id.index = some id.generation := by
  rw [isAlive_iff]
  apply and_congr_right
  intro _
  unfold generation?
  rw [Option.map_eq_some_iff]
  constructor
  · rintro ⟨scope, hslot⟩
    exact ⟨_, hslot, rfl⟩
  · rintro ⟨⟨generation, scope⟩, hslot, rfl⟩
    exact ⟨scope, hslot⟩

@[simp] theorem generation?_modify (f : Scope → Scope) (i : Nat) :
    (s.modify id f).generation? i = s.generation? i := by
  unfold generation?
  rw [modify_slots]
  split
  · rw [Option.map_map]
    rfl
  · rfl

@[simp] theorem generation?_dropLast (i : Nat) : s.dropLast.generation? i = s.generation? i := by
  change (s.modify ⟨s.live - 1, 0⟩ fun _ => .empty none).generation? i = s.generation? i
  rw [generation?_modify]

theorem generation?_push_of_ne (parent : ScopeId) {i : Nat} (hi : i ≠ s.live) (h : s.live ≤ s.slots.size) :
    (s.push parent).1.generation? i = s.generation? i := by
  unfold generation?
  rw [push_slots_of_ne parent hi h]

theorem generation?_push_self (parent : ScopeId) (h : s.live ≤ s.slots.size) :
    (s.push parent).1.generation? s.live = some (((s.generation? s.live).map (· + 1)).getD 0) := by
  unfold generation?
  rw [push_slots_self parent h, Option.map_some, push_generation, Option.map_map]
  rfl

/-- How the slots of the scopes go with what has happened. -/
structure Dated (s : Scopes) (es : List Event) : Prop where
  /-- A slot is used once for each entry at most. -/
  bounded : ∀ i g, s.generation? i = some g → g.toNat ≤ Event.entries es
  /-- A scope that has been left was in an earlier generation of its slot, or is the last one there. -/
  left : ∀ id, Event.Left es id → ∃ g, s.generation? id.index = some g ∧ id.generation.toNat ≤ g.toNat ∧
    (id.index < s.live → id.generation.toNat < g.toNat)
  /-- A scope with a function in it is alive until it is left. -/
  declared : ∀ later d closure earlier, es = later ++ .declared d closure :: earlier →
    s.isAlive closure = true ∨ Event.Left later closure
  /-- A call has found the scope of a function dead exactly if it had been left. -/
  called : ∀ later d closure alive since before,
    es = later ++ .called d closure alive :: (since ++ .declared d closure :: before) →
    (alive = false ↔ Event.Left since closure)

namespace Dated

variable (h : s.Dated es)
include h

/-- A scope that has been left is not alive. -/
private theorem isAlive_of_left (hl : Event.Left es id) : s.isAlive id = false := by
  obtain ⟨g, hg, hle, hlt⟩ := h.left id hl
  cases halive : s.isAlive id with
  | false => rfl
  | true =>
    obtain ⟨hi, hgeneration⟩ := isAlive_iff_generation.1 halive
    obtain rfl : g = id.generation := Option.some.inj (hg.symm.trans hgeneration)
    exact absurd (hlt hi) (Nat.lt_irrefl _)

private theorem same (hlive : t.live = s.live) (hg : ∀ i, t.generation? i = s.generation? i) : t.Dated es := by
  have halive : ∀ id, t.isAlive id = true ↔ s.isAlive id = true := by
    intro id
    rw [isAlive_iff_generation, isAlive_iff_generation, hlive, hg]
  refine ⟨?_, ?_, ?_, h.called⟩
  · intro i g hi
    exact h.bounded i g ((hg i).symm.trans hi)
  · intro id hl
    rw [hg, hlive]
    exact h.left id hl
  · intro later d closure earlier he
    rw [halive]
    exact h.declared later d closure earlier he

/-- An event other than entering and leaving a scope, if calls and declarations are taken down as they are. -/
private theorem cons {e : Event} (hentry : e.isEntry = false) (hleaving : ∀ scopes id, e ≠ .leaving scopes id)
    (hdeclared : ∀ d closure, e = .declared d closure → s.isAlive closure = true)
    (hcalled : ∀ d closure alive, e = .called d closure alive → alive = s.isAlive closure) : s.Dated (e :: es) := by
  refine ⟨?_, ?_, ?_, ?_⟩
  · intro i g hi
    rw [Event.entries_cons, hentry]
    exact h.bounded i g hi
  · intro id hl
    exact h.left id ((Event.left_cons_iff fun scopes => hleaving scopes id).1 hl)
  · intro later d closure earlier he
    by_cases hhead : e = .declared d closure
    · exact .inl (hdeclared d closure hhead)
    · obtain ⟨between, rfl, hrest⟩ := Event.split_of_ne hhead he
      exact (h.declared between d closure earlier hrest).imp_right fun hl => hl.cons e
  · intro later d closure alive since before he
    by_cases hhead : e = .called d closure alive
    · cases later with
      | nil =>
        obtain ⟨-, rfl⟩ := List.cons.inj he
        rw [hcalled d closure alive hhead]
        constructor
        · intro hdead
          rcases h.declared since d closure before rfl with halive | hl
          · rw [hdead] at halive
            cases halive
          · exact hl
        · rintro ⟨scopes, hmem⟩
          exact h.isAlive_of_left ⟨scopes, by simp [hmem]⟩
      | cons e' between =>
        obtain ⟨rfl, hrest⟩ := List.cons.inj he
        exact h.called between d closure alive since before hrest
    · obtain ⟨between, -, he⟩ := Event.split_of_ne hhead he
      exact h.called between d closure alive since before he

private theorem quiet {e : Event} (he : e.IsQuiet) : s.Dated (e :: es) := by
  refine h.cons ?_ ?_ ?_ ?_
  · cases e <;> first | rfl | exact he.elim
  · rintro scopes id rfl
    exact he
  · rintro d closure rfl
    exact he.elim
  · rintro d closure alive rfl
    exact he.elim

private theorem enter (parent : ScopeId) (hstored : s.live ≤ s.slots.size)
    (hcount : Event.entries es + 1 < 4294967296) : (s.push parent).1.Dated (.entered (s.push parent).2 :: es) := by
  have hself := generation?_push_self parent hstored
  -- as generations are bounded by the number of entries, the next one is larger
  have hnext : ∀ g, s.generation? s.live = some g → (g + 1).toNat = g.toNat + 1 := by
    intro g hg
    have hbound := h.bounded _ g hg
    rw [UInt32.toNat_add]
    exact Nat.mod_eq_of_lt (by change g.toNat + 1 < 4294967296; omega)
  refine ⟨?_, ?_, ?_, ?_⟩
  · intro i g hi
    rw [Event.entries_cons]
    change g.toNat ≤ Event.entries es + 1
    by_cases hlive : i = s.live
    · rw [hlive, hself, Option.some.injEq] at hi
      cases hold : s.generation? s.live with
      | none =>
        rw [hold] at hi
        rw [← hi]
        exact Nat.zero_le _
      | some old =>
        have hbound := h.bounded _ old hold
        rw [hold] at hi
        rw [← hi]
        change (old + 1).toNat ≤ _
        rw [hnext old hold]
        omega
    · rw [generation?_push_of_ne parent hlive hstored] at hi
      have hbound := h.bounded i g hi
      omega
  · intro id hl
    obtain ⟨g, hg, hle, hlt⟩ := h.left id ((Event.left_cons_iff (by simp)).1 hl)
    by_cases hlive : id.index = s.live
    · rw [hlive] at hg
      refine ⟨g + 1, ?_, ?_, fun _ => ?_⟩
      · rw [hlive, hself, hg]
        rfl
      · rw [hnext g hg]
        omega
      · rw [hnext g hg]
        omega
    · refine ⟨g, by rw [generation?_push_of_ne parent hlive hstored, hg], hle, fun hi => hlt ?_⟩
      rw [push_live] at hi
      omega
  · intro later d closure earlier he
    obtain ⟨between, rfl, hrest⟩ := Event.split_of_ne (by simp) he
    rcases h.declared between d closure earlier hrest with halive | hl
    · exact .inl (isAlive_push_of_isAlive hstored halive)
    · exact .inr (hl.cons _)
  · intro later d closure alive since before he
    obtain ⟨between, -, he⟩ := Event.split_of_ne (by simp) he
    exact h.called between d closure alive since before he

private theorem leave (scopes : Scopes) (hpop : s.pop id = .ok s.dropLast) :
    s.dropLast.Dated (.leaving scopes id :: es) := by
  obtain ⟨halive, -, hlast, -⟩ := pop_eq_ok_iff.1 hpop
  obtain ⟨-, hgeneration⟩ := isAlive_iff_generation.1 halive
  refine ⟨?_, ?_, ?_, ?_⟩
  · intro i g hi
    rw [generation?_dropLast] at hi
    rw [Event.entries_cons]
    exact Nat.le_trans (h.bounded i g hi) (Nat.le_add_right _ _)
  · rintro id' ⟨scopes', hmem⟩
    rw [generation?_dropLast, dropLast_live]
    rcases List.mem_cons.1 hmem with heq | hmem
    · obtain ⟨-, rfl⟩ := Event.leaving.inj heq
      exact ⟨_, hgeneration, Nat.le_refl _, fun hi => by omega⟩
    · obtain ⟨g, hg, hle, hlt⟩ := h.left id' ⟨scopes', hmem⟩
      exact ⟨g, hg, hle, fun hi => hlt (by omega)⟩
  · intro later d closure earlier he
    obtain ⟨between, rfl, hrest⟩ := Event.split_of_ne (by simp) he
    rcases h.declared between d closure earlier hrest with hclosure | hl
    · by_cases hid : closure = id
      · exact .inr ⟨scopes, by simp [hid]⟩
      · refine .inl (isAlive_dropLast hclosure ?_)
        obtain ⟨hi, hg⟩ := isAlive_iff_generation.1 hclosure
        -- another scope that is alive is in another slot
        have hindex : closure.index ≠ id.index := by
          intro hindex
          rw [hindex, hgeneration, Option.some.injEq] at hg
          obtain ⟨index, generation⟩ := closure
          obtain ⟨index', generation'⟩ := id
          simp_all
        omega
    · exact .inr (hl.cons _)
  · intro later d closure alive since before he
    obtain ⟨between, -, he⟩ := Event.split_of_ne (by simp) he
    exact h.called between d closure alive since before he

end Dated

private theorem dated_initial : initial.Dated [.state initial 0] := by
  refine ⟨?_, ?_, ?_, ?_⟩
  · intro i g hi
    cases i with
    | zero =>
      cases hi
      exact Nat.zero_le _
    | succ i => cases hi
  · rintro id ⟨scopes, hmem⟩
    simp at hmem
  · intro later d closure earlier he
    have hmem : Event.declared d closure ∈ [Event.state initial 0] := by rw [he]; simp
    simp at hmem
  · intro later d closure alive since before he
    have hmem : Event.called d closure alive ∈ [Event.state initial 0] := by rw [he]; simp
    simp at hmem

end Scopes

/-! ### Slots in a run -/

/-- The slots of the session go with what has happened, unless generations may have wrapped around. -/
def Session.Dated (s : Session) : Prop := Event.entries s.events < 4294967296 → s.scopes.Dated s.events

namespace Session.Dated

variable {s : Session}

theorem note (h : s.Dated) {e : Event} (hentry : e.isEntry = false) (hleaving : ∀ scopes id, e ≠ .leaving scopes id)
    (hdeclared : ∀ d closure, e = .declared d closure → s.scopes.isAlive closure = true)
    (hcalled : ∀ d closure alive, e = .called d closure alive → alive = s.scopes.isAlive closure) :
    (s.note e).Dated := by
  intro hcount
  rw [events_note] at hcount ⊢
  rw [Event.entries_cons, hentry] at hcount
  exact (h hcount).cons hentry hleaving hdeclared hcalled

private theorem moveTo (h : s.Dated) {scopes : Scopes} (depth : Nat) (hlive : scopes.live = s.scopes.live)
    (hg : ∀ i, scopes.generation? i = s.scopes.generation? i) : (s.moveTo scopes depth).Dated := by
  intro hcount
  rw [events_moveTo] at hcount ⊢
  exact ((h hcount).same hlive hg).quiet trivial

private theorem modify (h : s.Dated) (id : ScopeId) (f : Scope → Scope) :
    (s.moveTo (s.scopes.modify id f) s.depth).Dated :=
  h.moveTo s.depth rfl fun _ => Scopes.generation?_modify f _

private theorem enter (h : s.Dated) (hs : s.Sound) (parent : ScopeId) : (s.entered parent).Dated := by
  intro hcount
  unfold entered at hcount ⊢
  rw [events_moveTo, events_note] at hcount ⊢
  have hcount' : Event.entries s.events + 1 < 4294967296 := by simpa [Event.entries_cons, Event.isEntry] using hcount
  exact ((h (by omega)).enter parent hs.nested.stored hcount').quiet trivial

private theorem leave (h : s.Dated) {id : ScopeId} (hpop : s.scopes.pop id = .ok s.scopes.dropLast) :
    (s.left id).Dated := by
  intro hcount
  unfold left at hcount ⊢
  rw [events_moveTo, events_note] at hcount ⊢
  exact ((h hcount).leave s.scopes hpop).quiet trivial

end Session.Dated

namespace Contract

/-- Slots go with what has happened. -/
def dated : Contract where
  inv := Session.Dated
  fault _ := Session.Dated
  good _ _ := True
  raw _ _ _ := True
  literal _ := True

theorem stepLaws_dated : dated.StepLaws where
  toValueLaws := .of_top (fun _ _ => trivial) (fun _ _ _ => trivial) (fun _ => trivial) fun _ => trivial
  bound _ _ := trivial
  struct _ _ := trivial
  builtin _ _ _ _ := trivial
  output _ h := h
  value h _ := ⟨h.note rfl (by simp) (by simp) (by simp), trivial⟩
  assign _ h _ _ _ _ _ := Session.Dated.modify (h.note rfl (by simp) (by simp) (by simp)) _ _
  declare _ h _ _ _ := h.modify _ _
  introduce _ h _ _ _ _ := Session.Dated.note (h.modify _ _) rfl (by simp) (by simp) (by simp)
  declareFunction := by
    intro s scope here d _ h hget _ _ _
    refine Session.Dated.note (h.modify _ _) rfl (by simp) ?_ (by simp)
    rintro d closure ⟨⟩
    have hsame : s.scopes.SameOutline (s.scopes.modify scope (·.bind d.name.name ⟨.function d scope, true⟩)) :=
      Scopes.sameOutline_modify fun _ => rfl
    exact hsame.isAlive (Scopes.isAlive_of_get? hget)
  declareStruct _ h _ _ := h.modify _ _
  enter hs _ h := h.enter hs _
  leave _ hpop h := h.leave hpop
  deeper depth h := h.moveTo depth rfl fun _ => rfl

private theorem lawful_dated : dated.Lawful := by
  refine stepLaws_dated.lawful (fun _ _ => .rfl) ?_
  intro s d closure alive h _ ha
  refine Session.Dated.note h rfl (by simp) (by simp) ?_
  rintro _ _ _ ⟨⟩
  exact ha.symm

end Contract

theorem Session.dated_fresh (builtins : Registry) (maxDepth : Nat) (output : Output) :
    (Session.fresh builtins maxDepth output).Dated := by
  intro _
  rw [events_fresh]
  exact Scopes.dated_initial

private theorem Session.Reachable.dated {s : Session} (h : s.Reachable) : s.Dated :=
  Contract.lawful_dated.reachable (fun _ => ⟨fun _ _ _ => trivial, fun _ _ => trivial⟩) (fun _ _ h => h)
    (fun _ _ _ _ => dated_fresh _ _ _)
    (fun _ _ _ h => h) h.by_any

/-! ### Calls that have failed -/

namespace Event

/-- A call of a function whose scope was dead. -/
def isDeadCall : Event → Bool
  | called _ _ alive => !alive
  | _ => false

/-- What happens on the way from an error to the end of the program: calls are over and scopes are left. -/
def IsUnwinding : Event → Prop
  | state .. | leaving .. => True
  | _ => False

end Event

namespace Session

variable {s : Session} {start : List Event}

/-- No call has found a dead scope since `start`. -/
def Lively (start : List Event) (s : Session) : Prop :=
  ∃ new, s.events = new ++ start ∧ ∀ e ∈ new, e.isDeadCall = false

/-- The last thing that happened, before calls were over and scopes were left, was that a call found the scope of its
function dead; the error is about this function, and there was no such call before. -/
def Halted (start : List Event) (cause : RuntimeError.Cause) (s : Session) : Prop :=
  ∃ unwinding d closure new, s.events = unwinding ++ .called d closure false :: (new ++ start) ∧
    cause = .staleScope d.name.name ∧ (∀ e ∈ unwinding, e.IsUnwinding) ∧ ∀ e ∈ new, e.isDeadCall = false

private theorem Lively.note (h : s.Lively start) {e : Event} (he : e.isDeadCall = false) :
    (s.note e).Lively start := by
  obtain ⟨new, hnew, hall⟩ := h
  refine ⟨e :: new, by rw [events_note, hnew]; rfl, ?_⟩
  rw [List.forall_mem_cons]
  exact ⟨he, hall⟩

private theorem Lively.moveTo (h : s.Lively start) (scopes : Scopes) (depth : Nat) :
    (s.moveTo scopes depth).Lively start := by
  obtain ⟨new, hnew, hall⟩ := h
  refine ⟨.state scopes depth :: new, by rw [events_moveTo, hnew]; rfl, ?_⟩
  rw [List.forall_mem_cons]
  exact ⟨rfl, hall⟩

private theorem Lively.halted (h : s.Lively start) (d : FunctionDecl) (closure : ScopeId) :
    (s.note (.called d closure false)).Halted start (.staleScope d.name.name) := by
  obtain ⟨new, hnew, hall⟩ := h
  exact ⟨[], d, closure, new, by rw [events_note, hnew]; rfl, rfl, by simp, hall⟩

private theorem Halted.note {cause : RuntimeError.Cause} (h : s.Halted start cause) {e : Event}
    (he : e.IsUnwinding) : (s.note e).Halted start cause := by
  obtain ⟨unwinding, d, closure, new, hevents, hcause, hunwinding, hnew⟩ := h
  refine ⟨e :: unwinding, d, closure, new, by rw [events_note, hevents]; rfl, hcause, ?_, hnew⟩
  rw [List.forall_mem_cons]
  exact ⟨he, hunwinding⟩

private theorem Halted.moveTo {cause : RuntimeError.Cause} (h : s.Halted start cause) (scopes : Scopes)
    (depth : Nat) : (s.moveTo scopes depth).Halted start cause := by
  obtain ⟨unwinding, d, closure, new, hevents, hcause, hunwinding, hnew⟩ := h
  refine ⟨.state scopes depth :: unwinding, d, closure, new, by rw [events_moveTo, hevents]; rfl, hcause, ?_, hnew⟩
  rw [List.forall_mem_cons]
  exact ⟨trivial, hunwinding⟩

end Session

namespace Contract

/-- No call finds a dead scope, unless the program ends there. -/
def lively (start : List Event) : Contract where
  inv := Session.Lively start
  fault e s := e.cause.isStale = false ∧ s.Lively start ∨ s.Halted start e.cause
  good _ _ := True
  raw _ _ _ := True
  literal _ := True

private theorem lawful_lively (start : List Event) : (lively start).Lawful where
  toValueLaws := .of_top (fun _ _ => trivial) (fun _ _ _ => trivial) (fun _ => trivial) fun _ => trivial
  bound _ _ := trivial
  struct _ _ := trivial
  builtin _ _ _ _ := trivial
  output _ h := h
  value h _ := ⟨h.note rfl, trivial⟩
  assign _ h _ _ _ _ _ := (h.note rfl).moveTo _ _
  declare _ h _ _ _ := h.moveTo _ _
  introduce _ h _ _ _ _ := (h.moveTo _ _).note rfl
  declareFunction _ h _ _ _ _ := (h.moveTo _ _).note rfl
  declareStruct _ h _ _ := h.moveTo _ _
  enter _ _ h := (h.note rfl).moveTo _ _
  leave _ _ h := (h.note rfl).moveTo _ _
  deeper depth h := h.moveTo _ depth
  call _ h _ _ := h.note rfl
  fail h hstale := .inl ⟨hstale, h⟩
  dead _ h _ _ := .inr (h.halted _ _)
  fault_leave := by
    rintro s id e _ _ (⟨hstale, h⟩ | h)
    · exact .inl ⟨hstale, (h.note rfl).moveTo _ _⟩
    · exact .inr (Session.Halted.moveTo (h.note (show (Event.leaving s.scopes id).IsUnwinding from trivial)) _ _)
  fault_deeper := by
    rintro s e depth (⟨hstale, h⟩ | h)
    · exact .inl ⟨hstale, h.moveTo _ depth⟩
    · exact .inr (h.moveTo _ depth)

end Contract

/-! ### Functions that are called have been declared -/

/-- If the value is a function, it is one of the functions `known`. -/
def Value.IsKnown (known : FunctionDecl → ScopeId → Prop) : Value → Prop
  | .function d closure => known d closure
  | _ => True

theorem Value.closed_isKnown (known : FunctionDecl → ScopeId → Prop) : Value.Closed (Value.IsKnown known) := by
  refine .of_integer ?_ fun _ _ => trivial
  intro v hv
  cases v with
  | function => exact hv.elim
  | _ => trivial

/-- A contract that asks something of the functions in a value. -/
theorem Contract.ValueLaws.of_known {C : Contract} {known : List Event → FunctionDecl → ScopeId → Prop}
    (hgood : ∀ now v, C.good now v ↔ v.All (Value.IsKnown (known now)))
    (hstable : ∀ {past now d closure}, past <:+ now → known past d closure → known now d closure)
    (hraw : ∀ {now e v}, C.good now v → C.raw now e v)
    (hcode : ∀ {now d closure}, known now d closure → C.Admits d.exprs d.parts)
    (hdeclared : ∀ {now d scope}, C.stmt (.function d) → C.Admits d.exprs d.parts →
      known (.declared d scope :: now) d scope) : C.ValueLaws := by
  refine .of_closed hgood (fun _ => Value.closed_isKnown _) ?_ ?_ ?_ ?_ hraw ?_ ?_
  · intro past now hpast v hv
    cases v with
    | function d closure => exact hstable hpast hv
    | _ => trivial
  · intro now l _
    refine (hgood _ _).2 ?_
    cases l <;> exact trivial
  · intro now i
    exact (hgood _ _).2 trivial
  · intro now op left right span a b w _ _ h _
    obtain ⟨a, s, b, t, -, -, -, rfl⟩ := Value.range_eq_ok h
    refine hraw ((hgood _ _).2 (Value.all_array.2 fun v hv => ?_))
    obtain ⟨i, -, rfl⟩ := List.mem_map.1 hv
    exact trivial
  · intro now d closure h
    exact hcode ((hgood _ _).1 h)
  · intro now d scope hd hd'
    exact (hgood _ _).2 (hdeclared hd hd')

/-- The functions in the value have been declared. -/
def Value.Known (es : List Event) : Value → Prop := Value.All (IsKnown fun d closure => .declared d closure ∈ es)

private theorem Value.Known.mono {es es' : List Event} (h : es <:+ es') (v : Value) (hv : v.Known es) :
    v.Known es' := by
  refine Value.All.mono ?_ v hv
  intro u hu
  cases u with
  | function d closure => exact h.subset hu
  | _ => trivial

/-- The functions in what a built-in function yields are from its arguments. -/
def Builtin.Faithful (b : Builtin) : Prop :=
  ∀ known args output v rest, b.call args output = (.ok v, rest) → (∀ a ∈ args, a.All (Value.IsKnown known)) →
    v.All (Value.IsKnown known)

/-- Every function that is called has been declared before. -/
def Event.CallsDeclared (es : List Event) : Prop :=
  ∀ later d closure alive before, es = later ++ .called d closure alive :: before → .declared d closure ∈ before

private theorem Event.CallsDeclared.cons {e : Event} {es : List Event} (h : CallsDeclared es)
    (he : ∀ d closure alive, e = .called d closure alive → .declared d closure ∈ es) : CallsDeclared (e :: es) := by
  intro later d closure alive before heq
  cases later with
  | nil =>
    obtain ⟨hhead, rfl⟩ := List.cons.inj heq
    exact he d closure alive hhead
  | cons e' between =>
    obtain ⟨-, hrest⟩ := List.cons.inj heq
    exact h between d closure alive before hrest

namespace Session

variable {s : Session}

/-- The functions in all variables have been declared, and so had those that have been called; built-in functions do
not make up functions. -/
structure Grounded (s : Session) : Prop where
  bound : s.scopes.Holds (Value.Known s.events)
  builtins : ∀ b ∈ s.builtins.entries, b.Faithful
  called : Event.CallsDeclared s.events

theorem Grounded.note (h : s.Grounded) {e : Event}
    (he : ∀ d closure alive, e = .called d closure alive → .declared d closure ∈ s.events) :
    (s.note e).Grounded := by
  refine ⟨?_, h.builtins, by rw [events_note]; exact h.called.cons he⟩
  rw [events_note]
  exact h.bound.mono (Value.Known.mono (List.suffix_cons _ _))

private theorem Grounded.moveTo (h : s.Grounded) {scopes : Scopes} (depth : Nat)
    (hbound : scopes.Holds (Value.Known s.events)) : (s.moveTo scopes depth).Grounded := by
  refine ⟨?_, h.builtins, by rw [events_moveTo]; exact h.called.cons (by simp)⟩
  rw [events_moveTo]
  exact hbound.mono (Value.Known.mono (List.suffix_cons _ _))

/-- A function is known once its declaration has been taken down. -/
theorem Grounded.declareFunction (h : s.Grounded) {scope : ScopeId} {here : Scope} {d : FunctionDecl}
    (hget : s.scopes.get? scope = some here) (hnone : here.binding? d.name.name = none) :
    ((Eval.bound s scope d.name.name ⟨.function d scope, true⟩).note (.declared d scope)).Grounded := by
  have hevents : ((Eval.bound s scope d.name.name ⟨.function d scope, true⟩).note (.declared d scope)).events =
      .declared d scope :: .state (s.scopes.modify scope (·.bind d.name.name ⟨.function d scope, true⟩)) s.depth ::
        s.events := by
    unfold Eval.bound
    rw [events_note, events_moveTo]
  refine ⟨?_, h.builtins, ?_⟩
  · rw [hevents]
    refine (h.bound.mono (Value.Known.mono ?_)).bind hget hnone ?_
    · exact (List.suffix_cons _ _).trans (List.suffix_cons _ _)
    · exact List.mem_cons_self
  · rw [hevents]
    exact (h.called.cons (by simp)).cons (by simp)

end Session

namespace Contract

/-- Functions come from their declarations. -/
def grounded : Contract where
  inv := Session.Grounded
  fault _ := Session.Grounded
  good es v := v.Known es
  raw es _ v := v.Known es
  literal _ := True

private theorem valueLaws_grounded : grounded.ValueLaws :=
  .of_known (fun _ _ => .rfl) (fun hpast h => hpast.subset h) (fun h => h)
    (fun _ => ⟨fun _ _ _ => trivial, fun _ _ => trivial⟩) fun _ _ => List.mem_cons_self

theorem stepLaws_grounded : grounded.StepLaws where
  toValueLaws := valueLaws_grounded
  bound h hb := h.bound _ _ _ hb
  struct _ _ := (Value.closed_isKnown _).all_default _
  builtin h hb hargs hcall := h.builtins _ (List.mem_of_find?_eq_some hb) _ _ _ _ _ hcall hargs
  output _ h := ⟨h.bound, h.builtins, h.called⟩
  value h hv := ⟨h.note (by simp), Value.Known.mono (List.suffix_cons _ _) _ hv⟩
  assign := by
    intro s scope owner name b w _ h _ _ _ _ hw
    have hnote : (s.note (.assigned s.scopes scope name)).Grounded := h.note (by simp)
    exact hnote.moveTo _ (hnote.bound.set (Value.Known.mono (s.suffix_note _) _ hw))
  declare _ h hget hnone hv := h.moveTo _ (h.bound.bind hget hnone hv)
  introduce := by
    intro s scope here name t v isConstant _ h hget hnone hv _
    have hbound : (Eval.bound s scope name ⟨v, isConstant⟩).Grounded := h.moveTo _ (h.bound.bind hget hnone hv)
    exact hbound.note (by simp)
  declareFunction _ h hget hnone _ _ := h.declareFunction hget hnone
  declareStruct _ h _ _ := h.moveTo _ (h.bound.declareStruct _)
  enter := by
    intro s parent hs _ h
    have hnote : (s.note (.entered (s.scopes.push parent).2)).Grounded := h.note (by simp)
    exact hnote.moveTo _ (hnote.bound.push parent hs.nested.stored)
  leave := by
    intro s id _ _ h
    have hnote : (s.note (.leaving s.scopes id)).Grounded := h.note (by simp)
    exact hnote.moveTo _ hnote.bound.dropLast
  deeper depth h := h.moveTo depth h.bound

private theorem lawful_grounded : grounded.Lawful := by
  refine stepLaws_grounded.lawful (fun _ _ => .rfl) ?_
  intro s d closure alive h hgood _
  refine Session.Grounded.note h ?_
  rintro _ _ _ ⟨⟩
  exact hgood

end Contract

theorem Session.ReachableBy.grounded {s : Session} (h : s.ReachableBy Builtin.Faithful) : s.Grounded := by
  refine Contract.lawful_grounded.reachable (fun _ => ⟨fun _ _ _ => trivial, fun _ _ => trivial⟩)
    (fun _ _ h => h) ?_ ?_ h
  · intro builtins maxDepth output hb
    refine ⟨Scopes.holds_initial, hb, ?_⟩
    intro later d closure alive before he
    rw [events_fresh] at he
    have hmem : Event.called d closure alive ∈ [Event.state .initial 0] := by rw [he]; simp
    simp at hmem
  · intro s b hb hs
    refine ⟨hs.bound, fun c hc => ?_, hs.called⟩
    rcases Registry.mem_register hc with rfl | hc
    · exact hb
    · exact hs.builtins c hc

/-- The default built-in functions make up no functions. -/
theorem Registry.faithful_default (now : Nat) : ∀ b ∈ (Registry.default now).entries, b.Faithful := by
  intro b hb known args output v rest hcall _
  rcases call_default hb hcall with rfl | ⟨n, -, rfl⟩
  · exact trivial
  · exact trivial

/-! ### Functions that have escaped -/

/-- A call with the right number of arguments that is not too deep takes down whether the scope of the function is
alive, and goes on if it is. -/
private theorem Eval.callable_eq {d : FunctionDecl} {closure : ScopeId} {args : Nat} {span : Span} {s : Session}
    (hargs : args = d.params.length) (hdepth : s.depth < s.maxDepth) : callable d closure args span s =
      if s.scopes.isAlive closure then .done () (s.note (.called d closure true))
      else .failed ⟨.staleScope d.name.name, span⟩ (s.note (.called d closure false)) := by
  unfold callable
  rw [if_neg (by simpa using hargs), if_neg (by omega)]

/-- In a run in which fewer than `2 ^ 32` scopes have been entered, a call of a function that has been declared finds
its scope dead exactly if this scope has been left since the declaration, and all calls are of functions that have
been declared, unless a built-in function makes one up.  The run fails with the error of a dead scope exactly if
there is such a call, and nothing else happens then but that calls are over and scopes are left. -/
theorem Program.run_stale_iff_escaped {s : Session} (hs : s.Reachable) (p : Program) (fuel : Nat)
    (hcount : Event.entries (p.run fuel s).session.events < 4294967296) :
    (∀ d closure args span (t : Session), args = d.params.length → t.depth < t.maxDepth →
      ∃ alive, (Eval.callable d closure args span t).session = t.note (.called d closure alive) ∧
        (alive = false ↔ ∃ u, Eval.callable d closure args span t = .failed ⟨.staleScope d.name.name, span⟩ u)) ∧
    (∀ later d closure alive since before,
      (p.run fuel s).session.events = later ++ .called d closure alive :: (since ++ .declared d closure :: before) →
      (alive = false ↔ Event.Left since closure)) ∧
    (s.ReachableBy Builtin.Faithful → ∀ later d closure alive before,
      (p.run fuel s).session.events = later ++ .called d closure alive :: before → .declared d closure ∈ before) ∧
    (∀ e t, p.run fuel s = .failed e t → e.cause.isStale = true → t.Halted s.events e.cause) ∧
    ∀ new d closure, (p.run fuel s).session.events = new ++ s.events → .called d closure false ∈ new →
      ∃ e t, p.run fuel s = .failed e t ∧ e.cause = .staleScope d.name.name := by
  have hdated := (Contract.lawful_dated.run p (fun _ _ _ => trivial) fuel hs.sound hs.dated).inv (fun _ _ h => h)
  have hlively := (Contract.lawful_lively s.events).run p (fun _ _ _ => trivial) fuel hs.sound ⟨[], rfl, by simp⟩
  refine ⟨?_, (hdated hcount).called, ?_, ?_, ?_⟩
  · intro d closure args span t hargs hdepth
    rw [Eval.callable_eq hargs hdepth]
    cases t.scopes.isAlive closure with
    | true => exact ⟨true, rfl, by simp⟩
    | false => exact ⟨false, rfl, by simp⟩
  · intro hs
    have hgrounded := (Contract.lawful_grounded.run p (fun _ _ _ => trivial) fuel hs.reachable.sound hs.grounded).inv
      (fun _ _ h => h)
    exact hgrounded.called
  · intro e t hrun hstale
    rw [hrun] at hlively
    rcases hlively.2 with ⟨hother, -⟩ | hhalted
    · rw [hstale] at hother
      cases hother
    · exact hhalted
  · intro new d closure hnew hdead
    have hnot : ∀ {t : Session}, t.events = new ++ s.events → ¬ t.Lively s.events := by
      rintro t ht ⟨new', hnew', hall⟩
      obtain rfl : new' = new := List.append_cancel_right (hnew'.symm.trans ht)
      have hcalled := hall _ hdead
      cases hcalled
    cases hrun : p.run fuel s with
    | done v t =>
      rw [hrun] at hlively hnew
      exact absurd hlively.2.1 (hnot hnew)
    | exhausted t =>
      rw [hrun] at hlively hnew
      exact absurd hlively (hnot hnew)
    | failed e t =>
      rw [hrun] at hlively hnew
      refine ⟨e, t, rfl, ?_⟩
      rcases hlively.2 with ⟨-, hlive⟩ | ⟨unwinding, d', closure', new', hevents, hcause, hunwinding, hall⟩
      · exact absurd hlive (hnot hnew)
      · -- it is the one call that has ended the run
        have hsplit : unwinding ++ .called d' closure' false :: new' = new := by
          apply List.append_cancel_right
          rw [List.append_assoc]
          exact hevents.symm.trans hnew
        rw [← hsplit, List.mem_append, List.mem_cons] at hdead
        rcases hdead with hmem | heq | hmem
        · exact absurd (hunwinding _ hmem) id
        · obtain ⟨rfl, -⟩ := Event.called.inj heq
          exact hcause
        · cases hall _ hmem

/-- The program `let g := null; { fn f() {} g = f; } {} g();`: when `f` is called, its scope has been left and
another scope has had its slot. -/
private def escapingCall : Program :=
  let f : Ident := ⟨"f", default⟩
  let g : Ident := ⟨"g", default⟩
  let inner : Block := ⟨[.function ⟨f, [], .void, ⟨[], default⟩, default⟩,
    .expression (.assign (.ident g) ⟨.set, default⟩ (.ident f) default) default], default⟩
  ⟨"m", [], [.declare ⟨g, false, none, some (.literal .null default), default⟩, .block inner, .block ⟨[], default⟩,
    .expression (.call g [] default) default], default⟩

/-- The call fails, because the scope in which `f` was declared has been left. -/
theorem Program.run_stale_iff_escaped_reusedSlot :
    ∃ e t unwinding d closure since before, escapingCall.run 9 (.fresh (.default 0) 1 .empty) = .failed e t ∧
      e.cause = .staleScope "f" ∧ Event.entries t.events = 2 ∧
      t.events = unwinding ++ .called d closure false :: (since ++ .declared d closure :: before) ∧
      Event.Left since closure := by
  obtain ⟨e, t, hrun, hcause, hcount⟩ : ∃ e t, escapingCall.run 9 (.fresh (.default 0) 1 .empty) = .failed e t ∧
      e.cause = .staleScope "f" ∧ Event.entries t.events = 2 := by
    refine ⟨_, _, rfl, rfl, ?_⟩
    apply Session.events_of_timeline (P := fun es => Event.entries es = 2)
    · repeat apply Ghost.is_map
      exact rfl
    · rfl
  have hsession : (escapingCall.run 9 (.fresh (.default 0) 1 .empty)).session = t := by rw [hrun]; rfl
  obtain ⟨-, hleft, hdeclared, hhalted, -⟩ :=
    Program.run_stale_iff_escaped (.fresh (.default 0) 1 .empty) escapingCall 9
    (by rw [hsession, hcount]; decide)
  rw [hsession] at hleft hdeclared
  obtain ⟨unwinding, d, closure, new, hevents, -⟩ := hhalted e t hrun (by rw [hcause]; rfl)
  have hmem := hdeclared (.fresh 1 .empty (Registry.faithful_default 0)) unwinding d closure false _ hevents
  obtain ⟨since, before, hsplit⟩ := List.append_of_mem hmem
  rw [hsplit] at hevents
  exact ⟨e, t, unwinding, d, closure, since, before, hrun, hcause, hcount, hevents,
    (hleft unwinding d closure false since before hevents).1 rfl⟩

end BraceScript
