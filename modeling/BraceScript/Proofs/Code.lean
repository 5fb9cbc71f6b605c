import BraceScript.Proofs.Escape
import BraceScript.Proofs.Steady

/-!
# Where code comes from

What a run executes, calls and declares stands in the text of the program, or in code that was there before:
functions are values, and values last.  `Session.Coded S` says that the functions that variables hold and that have
been called, and the structs that have been declared, are among the statements `S`.  If parts of statements in `S`
are in `S` (`Stmt.Closed`), then a program made of statements in `S` keeps this (`Program.run_coded`).
-/

namespace BraceScript

/-! ### Parts of parts -/

private theorem Stmt.parts_of_mem {st whole : Stmt} {inner : List Stmt} (hwhole : whole.parts = whole :: inner)
    (h : st ∈ whole.parts) (hinner : st ∈ inner → st.parts ⊆ inner) : st.parts ⊆ whole.parts := by
  rw [hwhole] at h
  rcases List.mem_cons.1 h with rfl | h
  · exact List.Subset.refl _
  · rw [hwhole]
    exact List.Subset.trans (hinner h) (List.subset_cons_self _ _)

mutual

private theorem Block.parts_trans {st : Stmt} : ∀ b : Block, st ∈ b.parts → st.parts ⊆ b.parts
  | ⟨statements, _⟩, h => by
    rw [Block.parts] at h ⊢
    exact Stmt.listParts_trans statements h

private theorem FunctionDecl.parts_trans {st : Stmt} : ∀ d : FunctionDecl, st ∈ d.parts → st.parts ⊆ d.parts
  | ⟨_, _, _, body, _⟩, h => by
    rw [FunctionDecl.parts] at h ⊢
    exact Block.parts_trans body h

private theorem IfStmt.parts_trans {st : Stmt} : ∀ i : IfStmt, st ∈ i.parts → st.parts ⊆ i.parts
  | ⟨_, consequent, alternate, _⟩, h => by
    rw [IfStmt.parts] at h ⊢
    rcases List.mem_append.1 h with h | h
    · exact List.Subset.trans (Block.parts_trans consequent h) (List.subset_append_left _ _)
    · exact List.Subset.trans (Alternate.parts_trans alternate h) (List.subset_append_right _ _)

private theorem Alternate.parts_trans {st : Stmt} : ∀ a : Alternate, st ∈ a.parts → st.parts ⊆ a.parts
  | .nothing, h => by
    rw [Alternate.parts] at h
    cases h
  | .elseIf next, h => by
    rw [Alternate.parts] at h ⊢
    exact IfStmt.parts_trans next h
  | .otherwise body, h => by
    rw [Alternate.parts] at h ⊢
    exact Block.parts_trans body h

private theorem Stmt.parts_trans {st : Stmt} : ∀ whole : Stmt, st ∈ whole.parts → st.parts ⊆ whole.parts
  | .block body, h => Stmt.parts_of_mem rfl h (Block.parts_trans body)
  | .function d, h => Stmt.parts_of_mem rfl h (FunctionDecl.parts_trans d)
  | .branch s, h => Stmt.parts_of_mem rfl h (IfStmt.parts_trans s)
  | .whileLoop _ body _, h => Stmt.parts_of_mem rfl h (Block.parts_trans body)
  | .forLoop _ _ _ _ body _, h => Stmt.parts_of_mem rfl h (Block.parts_trans body)
  | .foreach _ _ _ body _, h => Stmt.parts_of_mem rfl h (Block.parts_trans body)
  | .expression .., h | .declare _, h | .ret .., h | .struct _, h | .imports _, h =>
    Stmt.parts_of_mem rfl h (by simp)

theorem Stmt.listParts_trans {st : Stmt} : ∀ ss : List Stmt, st ∈ Stmt.listParts ss → st.parts ⊆ Stmt.listParts ss
  | [], h => by cases h
  | s :: ss, h => by
    rw [Stmt.listParts] at h ⊢
    rcases List.mem_append.1 h with h | h
    · exact List.Subset.trans (Stmt.parts_trans s h) (List.subset_append_left _ _)
    · exact List.Subset.trans (Stmt.listParts_trans ss h) (List.subset_append_right _ _)

end

/-- With a statement in `S`, all its parts are in `S`. -/
def Stmt.Closed (S : Stmt → Prop) : Prop := ∀ st, S st → ∀ part ∈ st.parts, S part

private theorem Stmt.closed_listParts (ss : List Stmt) : Closed (· ∈ listParts ss) := fun _ hst _ hpart =>
  listParts_trans ss hst hpart

/-! ### Values and events -/

/-- The declarations of the functions in the value are in `S`. -/
def Value.Coded (S : Stmt → Prop) : Value → Prop := Value.All (IsKnown fun d _ => S (.function d))

private theorem Value.Coded.mono {S S' : Stmt → Prop} {v : Value} (h : v.Coded S) (hS : ∀ st, S st → S' st) :
    v.Coded S' := by
  refine Value.All.mono (fun w hw => ?_) v h
  cases w with
  | function d closure => exact hS _ hw
  | _ => exact trivial

/-- What the built-in function yields has no functions but those of its arguments. -/
def Builtin.CodesNothing (b : Builtin) : Prop := ∀ S, b.Keeps (Value.Coded S)

/-- In one of the states, a scope declares the struct. -/
def Event.Declares (es : List Event) (d : StructDecl) : Prop :=
  ∃ scopes depth, .state scopes depth ∈ es ∧ scopes.Declares d

theorem Event.Declares.mono {past now : List Event} {d : StructDecl} (h : Event.Declares past d)
    (hpast : past <:+ now) : Event.Declares now d := by
  obtain ⟨scopes, depth, hmem, hd⟩ := h
  exact ⟨scopes, depth, hpast.subset hmem, hd⟩

/-! ### Sessions -/

/-- The functions that variables hold, those that have been called and the structs that have been declared are in
`S`. -/
structure Session.Coded (S : Stmt → Prop) (s : Session) : Prop where
  builtins : ∀ b ∈ s.builtins.entries, b.CodesNothing
  bound : s.scopes.Holds (Value.Coded S)
  structs : ∀ d, Event.Declares s.events d → S (.struct d)
  called : ∀ d closure alive, .called d closure alive ∈ s.events → S (.function d)

namespace Session.Coded

variable {S S' : Stmt → Prop} {s : Session}

theorem mono (h : s.Coded S) (hS : ∀ st, S st → S' st) : s.Coded S' where
  builtins := h.builtins
  bound := h.bound.mono fun _ hv => hv.mono hS
  structs d hd := hS _ (h.structs d hd)
  called d closure alive hmem := hS _ (h.called d closure alive hmem)

private theorem declares (h : s.Coded S) {d : StructDecl} (hd : s.scopes.Declares d) : S (.struct d) :=
  h.structs d ⟨s.scopes, s.depth, history_iff.1 s.recorded, hd⟩

private theorem note (h : s.Coded S) {e : Event} (hstate : ∀ scopes depth, e ≠ .state scopes depth)
    (hcalled : ∀ d closure alive, e = .called d closure alive → S (.function d)) : (s.note e).Coded S := by
  refine ⟨h.builtins, h.bound, ?_, ?_⟩
  · rintro d ⟨scopes, depth, hmem, hd⟩
    rw [events_note] at hmem
    rcases List.mem_cons.1 hmem with heq | hmem
    · exact absurd heq.symm (hstate scopes depth)
    · exact h.structs d ⟨scopes, depth, hmem, hd⟩
  · intro d closure alive hmem
    rw [events_note] at hmem
    rcases List.mem_cons.1 hmem with heq | hmem
    · exact hcalled d closure alive heq.symm
    · exact h.called d closure alive hmem

private theorem moveTo (h : s.Coded S) {scopes : Scopes} (depth : Nat) (hbound : scopes.Holds (Value.Coded S))
    (hstructs : ∀ d, scopes.Declares d → S (.struct d)) : (s.moveTo scopes depth).Coded S := by
  refine ⟨h.builtins, hbound, ?_, ?_⟩
  · rintro d ⟨scopes', depth', hmem, hd⟩
    rw [events_moveTo] at hmem
    rcases List.mem_cons.1 hmem with heq | hmem
    · obtain ⟨rfl, -⟩ := Event.state.inj heq
      exact hstructs d hd
    · exact h.structs d ⟨scopes', depth', hmem, hd⟩
  · intro d closure alive hmem
    rw [events_moveTo] at hmem
    rcases List.mem_cons.1 hmem with heq | hmem
    · cases heq
    · exact h.called d closure alive hmem

private theorem bind (h : s.Coded S) {scope : ScopeId} {here : Scope} {name : String} {new : Binding}
    (hget : s.scopes.get? scope = some here) (hnone : here.binding? name = none) (hv : new.value.Coded S) :
    (Eval.bound s scope name new).Coded S :=
  h.moveTo _ (h.bound.bind hget hnone hv) fun _ hd => h.declares (hd.of_modify fun _ => rfl)

theorem fresh {builtins : Registry} (h : ∀ b ∈ builtins.entries, b.CodesNothing) (maxDepth : Nat) (output : Output) :
    (Session.fresh builtins maxDepth output).Coded S := by
  refine ⟨h, Scopes.holds_initial, ?_, ?_⟩
  · rintro d ⟨scopes, depth, hmem, hd⟩
    rw [events_fresh] at hmem
    obtain ⟨rfl, -⟩ := Event.state.inj (List.mem_singleton.1 hmem)
    exact absurd hd Scopes.not_declares_initial
  · intro d closure alive hmem
    rw [events_fresh] at hmem
    cases List.mem_singleton.1 hmem

end Session.Coded

/-! ### Runs -/

namespace Contract

variable {S : Stmt → Prop}

/-- All code is in `S`. -/
def coded (S : Stmt → Prop) : Contract where
  inv := Session.Coded S
  fault _ := Session.Coded S
  good _ := Value.Coded S
  raw _ _ := Value.Coded S
  literal _ := True
  stmt := S

private theorem valueLaws_coded (hS : Stmt.Closed S) : (coded S).ValueLaws := by
  refine .of_known (fun _ _ => .rfl) (fun _ h => h) (fun h => h) (fun {now d closure} h => ?_) fun h _ => h
  refine ⟨fun _ _ _ => trivial, fun st hst => hS _ h st ?_⟩
  rw [Stmt.parts]
  exact List.mem_cons_of_mem _ hst

private theorem stepLaws_coded (hS : Stmt.Closed S) : (coded S).StepLaws where
  toValueLaws := valueLaws_coded hS
  bound h hb := h.bound _ _ _ hb
  struct _ _ := (Value.closed_isKnown _).all_default _
  builtin h hb hargs hcall := h.builtins _ (List.mem_of_find?_eq_some hb) _ _ _ _ _ hargs hcall
  output _ h := ⟨h.builtins, h.bound, h.structs, h.called⟩
  value h hv := ⟨h.note (by simp) (by simp), hv⟩
  assign := by
    intro s scope owner name b w _ h _ _ _ _ hw
    have hnote : (s.note (.assigned s.scopes scope name)).Coded S := h.note (by simp) (by simp)
    exact hnote.moveTo _ (h.bound.set hw) fun _ hd => h.declares (hd.of_modify fun _ => rfl)
  declare _ h hget hnone hv := h.bind hget hnone hv
  introduce := by
    intro s scope here name t v isConstant _ h hget hnone hv _
    have hbound : (Eval.bound s scope name ⟨v, isConstant⟩).Coded S := h.bind hget hnone hv
    exact hbound.note (by simp) (by simp)
  declareFunction := by
    intro s scope here d _ h hget hnone hd _
    have hbound : (Eval.bound s scope d.name.name ⟨.function d scope, true⟩).Coded S := h.bind hget hnone hd
    exact hbound.note (by simp) (by simp)
  declareStruct := by
    intro s scope here d _ h _ hd
    refine h.moveTo _ (h.bound.declareStruct _) fun d' hd' => ?_
    rcases hd'.of_declareStruct with rfl | hd'
    · exact hd
    · exact h.declares hd'
  enter := by
    intro s parent hs _ h
    have hnote : (s.note (.entered (s.scopes.push parent).2)).Coded S := h.note (by simp) (by simp)
    exact hnote.moveTo _ (hnote.bound.push parent hs.nested.stored) fun _ hd =>
      h.declares (hd.of_push hs.nested.stored)
  leave := by
    intro s id _ _ h
    have hnote : (s.note (.leaving s.scopes id)).Coded S := h.note (by simp) (by simp)
    exact hnote.moveTo _ hnote.bound.dropLast fun _ hd => h.declares hd.of_dropLast
  deeper depth h := h.moveTo depth h.bound fun _ hd => h.declares hd

private theorem lawful_coded (hS : Stmt.Closed S) : (coded S).Lawful := by
  refine (stepLaws_coded hS).lawful (fun _ _ => .rfl) fun h hgood _ => h.note (by simp) ?_
  rintro d closure alive ⟨⟩
  exact hgood

end Contract

/-- A program in `S` that is run where all code is in `S` leaves it so. -/
theorem Program.run_coded {S : Stmt → Prop} (hS : Stmt.Closed S) {s : Session} (hs : s.Sound) (h : s.Coded S)
    (p : Program) (hp : ∀ st ∈ Stmt.listParts p.contents, S st) (fuel : Nat) : (p.run fuel s).session.Coded S :=
  ((Contract.lawful_coded hS).run p (fun _ _ _ => trivial) fuel hs h hp).inv fun _ _ h => h

/-- In a fresh session there is no code but that of the program. -/
theorem Program.run_coded_fresh (builtins : Registry) (h : ∀ b ∈ builtins.entries, b.CodesNothing) (maxDepth : Nat)
    (output : Output) (p : Program) (fuel : Nat) :
    (p.run fuel (.fresh builtins maxDepth output)).session.Coded (· ∈ Stmt.listParts p.contents) :=
  run_coded (Stmt.closed_listParts _) (Session.Reachable.fresh builtins maxDepth output).sound
    (.fresh h maxDepth output) p
    (fun _ hst => hst) fuel

end BraceScript
