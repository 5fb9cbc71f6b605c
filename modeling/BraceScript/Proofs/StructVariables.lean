import BraceScript.Proofs.Code
import BraceScript.Proofs.Instances
import BraceScript.Proofs.Lasting

/-!
# Variables that hold instances

An assignment compares structs by their names only (`Value.Replaces.eq_struct`), and a struct can be shadowed by
another one with its name.  So a variable that holds an instance of `d` holds an instance of a struct called like `d`
as long as it lives, but that struct need not be `d`.  Every instance comes from a struct that has been declared
before and has the fields of its default instance (`Value.Stems`).  Therefore the variable can change to another
struct only if a second one with the same name has been declared (`Program.run_keeps_structs`).
-/

namespace BraceScript

/-! ### Where instances come from -/

namespace StructDecl

/-- The fields have the names that those of the default instance have. -/
def Names (d : StructDecl) (fields : List (String × Value)) : Prop :=
  ∀ name, name ∈ fields.map Prod.fst ↔ name ∈ (Eval.defaultFields d).map Prod.fst

variable {d : StructDecl} {fields : List (String × Value)} {name : String}

private theorem Names.setField (h : d.Names fields) (hname : name ∈ fields.map Prod.fst) (v : Value) :
    d.Names (Value.setField name v fields) := by
  intro n
  rw [Value.mem_names_setField, ← h n]
  constructor
  · rintro (rfl | hn)
    · exact hname
    · exact hn
  · exact .inr

/-- The fields that a struct literal may set are those of the default instance. -/
private theorem Takes.mem {f : String × Value} (h : d.Takes f) : f.1 ∈ (Eval.defaultFields d).map Prod.fst := by
  obtain ⟨p, w, hp, hstatic, -⟩ := h
  obtain ⟨hmem, hname⟩ := of_property? hp
  have hnil : Value.Sorted [] := .nil
  obtain ⟨-, hnames, -⟩ := foldl_default d.properties hnil
  exact (hnames f.1).2 (.inr ⟨p, hmem, hstatic, hname⟩)

end StructDecl

namespace Value

private theorem mem_itemParts {part : Value} {items : List Value} :
    part ∈ itemParts items ↔ ∃ v ∈ items, part ∈ v.parts := by
  induction items with
  | nil => simp [itemParts]
  | cons v items ih => simp [itemParts, ih]

private theorem mem_fieldParts {part : Value} {fields : List (String × Value)} :
    part ∈ fieldParts fields ↔ ∃ f ∈ fields, part ∈ f.2.parts := by
  induction fields with
  | nil => simp [fieldParts]
  | cons f fields ih =>
    obtain ⟨n, v⟩ := f
    rw [fieldParts, List.mem_append, ih]
    simp only [List.mem_cons, exists_eq_or_imp]

/-- A field can be read if it is there. -/
private theorem exists_field?_iff {name : String} {fields : List (String × Value)} :
    (∃ v, field? name fields = some v) ↔ name ∈ fields.map Prod.fst := by
  constructor
  · rintro ⟨v, hv⟩
    exact List.mem_map_of_mem (mem_of_field?_eq_some hv)
  · intro h
    induction fields with
    | nil => cases h
    | cons f fields ih =>
      obtain ⟨n, v⟩ := f
      rw [field?]
      split
      · exact ⟨v, rfl⟩
      · rename_i hne
        rcases List.mem_cons.1 h with heq | h
        · exact absurd heq.symm hne
        · exact ih h

/-- Every instance in the value is one of a struct in `D`, with the fields of such an instance. -/
def Stems (D : StructDecl → Prop) (v : Value) : Prop := ∀ d fields, struct d fields ∈ v.parts → D d ∧ d.Names fields

variable {D D' : StructDecl → Prop} {d : StructDecl} {fields : List (String × Value)} {v : Value}

private theorem Stems.mono (h : v.Stems D) (hD : ∀ d, D d → D' d) : v.Stems D' := fun d fields hmem =>
  ⟨hD d (h d fields hmem).1, (h d fields hmem).2⟩

private theorem IsAtom.stems (h : v.IsAtom) : v.Stems D := by
  intro d fields hmem
  cases v with
  | array | struct | function => exact h.elim
  | _ => simp [parts] at hmem

private theorem stems_function (f : FunctionDecl) (closure : ScopeId) : (function f closure).Stems D := by
  intro d fields hmem
  simp [parts] at hmem

private theorem stems_array {items : List Value} : (array items).Stems D ↔ ∀ v ∈ items, v.Stems D := by
  constructor
  · intro h v hv d fields hmem
    exact h d fields (by rw [parts]; exact List.mem_cons_of_mem _ (mem_itemParts.2 ⟨v, hv, hmem⟩))
  · intro h d fields hmem
    rw [parts, List.mem_cons] at hmem
    rcases hmem with heq | hmem
    · cases heq
    · obtain ⟨v, hv, hmem⟩ := mem_itemParts.1 hmem
      exact h v hv d fields hmem

private theorem stems_struct : (struct d fields).Stems D ↔ (D d ∧ d.Names fields) ∧ ∀ f ∈ fields, f.2.Stems D := by
  constructor
  · intro h
    refine ⟨h d fields (by rw [parts]; exact List.mem_cons_self), fun f hf e inner hmem => ?_⟩
    exact h e inner (by rw [parts]; exact List.mem_cons_of_mem _ (mem_fieldParts.2 ⟨f, hf, hmem⟩))
  · rintro ⟨hd, hall⟩ e inner hmem
    rw [parts, List.mem_cons] at hmem
    rcases hmem with heq | hmem
    · obtain ⟨rfl, rfl⟩ := struct.inj heq
      exact hd
    · obtain ⟨f, hf, hmem⟩ := mem_fieldParts.1 hmem
      exact hall f hf e inner hmem

private theorem deep_stems (D : StructDecl → Prop) : Deep (Stems D) := ⟨IsAtom.stems, stems_array⟩

private theorem stems_default (h : D d) : (struct d (Eval.defaultFields d)).Stems D := by
  refine stems_struct.2 ⟨⟨h, fun _ => .rfl⟩, fun f hf => ?_⟩
  have hnil : Sorted [] := .nil
  obtain ⟨-, -, hall⟩ := StructDecl.foldl_default d.properties hnil
  rcases hall f hf with hf | ⟨q, -, -, rfl⟩
  · cases hf
  · exact (deep_stems D).defaultFor q.type

private theorem Stems.setField {name : String} (h : (struct d fields).Stems D) (hname : name ∈ fields.map Prod.fst)
    (hv : v.Stems D) : (struct d (Value.setField name v fields)).Stems D := by
  obtain ⟨⟨hd, hnames⟩, hall⟩ := stems_struct.1 h
  refine stems_struct.2 ⟨⟨hd, hnames.setField hname v⟩, fun f hf => ?_⟩
  rcases mem_setField hf with heq | hf
  · rwa [heq]
  · exact hall f hf

private theorem Stems.build {values : List (String × Value)} (h : (struct d fields).Stems D)
    (hvalues : ∀ f ∈ values, f.2.Stems D ∧ d.Takes f) :
    (struct d (values.foldl (fun all (n, v) => Value.setField n v all) fields)).Stems D := by
  induction values generalizing fields with
  | nil => exact h
  | cons f values ih =>
    obtain ⟨hv, htakes⟩ := hvalues f (by simp)
    have hname : f.1 ∈ fields.map Prod.fst := ((stems_struct.1 h).1.2 f.1).2 htakes.mem
    exact ih (h.setField hname hv) fun g hg => hvalues g (by simp [hg])

private theorem Stems.field {name : String} (h : (struct d fields).Stems D) (hv : field? name fields = some v) :
    v.Stems D :=
  (stems_struct.1 h).2 _ (mem_of_field?_eq_some hv)

private theorem Stems.setProperty {op : Located AssignOp} {new object changed stored : Value} {span : Span}
    {path : List Ident} (hobject : object.Stems D) (hnew : new.Stems D)
    (h : setProperty op new span path object = .ok (changed, stored)) : changed.Stems D ∧ stored.Stems D := by
  refine setProperty_keeps Stems.field (fun hd _ hold hn => ?_) (fun hd hold hinner => ?_) hobject h
  · have hv := ((deep_stems D).newProperty hnew hn).1
    exact ⟨hd.setField (exists_field?_iff.1 ⟨_, hold⟩) hv, hv⟩
  · exact hd.setField (exists_field?_iff.1 ⟨_, hold⟩) hinner

/-! ### What assignments keep -/

/-- An instance is replaced by an instance of a struct with the same name. -/
theorem Replaces.eq_struct {w : Value} (h : (struct d fields).Replaces w) :
    ∃ d' fields', w = struct d' fields' ∧ d'.name.name = d.name.name := by
  rcases h with ⟨v, hv⟩ | ⟨op, v, span, path, stored, hv⟩
  · cases v with
    | struct e inner =>
      rw [retag] at hv
      split at hv
      · rename_i hname
        cases hv
        exact ⟨e, inner, rfl, hname.symm⟩
      · cases hv
    | _ => cases hv
  · obtain ⟨_, _, e, before, _, _, _, -, heq, -, -, rfl, -⟩ := setProperty_eq_ok hv
    obtain ⟨rfl, -⟩ := struct.inj heq
    exact ⟨d, _, rfl, rfl⟩

/-- By induction on the assignments. -/
private theorem eq_struct_of_replaced {w : Value} (h : Relation.ReflTransGen Replaces (struct d fields) w) :
    ∃ d' fields', w = struct d' fields' ∧ d'.name.name = d.name.name := by
  induction h with
  | refl => exact ⟨d, fields, rfl, rfl⟩
  | tail _ hstep ih =>
    obtain ⟨d₁, fields₁, rfl, hname₁⟩ := ih
    obtain ⟨d₂, fields₂, rfl, hname₂⟩ := hstep.eq_struct
    exact ⟨d₂, fields₂, rfl, hname₂.trans hname₁⟩

private theorem exists_readProperty_iff {name : Ident} :
    (∃ v, (struct d fields).readProperty name = .ok v) ↔ name.name ∈ fields.map Prod.fst := by
  rw [← exists_field?_iff]
  constructor
  · rintro ⟨v, hv⟩
    obtain ⟨e, inner, heq, hfield⟩ := readProperty_eq_ok hv
    obtain ⟨-, rfl⟩ := struct.inj heq
    exact ⟨v, hfield⟩
  · rintro ⟨v, hv⟩
    exact ⟨v, by rw [readProperty, hv]⟩

end Value

/-! ### Sessions -/

private theorem Scopes.Holds.later {s : Scopes} {past now : List Event}
    (h : s.Holds (Value.Stems (Event.Declares past))) (hpast : past <:+ now) :
    s.Holds (Value.Stems (Event.Declares now)) :=
  h.mono fun _ hv => hv.mono fun _ hd => hd.mono hpast

/-- What the built-in function makes of its arguments has no instances but theirs. -/
def Builtin.BuildsNothing (b : Builtin) : Prop := ∀ D, b.Keeps (Value.Stems D)

/-- In every state, the instances that variables hold come from structs declared up to then. -/
structure Session.Rooted (s : Session) : Prop where
  builtins : ∀ b ∈ s.builtins.entries, b.BuildsNothing
  now : s.scopes.Holds (Value.Stems (Event.Declares s.events))
  states : ∀ later scopes depth earlier, s.events = later ++ .state scopes depth :: earlier →
    scopes.Holds (Value.Stems (Event.Declares (.state scopes depth :: earlier)))

namespace Session.Rooted

variable {s : Session}

private theorem note (h : s.Rooted) {e : Event} (he : ∀ scopes depth, e ≠ .state scopes depth) :
    (s.note e).Rooted := by
  refine ⟨h.builtins, ?_, fun later scopes depth earlier heq => ?_⟩
  · rw [events_note]
    exact h.now.later (List.suffix_cons _ _)
  · rw [events_note] at heq
    obtain ⟨between, -, hrest⟩ := Event.split_of_ne (he scopes depth) heq
    exact h.states between scopes depth earlier hrest

private theorem moveTo (h : s.Rooted) {scopes : Scopes} (depth : Nat)
    (hscopes : scopes.Holds (Value.Stems (Event.Declares s.events))) : (s.moveTo scopes depth).Rooted := by
  refine ⟨h.builtins, ?_, fun later scopes' depth' earlier heq => ?_⟩
  · rw [events_moveTo]
    exact hscopes.later (List.suffix_cons _ _)
  · rw [events_moveTo] at heq
    cases later with
    | nil =>
      obtain ⟨⟨rfl, rfl⟩, rfl⟩ := List.cons.inj heq
      exact hscopes.later (List.suffix_cons _ _)
    | cons e between =>
      obtain ⟨-, hrest⟩ := List.cons.inj heq
      exact h.states between scopes' depth' earlier hrest

private theorem bind (h : s.Rooted) {scope : ScopeId} {here : Scope} {name : String} {new : Binding}
    (hget : s.scopes.get? scope = some here) (hnone : here.binding? name = none)
    (hv : new.value.Stems (Event.Declares s.events)) : (Eval.bound s scope name new).Rooted :=
  h.moveTo _ (h.now.bind hget hnone hv)

private theorem fresh {builtins : Registry} (h : ∀ b ∈ builtins.entries, b.BuildsNothing) (maxDepth : Nat)
    (output : Output) : (Session.fresh builtins maxDepth output).Rooted := by
  refine ⟨h, Scopes.holds_initial, fun later scopes depth earlier heq => ?_⟩
  rw [events_fresh] at heq
  cases later with
  | nil =>
    obtain ⟨⟨rfl, rfl⟩, rfl⟩ := List.cons.inj heq
    exact Scopes.holds_initial
  | cons e between => simp at heq

end Session.Rooted

/-! ### Runs -/

namespace Contract

/-- Instances come from structs that have been declared. -/
private def rooted : Contract where
  inv := Session.Rooted
  fault _ := Session.Rooted
  good es v := v.Stems (Event.Declares es)
  raw es _ v := v.Stems (Event.Declares es)
  literal _ := True

private theorem valueLaws_rooted : rooted.ValueLaws where
  stable hpast h := h.mono fun _ hd => hd.mono hpast
  ofLiteral := by
    intro now l _
    cases l <;> exact (Value.deep_stems _).atom trivial
  builtinName _ := (Value.deep_stems _).atom trivial
  character _ := (Value.deep_stems _).atom trivial
  defaultFor t := (Value.deep_stems _).defaultFor t
  position _ := (Value.deep_stems _).atom trivial
  array := Value.stems_array
  unary hv h := (Value.deep_stems _).unary hv h
  arith _ _ h := (Value.deep_stems _).atom (Value.isAtom_arith h)
  binary _ _ h := (Value.deep_stems _).binary h
  plain h := h
  conform hv h := (Value.deep_stems _).conform hv h
  field h hv := h.field hv
  build hd hvalues := hd.build hvalues
  setProperty hobject hnew h := hobject.setProperty hnew h
  code _ := ⟨fun _ _ _ => trivial, fun _ _ => trivial⟩
  declared _ _ := Value.stems_function _ _

private theorem stepLaws_rooted : rooted.StepLaws where
  toValueLaws := valueLaws_rooted
  bound h hb := h.now _ _ _ hb
  struct := by
    intro s d _ hd
    exact Value.stems_default ⟨s.scopes, s.depth, Session.history_iff.1 s.recorded, hd⟩
  builtin h hb hargs hcall := h.builtins _ (List.mem_of_find?_eq_some hb) _ _ _ _ _ hargs hcall
  output _ h := ⟨h.builtins, h.now, h.states⟩
  value h hv := ⟨h.note (by simp), hv.mono fun _ hd => hd.mono (List.suffix_cons _ _)⟩
  assign := by
    intro s scope owner name b w _ h _ _ _ _ hw
    have hnote : (s.note (.assigned s.scopes scope name)).Rooted := h.note (by simp)
    exact hnote.moveTo _ (hnote.now.set (hw.mono fun _ hd => hd.mono (s.suffix_note _)))
  declare _ h hget hnone hv := h.bind hget hnone hv
  introduce := by
    intro s scope here name t v isConstant _ h hget hnone hv _
    have hbound : (Eval.bound s scope name ⟨v, isConstant⟩).Rooted := h.bind hget hnone hv
    exact hbound.note (by simp)
  declareFunction _ h hget hnone _ _ := (h.bind hget hnone (Value.stems_function _ _)).note (by simp)
  declareStruct _ h _ _ := h.moveTo _ (h.now.declareStruct _)
  enter := by
    intro s parent hs _ h
    have hnote : (s.note (.entered (s.scopes.push parent).2)).Rooted := h.note (by simp)
    exact hnote.moveTo _ (hnote.now.push parent hs.nested.stored)
  leave := by
    intro s id _ _ h
    have hnote : (s.note (.leaving s.scopes id)).Rooted := h.note (by simp)
    exact hnote.moveTo _ hnote.now.dropLast
  deeper depth h := h.moveTo depth h.now

private theorem lawful_rooted : rooted.Lawful :=
  stepLaws_rooted.lawful (fun _ _ => .rfl) fun h _ _ => h.note (by simp)

end Contract

private theorem Session.ReachableBy.rooted {s : Session} (h : s.ReachableBy Builtin.BuildsNothing) : s.Rooted := by
  refine Contract.lawful_rooted.reachable (fun _ => ⟨fun _ _ _ => trivial, fun _ _ => trivial⟩) (fun _ _ h => h)
    (fun _ maxDepth output hall => .fresh hall maxDepth output) (fun s b hb hs => ⟨?_, hs.now, hs.states⟩) h
  intro c hc
  rcases Registry.mem_register hc with rfl | hc
  · exact hb
  · exact hs.builtins c hc

private theorem Program.run_rooted {s : Session} (hs : s.ReachableBy Builtin.BuildsNothing) (p : Program)
    (fuel : Nat) : (p.run fuel s).session.Rooted :=
  (Contract.lawful_rooted.run p (fun _ _ _ => trivial) fuel hs.reachable.sound hs.rooted).inv fun _ _ h => h

/-- A variable that holds an instance of `d` in some state of a run holds an instance of a struct with the name of
`d` in every later state, as long as its scope has not been left.  Unless another struct with this name has been
declared up to then, that struct is `d`, and the properties that could be read can be read. -/
theorem Program.run_keeps_structs {s : Session} (hs : s.ReachableBy Builtin.BuildsNothing) (p : Program) (fuel : Nat)
    {later since before : List Event} {scopes scopes' : Scopes} {depth depth' : Nat}
    (hevents : (p.run fuel s).session.events =
      later ++ .state scopes' depth' :: (since ++ .state scopes depth :: before))
    {id : ScopeId} (hleft : ¬ Event.Left since id) {name : String} {d : StructDecl} {fields : List (String × Value)}
    {isConstant : Bool} (hb : scopes.Binds id name ⟨.struct d fields, isConstant⟩) :
    ∃ d' fields', scopes'.Binds id name ⟨.struct d' fields', isConstant⟩ ∧ d'.name.name = d.name.name ∧
      ((∀ e, Event.Declares (.state scopes' depth' :: (since ++ .state scopes depth :: before)) e →
          e.name.name = d.name.name → e = d) →
        d' = d ∧ ∀ property, (∃ v, (Value.struct d fields).readProperty property = .ok v) →
          ∃ v, (Value.struct d' fields').readProperty property = .ok v) := by
  have hlasting := (run_lasting hs.reachable p fuel).states later scopes' depth' _ hevents
  obtain ⟨⟨value, isConstant'⟩, hb', hbecomes⟩ := hlasting since scopes depth before id name _ rfl hleft hb
  obtain ⟨d', fields', rfl, hname⟩ := Value.eq_struct_of_replaced hbecomes.value
  obtain rfl : isConstant' = isConstant := hbecomes.isConstant
  refine ⟨d', fields', hb', hname, fun honly => ?_⟩
  have hrooted := run_rooted hs p fuel
  -- both instances have the fields of the default instance of their struct
  obtain ⟨⟨hdeclared, hnames'⟩, -⟩ :=
    Value.stems_struct.1 (hrooted.states later scopes' depth' _ hevents id name _ hb')
  have hsplit : (p.run fuel s).session.events =
      (later ++ .state scopes' depth' :: since) ++ .state scopes depth :: before := by
    rw [hevents, List.append_assoc, List.cons_append]
  obtain ⟨⟨-, hnames⟩, -⟩ := Value.stems_struct.1 (hrooted.states _ scopes depth before hsplit id name _ hb)
  obtain rfl : d' = d := honly d' hdeclared hname
  refine ⟨rfl, fun property hread => ?_⟩
  rw [Value.exists_readProperty_iff] at hread ⊢
  exact (hnames' _).2 ((hnames _).1 hread)

/-- The struct `struct P { pub property: i8; }`. -/
private def pointWith (property : String) : StructDecl :=
  ⟨⟨"P", default⟩, [⟨⟨property, default⟩, .isPublic, false, false, .integer ⟨.w8, true⟩⟩], [], default⟩

/-- The expression `P { property: n }`. -/
private def buildPoint (property : String) (n : Int) : Expr :=
  .build ⟨"P", default⟩ [(⟨property, default⟩, .literal (.integer n .w8) default)] default

/-- The program `struct P { pub x: i8; } let p := P { x: 1 }; { … p = P { property: 2 }; }`. -/
private def reassignInBlock (inner : List Stmt) (property : String) : Program :=
  let p : Ident := ⟨"p", default⟩
  ⟨"m", [], [.struct (pointWith "x"), .declare ⟨p, false, none, some (buildPoint "x" 1), default⟩,
    .block ⟨inner ++ [.expression (.assign (.ident p) ⟨.set, default⟩ (buildPoint property 2) default) default],
    default⟩],
    default⟩

/-- If the block declares a struct `P` of its own, the variable outside changes to it. -/
example : ∃ v t fields, (reassignInBlock [.struct (pointWith "y")] "y").run 12 (.fresh .empty 1 .empty) = .done v t ∧
    t.scopes.Binds ⟨0, 0⟩ "p" ⟨.struct (pointWith "y") fields, false⟩ := ⟨_, _, _, rfl, _, rfl, rfl⟩

/-- A new instance of `P` is assigned in a block, and the variable outside holds an instance of the same struct. -/
theorem Program.run_keeps_structs_block :
    ∃ v t, (reassignInBlock [] "x").run 12 (.fresh .empty 1 .empty) = .done v t ∧
      (∃ scopes fields since before, t.events = .state t.scopes 0 :: (since ++ .state scopes 0 :: before) ∧
        ¬ Event.Left since ⟨0, 0⟩ ∧ scopes.Binds ⟨0, 0⟩ "p" ⟨.struct (pointWith "x") fields, false⟩) ∧
      ∃ fields, t.scopes.Binds ⟨0, 0⟩ "p" ⟨.struct (pointWith "x") fields, false⟩ ∧
        ∃ v, (Value.struct (pointWith "x") fields).readProperty ⟨"x", default⟩ = .ok v := by
  -- between the two states the block is entered and left, but not the root scope
  have hsplit : ∀ {t : Session} {block scopes : Scopes} {generation : UInt32} {e₁ e₂ e₃ e₄ e₅ e₆ e₇ : Event}
      {fields : List (String × Value)} {before : List Event},
      t.timeline.Is (.state t.scopes 0 :: .leaving block ⟨1, generation⟩ :: e₁ :: e₂ :: e₃ :: e₄ :: e₅ :: e₆ ::
        e₇ :: .state scopes 0 :: before) →
      (∀ scopes, .leaving scopes ⟨0, 0⟩ ∉ [e₁, e₂, e₃, e₄, e₅, e₆, e₇]) →
      scopes.Binds ⟨0, 0⟩ "p" ⟨.struct (pointWith "x") fields, false⟩ → "x" ∈ fields.map Prod.fst →
      ∃ scopes fields since before, t.events = .state t.scopes 0 :: (since ++ .state scopes 0 :: before) ∧
        ¬ Event.Left since ⟨0, 0⟩ ∧ scopes.Binds ⟨0, 0⟩ "p" ⟨.struct (pointWith "x") fields, false⟩ ∧
        "x" ∈ fields.map Prod.fst := by
    intro t block scopes generation e₁ e₂ e₃ e₄ e₅ e₆ e₇ fields before his hleft hb hx
    refine ⟨scopes, fields, .leaving block ⟨1, generation⟩ :: [e₁, e₂, e₃, e₄, e₅, e₆, e₇], before,
      (Ghost.is_iff.1 his).symm, ?_, hb, hx⟩
    rintro ⟨scopes', hmem⟩
    rcases List.mem_cons.1 hmem with heq | hmem
    · cases heq
    · exact hleft scopes' hmem
  obtain ⟨v, t, hrun, scopes, fields, since, before, hevents, hleft, hb, hx⟩ : ∃ v t,
      (reassignInBlock [] "x").run 12 (.fresh .empty 1 .empty) = .done v t ∧
      ∃ scopes fields since before, t.events = .state t.scopes 0 :: (since ++ .state scopes 0 :: before) ∧
        ¬ Event.Left since ⟨0, 0⟩ ∧ scopes.Binds ⟨0, 0⟩ "p" ⟨.struct (pointWith "x") fields, false⟩ ∧
        "x" ∈ fields.map Prod.fst := by
    refine ⟨_, _, rfl, ?_⟩
    apply hsplit
    · repeat apply Ghost.is_map
      exact rfl
    · simp
    · exact ⟨_, rfl, rfl⟩
    · exact List.mem_singleton_self _
  have hs : Session.ReachableBy Builtin.BuildsNothing (.fresh .empty 1 .empty) :=
    .fresh 1 .empty (by simp [Registry.empty])
  have hcoded := Program.run_coded_fresh .empty (by simp [Registry.empty]) 1 .empty (reassignInBlock [] "x") 12
  have hsession : ((reassignInBlock [] "x").run 12 (.fresh .empty 1 .empty)).session.events =
      [] ++ .state t.scopes 0 :: (since ++ .state scopes 0 :: before) := by
    rw [hrun]
    exact hevents
  obtain ⟨d', fields', hb', -, hsame⟩ := Program.run_keeps_structs hs (reassignInBlock [] "x") 12 hsession hleft hb
  obtain ⟨rfl, hreads⟩ := hsame fun e he _ => by
    have hmem := hcoded.structs e (by rw [hsession]; exact he)
    simpa [reassignInBlock, Stmt.listParts, Stmt.parts, Block.parts] using hmem
  refine ⟨v, t, hrun, ⟨scopes, fields, since, before, hevents, hleft, hb⟩, fields', hb', ?_⟩
  exact hreads ⟨"x", default⟩ (Value.exists_readProperty_iff.2 hx)

end BraceScript
