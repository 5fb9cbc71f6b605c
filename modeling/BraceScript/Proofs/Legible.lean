import BraceScript.Proofs.Grammar
import BraceScript.Proofs.Lexing

/-!
# Legible expressions

Which expressions can be written down and read again?  `Legible` asks for names that are names, literals that have a
spelling, an assignable target for each assignment and so on; it rules out floats, whose text is rounded.  Every part
of an expression that is derived from tokens of some text is legible if it holds no float (`Derives.legible`).

`Expr.parts` lists the parts of an expression and `Expr.erase` forgets where everything stands.
-/

namespace BraceScript

namespace Expr

/-! ### Parts -/

mutual

/-- The expression and all expressions in it. -/
def parts : Expr → List Expr
  | ident id => [ident id]
  | literal value span => [literal value span]
  | unary op operand side span => unary op operand side span :: operand.parts
  | binary op left right span => binary op left right span :: (left.parts ++ right.parts)
  | assign target op value span => assign target op value span :: (target.parts ++ value.parts)
  | call callee arguments span => call callee arguments span :: listParts arguments
  | build name fields span => build name fields span :: fieldParts fields
  | property object name span => property object name span :: object.parts
  | array elements size span => array elements size span :: listParts elements
  | index base position span => index base position span :: position.parts

/-- The parts of all expressions of a list. -/
def listParts : List Expr → List Expr
  | [] => []
  | e :: es => e.parts ++ listParts es

/-- The parts of the values of all fields. -/
def fieldParts : List (Ident × Expr) → List Expr
  | [] => []
  | (_, e) :: fields => e.parts ++ fieldParts fields

end

theorem mem_parts_self (e : Expr) : e ∈ e.parts := by
  cases e <;> simp [parts]

theorem mem_listParts {d : Expr} {es : List Expr} : d ∈ listParts es ↔ ∃ e ∈ es, d ∈ e.parts := by
  induction es with
  | nil => simp [listParts]
  | cons e es ih => simp [listParts, ih]

theorem mem_fieldParts {d : Expr} {fields : List (Ident × Expr)} :
    d ∈ fieldParts fields ↔ ∃ f ∈ fields, d ∈ f.2.parts := by
  induction fields with
  | nil => simp [fieldParts]
  | cons f fields ih => simp [fieldParts, ih]

def isFloat : Expr → Bool
  | literal (.float ..) _ => true
  | _ => false

/-- Whether some part of the expression is a float literal. -/
def holdsFloat (e : Expr) : Bool := e.parts.any isFloat

/-- A part of an expression without floats holds none. -/
private theorem holdsFloat_eq_false_iff {e : Expr} : e.holdsFloat = false ↔ ∀ d ∈ e.parts, d.isFloat = false := by
  simp [holdsFloat]

/-! ### Forgetting spans -/

/-- The identifier at no particular place. -/
def eraseIdent (id : Ident) : Ident := ⟨id.name, default⟩

mutual

/-- The expression with all its spans replaced by one and the same. -/
def erase : Expr → Expr
  | ident id => ident (eraseIdent id)
  | literal value _ => literal value default
  | unary op operand side _ => unary ⟨op.value, default⟩ operand.erase side default
  | binary op left right _ => binary ⟨op.value, default⟩ left.erase right.erase default
  | assign target op value _ => assign target.erase ⟨op.value, default⟩ value.erase default
  | call callee arguments _ => call (eraseIdent callee) (eraseList arguments) default
  | build name fields _ => build (eraseIdent name) (eraseFields fields) default
  | property object name _ => property object.erase (eraseIdent name) default
  | array elements size _ => array (eraseList elements) size default
  | index base position _ => index (eraseIdent base) position.erase default

def eraseList : List Expr → List Expr
  | [] => []
  | e :: es => e.erase :: eraseList es

def eraseFields : List (Ident × Expr) → List (Ident × Expr)
  | [] => []
  | (name, e) :: fields => (eraseIdent name, e.erase) :: eraseFields fields

end

theorem eraseList_eq (es : List Expr) : eraseList es = es.map erase := by
  induction es with
  | nil => rfl
  | cons e es ih => simp [eraseList, ih]

theorem isAssignable_erase (e : Expr) : e.erase.isAssignable = e.isAssignable := by
  cases e <;> rfl

end Expr

/-! ### Legibility -/

/-- A literal that has an exact spelling. -/
inductive Literal.Legible : Literal → Prop where
  | integer {n : Nat} (hmax : n ≤ 170141183460469231731687303715884105727) : Legible (.integer n (.narrowest n))
  | string {value : String} (h : '"' ∉ value.toList) : Legible (.string value)
  | character {value : Char} (h : value ≠ '\'') : Legible (.character value)
  | boolean (value : Bool) : Legible (.boolean value)
  | null : Legible .null

/-- An expression without floats that some text spells. -/
inductive Legible : Expr → Prop where
  | ident {id : Ident} (h : IsName id.name) : Legible (.ident id)
  | literal {value : Literal} {span : Span} (h : value.Legible) : Legible (.literal value span)
  | before {op : Located UnaryOp} {operand : Expr} {span : Span} (h : Legible operand) :
      Legible (.unary op operand .before span)
  | after {op : Located UnaryOp} {id : Ident} {span : Span} (hop : op.value = .increment ∨ op.value = .decrement)
      (h : IsName id.name) : Legible (.unary op (.ident id) .after span)
  | binary {op : Located BinaryOp} {left right : Expr} {span : Span} (h₁ : Legible left) (h₂ : Legible right) :
      Legible (.binary op left right span)
  | assign {target : Expr} {op : Located AssignOp} {value : Expr} {span : Span} (ht : target.isAssignable = true)
      (h₁ : Legible target) (h₂ : Legible value) : Legible (.assign target op value span)
  | call {callee : Ident} {arguments : List Expr} {span : Span} (h : IsName callee.name)
      (hall : ∀ a ∈ arguments, Legible a) : Legible (.call callee arguments span)
  | build {name : Ident} {fields : List (Ident × Expr)} {span : Span} (h : IsName name.name) (hsome : fields ≠ [])
      (hdistinct : (fields.map (·.1.name)).Nodup) (hnames : ∀ f ∈ fields, IsName f.1.name)
      (hall : ∀ f ∈ fields, Legible f.2) : Legible (.build name fields span)
  | property {object : Expr} {name : Ident} {span : Span} (h : Legible object) (hname : IsName name.name) :
      Legible (.property object name span)
  | array {elements : List Expr} {span : Span} (hall : ∀ a ∈ elements, Legible a) :
      Legible (.array elements elements.length span)
  | index {base : Ident} {position : Expr} {span : Span} (h : IsName base.name) (hposition : Legible position) :
      Legible (.index base position span)

private theorem Token.Denotes.legible {token : Token} {value : Literal} (h : token.Denotes value) (hv : token.Valid)
    (span : Span) (hfloat : (Expr.literal value span).isFloat = false) : value.Legible := by
  unfold Token.Valid at hv
  cases h with
  | integer _ _ _ hmax => exact .integer hmax
  | float => cases hfloat
  | string hk =>
    rw [hk] at hv
    exact .string hv
  | character hk =>
    rw [hk] at hv
    obtain ⟨c, htext, hc⟩ := hv
    rw [htext]
    exact .character hc
  | isTrue | isFalse => exact .boolean _
  | null => exact .null

private theorem Token.Valid.isName {token : Token} (h : token.Valid) (hk : token.kind = .ident) :
    IsName token.text := by
  unfold Token.Valid at h
  rwa [hk] at h

/-- Every one of the expressions that holds no float is legible. -/
def AllLegible (es : List Expr) : Prop := ∀ e ∈ es, e.holdsFloat = false → Legible e

namespace AllLegible

variable {e e₁ e₂ : Expr} {rest rest' : List Expr}

theorem nil : AllLegible [] := nofun

theorem append (h : AllLegible rest) (h' : AllLegible rest') : AllLegible (rest ++ rest') :=
  List.forall_mem_append.2 ⟨h, h'⟩

private theorem legible (h : AllLegible e.parts) (hfloat : ∀ d ∈ e.parts, d.isFloat = false) : Legible e :=
  h e e.mem_parts_self (Expr.holdsFloat_eq_false_iff.2 hfloat)

/-- It is enough to look at the expression itself and at the parts of its operands. -/
private theorem of_parts (hparts : e.parts = e :: rest) (hrest : AllLegible rest)
    (hself : (∀ d ∈ rest, d.isFloat = false) → Legible e) : AllLegible e.parts := by
  intro d hd hfloat
  rw [hparts] at hd
  rcases List.mem_cons.1 hd with rfl | hd
  · rw [Expr.holdsFloat_eq_false_iff, hparts] at hfloat
    exact hself fun d hd => hfloat d (List.mem_cons_of_mem _ hd)
  · exact hrest d hd hfloat

private theorem of_one (hparts : e.parts = e :: e₁.parts) (h₁ : AllLegible e₁.parts)
    (hself : Legible e₁ → Legible e) : AllLegible e.parts :=
  of_parts hparts h₁ fun hfloat => hself (h₁.legible hfloat)

private theorem of_two (hparts : e.parts = e :: (e₁.parts ++ e₂.parts)) (h₁ : AllLegible e₁.parts)
    (h₂ : AllLegible e₂.parts) (hself : Legible e₁ → Legible e₂ → Legible e) : AllLegible e.parts := by
  refine of_parts hparts (h₁.append h₂) fun hfloat => ?_
  rw [List.forall_mem_append] at hfloat
  exact hself (h₁.legible hfloat.1) (h₂.legible hfloat.2)

private theorem of_list {es : List Expr} (hparts : e.parts = e :: Expr.listParts es)
    (h : ∀ a ∈ es, AllLegible a.parts) (hself : (∀ a ∈ es, Legible a) → Legible e) : AllLegible e.parts := by
  refine of_parts hparts (fun d hd hfloat => ?_) fun hfloat => hself fun a ha => ?_
  · obtain ⟨a, ha, hd⟩ := Expr.mem_listParts.1 hd
    exact h a ha d hd hfloat
  · exact (h a ha).legible fun d hd => hfloat d (Expr.mem_listParts.2 ⟨a, ha, hd⟩)

private theorem of_fields {fields : List (Ident × Expr)} (hparts : e.parts = e :: Expr.fieldParts fields)
    (h : ∀ f ∈ fields, AllLegible f.2.parts) (hself : (∀ f ∈ fields, Legible f.2) → Legible e) :
    AllLegible e.parts := by
  refine of_parts hparts (fun d hd hfloat => ?_) fun hfloat => hself fun f hf => ?_
  · obtain ⟨f, hf, hd⟩ := Expr.mem_fieldParts.1 hd
    exact h f hf d hd hfloat
  · exact (h f hf).legible fun d hd => hfloat d (Expr.mem_fieldParts.2 ⟨f, hf, hd⟩)

end AllLegible

/-- The tokens of an item are among the tokens of the list. -/
theorem Listed.mem {items : List (List Token)} {tokens item : List Token} (h : Listed items tokens)
    (hitem : item ∈ items) : ∀ token ∈ item, token ∈ tokens := by
  induction h with
  | nil => cases hitem
  | last first =>
    obtain rfl := List.mem_singleton.1 hitem
    exact fun token ht => ht
  | cons first _ _ ih =>
    intro token ht
    rcases List.mem_cons.1 hitem with rfl | hitem
    · exact List.mem_append_left _ ht
    · exact List.mem_append_right _ (List.mem_cons_of_mem _ (ih hitem token ht))

/-- In an expression of valid tokens every part without floats is legible. -/
theorem Derives.legible {l : Level} {t : List Token} {e : Expr} (h : Derives l t e) (hv : ∀ token ∈ t, token.Valid) :
    AllLegible e.parts := by
  induction h with
  | inner _ _ ih => exact ih hv
  | assign _ ht _ _ ih₁ ih₂ =>
    simp only [List.forall_mem_append, List.forall_mem_cons] at hv
    exact .of_two rfl (ih₁ hv.1) (ih₂ hv.2.2) (.assign ht)
  | binary _ _ _ _ _ ih₁ ih₂ =>
    simp only [List.forall_mem_append, List.forall_mem_cons] at hv
    exact .of_two rfl (ih₁ hv.1) (ih₂ hv.2.2) .binary
  | before _ _ ih => exact .of_one rfl (ih (List.forall_mem_cons.1 hv).2) .before
  | property _ _ hname ih =>
    simp only [List.forall_mem_append, List.forall_mem_cons] at hv
    exact .of_one rfl (ih hv.1) (.property · (hv.2.2.1.isName hname))
  | after _ hop _ ih =>
    simp only [List.forall_mem_append] at hv
    refine .of_one rfl (ih hv.1) fun h => ?_
    cases h with
    | ident h => exact .after hop h
  | call _ _ hlist _ _ ih ihitems =>
    simp only [List.forall_mem_append, List.forall_mem_cons] at hv
    refine .of_list rfl (fun e he => ?_) fun hall => ?_
    · obtain ⟨a, ha, rfl⟩ := List.mem_map.1 he
      exact ihitems a ha fun token ht => hv.1.2.2 token (hlist.mem (List.mem_map_of_mem ha) token ht)
    · cases (ih hv.1.1).legible (by simp [Expr.parts, Expr.isFloat]) with
      | ident h => exact .call h hall
  | index _ _ _ _ ih ihposition =>
    simp only [List.forall_mem_append, List.forall_mem_cons] at hv
    refine .of_one rfl (ihposition hv.1.2.2) fun hposition => ?_
    cases (ih hv.1.1).legible (by simp [Expr.parts, Expr.isFloat]) with
    | ident h => exact .index h hposition
  | literal h =>
    intro d hd hfloat
    obtain rfl := List.mem_singleton.1 hd
    have hnone := Expr.holdsFloat_eq_false_iff.1 hfloat _ (Expr.mem_parts_self _)
    exact .literal (h.legible (hv _ (by simp)) _ hnone)
  | name hk =>
    intro d hd _
    obtain rfl := List.mem_singleton.1 hd
    exact .ident ((hv _ (by simp)).isName hk)
  | paren _ _ _ ih =>
    simp only [List.forall_mem_append, List.forall_mem_cons] at hv
    exact ih hv.1.2
  | array _ hlist _ _ ihitems =>
    simp only [List.forall_mem_append, List.forall_mem_cons] at hv
    refine .of_list rfl (fun e he => ?_) fun hall => ?_
    · obtain ⟨a, ha, rfl⟩ := List.mem_map.1 he
      exact ihitems a ha fun token ht => hv.1.2 token (hlist.mem (List.mem_map_of_mem ha) token ht)
    · rw [← List.length_map]
      exact .array hall
  | @build tokens name opening closing fields hname _ hlist hsome hdistinct hkinds _ _ ihvalues =>
    simp only [List.forall_mem_append, List.forall_mem_cons] at hv
    have hfield : ∀ f ∈ fields, ∀ token ∈ f.tokens, token.Valid := fun f hf token ht =>
      hv.1.2.2 token (hlist.mem (List.mem_map_of_mem hf) token ht)
    refine .of_fields rfl (fun g hg => ?_) fun hall => ?_
    · obtain ⟨f, hf, rfl⟩ := List.mem_map.1 hg
      exact ihvalues f hf fun token ht => hfield f hf token (by simp [FieldItem.tokens, ht])
    · refine .build (hv.1.1.isName hname) (by simpa using hsome) (by rw [List.map_map]; exact hdistinct)
        (fun g hg => ?_) hall
      obtain ⟨f, hf, rfl⟩ := List.mem_map.1 hg
      exact (hfield f hf f.name (by simp [FieldItem.tokens])).isName (hkinds f hf).1

end BraceScript
