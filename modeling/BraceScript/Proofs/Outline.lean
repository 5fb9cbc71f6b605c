import BraceScript.Proofs.Coverage
import BraceScript.Proofs.StatementSoundness

/-!
# Spans of syntax trees

The outline of a tree keeps the spans of its parts and forgets the rest.  The parts of a node are listed in rows, so
that the parts of one row follow each other in the text: the operands of an operator with the operator between them,
the arguments of a call, the statements of a block.

Spans are made bottom-up by `Span.merge`, which looks at two of the parts only.  What carries the induction over the
grammar is `Fits t os`: if the tokens `t` stand one behind the other then so do the outlines `os`, and each of them
is bounded by tokens of `t` and is nested.  The result is `Program.spans_of_parse`: in a program that was read from a
text all spans are exact and parts lie within the whole, disjoint and in the order of the text.
-/

namespace BraceScript

/-! ### Outlines -/

namespace Span

/-- The first span is part of the second one. -/
def Within (a b : Span) : Prop := b.start.offset ≤ a.start.offset ∧ a.stop.offset ≤ b.stop.offset

/-- The first span ends before the second one starts. -/
def Precedes (a b : Span) : Prop := a.stop.offset ≤ b.start.offset

end Span

/-- The span of a node with the outlines of its parts, in rows. -/
inductive Outline where
  | node (span : Span) (rows : List (List Outline))

namespace Outline

def span : Outline → Span
  | node span _ => span

/-- The outline of something without parts. -/
def leaf (span : Span) : Outline := node span []

@[simp] theorem span_node (span : Span) (rows : List (List Outline)) : (node span rows).span = span := rfl

@[simp] theorem span_leaf (span : Span) : (leaf span).span = span := rfl

/-- Every span of the outline has the property `S`. -/
inductive All (S : Span → Prop) : Outline → Prop where
  | node {span : Span} {rows : List (List Outline)} (hspan : S span) (hrows : ∀ row ∈ rows, ∀ o ∈ row, All S o) :
      All S (node span rows)

/-- At every node, the parts lie within the span of the node, and those of a row follow each other. -/
inductive Nested : Outline → Prop where
  | node {span : Span} {rows : List (List Outline)} (hwithin : ∀ row ∈ rows, ∀ o ∈ row, o.span.Within span)
      (hordered : ∀ row ∈ rows, row.Pairwise fun a b => a.span.Precedes b.span)
      (hrows : ∀ row ∈ rows, ∀ o ∈ row, Nested o) : Nested (node span rows)

variable {S S' : Span → Prop} {o : Outline}

theorem All.self (h : All S o) : S o.span := by
  cases h with
  | node hspan => exact hspan

theorem All.mono (h : All S o) (hS : ∀ s, S s → S' s) : All S' o := by
  induction h with
  | node hspan _ ih => exact .node (hS _ hspan) ih

private theorem all_leaf {span : Span} (h : S span) : All S (leaf span) := .node h (by simp)

private theorem nested_leaf (span : Span) : Nested (leaf span) := .node (by simp) (by simp) (by simp)

end Outline

namespace Expr

mutual

/-- The outline of an expression.  Names, literals and operators are leaves. -/
def outline : Expr → Outline
  | ident id => .leaf id.span
  | literal _ span => .leaf span
  | unary op operand .before span => .node span [[.leaf op.span, operand.outline]]
  | unary op operand .after span => .node span [[operand.outline, .leaf op.span]]
  | binary op left right span => .node span [[left.outline, .leaf op.span, right.outline]]
  | assign target op value span => .node span [[target.outline, .leaf op.span, value.outline]]
  | call callee arguments span => .node span [.leaf callee.span :: listOutlines arguments]
  | build name fields span => .node span [.leaf name.span :: fieldOutlines fields]
  | property object name span => .node span [[object.outline, .leaf name.span]]
  | array elements _ span => .node span [listOutlines elements]
  | index base position span => .node span [[.leaf base.span, position.outline]]

def listOutlines : List Expr → List Outline
  | [] => []
  | e :: es => e.outline :: listOutlines es

/-- The names of fields with their values. -/
def fieldOutlines : List (Ident × Expr) → List Outline
  | [] => []
  | (name, e) :: fields => .leaf name.span :: e.outline :: fieldOutlines fields

end

@[simp] theorem span_outline (e : Expr) : e.outline.span = e.span := by
  cases e with
  | unary op operand side span => cases side <;> simp [outline, Expr.span]
  | _ => simp [outline, Expr.span]

theorem listOutlines_eq (es : List Expr) : listOutlines es = es.map outline := by
  induction es with
  | nil => rfl
  | cons e es ih => simp [listOutlines, ih]

theorem fieldOutlines_eq (fields : List (Ident × Expr)) :
    fieldOutlines fields = fields.flatMap fun f => [.leaf f.1.span, f.2.outline] := by
  induction fields with
  | nil => rfl
  | cons f fields ih => simp [fieldOutlines, ih]

end Expr

/-- The names of parameters. -/
def Param.outlines (params : List Param) : List Outline := params.map (.leaf ·.name.span)

def MethodDecl.outlines (m : MethodDecl) : List Outline := .leaf m.name.span :: Param.outlines m.params

/-- The outline of a struct.  Properties and methods may be mixed in the text. -/
def StructDecl.outline (d : StructDecl) : Outline :=
  .node d.span [[.leaf d.name.span], d.properties.map (.leaf ·.name.span), d.methods.flatMap MethodDecl.outlines]

def VariableDecl.outline (d : VariableDecl) : Outline :=
  .node d.span [.leaf d.name.span :: (d.value.map Expr.outline).toList]

def Import.outline (i : Import) : Outline := .node i.span [i.names.map (.leaf ·.span) ++ [.leaf i.path.span]]

mutual

def Block.outline : Block → Outline
  | ⟨statements, span⟩ => .node span [Stmt.listOutlines statements]

def FunctionDecl.outline : FunctionDecl → Outline
  | ⟨name, params, _, body, span⟩ => .node span [.leaf name.span :: (Param.outlines params ++ [body.outline])]

def IfStmt.outline : IfStmt → Outline
  | ⟨condition, consequent, alternate, span⟩ =>
    .node span [condition.outline :: consequent.outline :: alternate.outlines]

def Alternate.outlines : Alternate → List Outline
  | .nothing => []
  | .elseIf next => [next.outline]
  | .otherwise body => [body.outline]

/-- The outline of a statement. -/
def Stmt.outline : Stmt → Outline
  | .expression e span => .node span [[e.outline]]
  | .block body => body.outline
  | .declare d => d.outline
  | .function d => d.outline
  | .ret value span => .node span [(value.map Expr.outline).toList]
  | .branch s => s.outline
  | .struct d => d.outline
  | .whileLoop condition body span => .node span [[condition.outline, body.outline]]
  | .forLoop counter init condition post body span =>
    .node span [[.leaf counter.span, init.outline, condition.outline, post.outline, body.outline]]
  | .foreach value position iterable body span =>
    .node span [.leaf value.span :: ((position.map (.leaf ·.span)).toList ++ [iterable.outline, body.outline])]
  | .imports i => i.outline

def Stmt.listOutlines : List Stmt → List Outline
  | [] => []
  | s :: ss => s.outline :: Stmt.listOutlines ss

end

theorem Stmt.listOutlines_eq (ss : List Stmt) : listOutlines ss = ss.map outline := by
  induction ss with
  | nil => rfl
  | cons s ss ih => simp [listOutlines, ih]

@[simp] private theorem Block.span_outline (b : Block) : b.outline.span = b.span := by
  cases b
  simp [outline]

@[simp] private theorem IfStmt.span_outline (s : IfStmt) : s.outline.span = s.span := by
  cases s
  simp [outline]

/-- The outline of a program.  Imports and other statements may be mixed in the text. -/
def Program.outline (p : Program) : Outline :=
  .node p.span [p.imports.map Import.outline, p.contents.map Stmt.outline]

/-! ### Outlines over tokens -/

namespace Token

/-- The tokens stand one behind the other. -/
structure Ordered (t : List Token) : Prop where
  apart : t.Pairwise fun a b => a.span.Precedes b.span
  forward : ∀ token ∈ t, token.span.start.offset ≤ token.span.stop.offset

private theorem ordered_append {t u : List Token} :
    Ordered (t ++ u) ↔ Ordered t ∧ Ordered u ∧ ∀ a ∈ t, ∀ b ∈ u, a.span.Precedes b.span := by
  constructor
  · rintro ⟨hapart, hforward⟩
    obtain ⟨ht, hu, hcross⟩ := List.pairwise_append.1 hapart
    obtain ⟨hft, hfu⟩ := List.forall_mem_append.1 hforward
    exact ⟨⟨ht, hft⟩, ⟨hu, hfu⟩, hcross⟩
  · rintro ⟨ht, hu, hcross⟩
    exact ⟨List.pairwise_append.2 ⟨ht.apart, hu.apart, hcross⟩, List.forall_mem_append.2 ⟨ht.forward, hu.forward⟩⟩

/-- The span goes from the start of one of the tokens to the end of one of them. -/
structure Bounds (t : List Token) (s : Span) : Prop where
  start : ∃ token ∈ t, s.start = token.span.start
  stop : ∃ token ∈ t, s.stop = token.span.stop
  forward : s.start.offset ≤ s.stop.offset

variable {t u : List Token} {s s' : Span}

theorem Bounds.mono (h : Bounds t s) (hsub : t ⊆ u) : Bounds u s := by
  obtain ⟨⟨first, hfirst, hstart⟩, ⟨last, hlast, hstop⟩, hforward⟩ := h
  exact ⟨⟨first, hsub hfirst, hstart⟩, ⟨last, hsub hlast, hstop⟩, hforward⟩

theorem Ordered.bounds (h : Ordered t) {token : Token} (hmem : token ∈ t) : Bounds t token.span :=
  ⟨⟨token, hmem, rfl⟩, ⟨token, hmem, rfl⟩, h.forward token hmem⟩

/-- Spans over tokens that follow each other do so as well. -/
private theorem Bounds.precedes (h : Bounds t s) (h' : Bounds u s')
    (hcross : ∀ a ∈ t, ∀ b ∈ u, a.span.Precedes b.span) : s.Precedes s' := by
  obtain ⟨last, hlast, hstop⟩ := h.stop
  obtain ⟨first, hfirst, hstart⟩ := h'.start
  rw [Span.Precedes, hstop, hstart]
  exact hcross last hlast first hfirst

/-- Whichever way the offsets lie, the ends of a merged span are ends of its two parts. -/
theorem Bounds.merge (h : Bounds t s) (h' : Bounds t s') : Bounds t (s.merge s') where
  start := by
    by_cases hlt : s.start.offset < s'.start.offset
    · simpa [Span.merge, hlt] using h.start
    · simpa [Span.merge, hlt] using h'.start
  stop := by
    by_cases hgt : s.stop.offset > s'.stop.offset
    · simpa [Span.merge, hgt] using h.stop
    · simpa [Span.merge, hgt] using h'.stop
  forward := by
    have hs := h.forward
    have hs' := h'.forward
    unfold Span.merge
    split <;> split <;> simp only <;> omega

end Token

private theorem Span.within_merge {a b s : Span} (hstart : a.start.offset ≤ s.start.offset)
    (hstop : s.stop.offset ≤ b.stop.offset) : s.Within (a.merge b) := by
  unfold Within merge
  constructor
  · change (if _ then _ else _ : Position).offset ≤ _
    split <;> omega
  · change _ ≤ (if _ then _ else _ : Position).offset
    split <;> omega

/-- If the tokens stand one behind the other then so do the outlines, and each of them is bounded by the tokens at
all its nodes and is nested. -/
private def Fits (t : List Token) (os : List Outline) : Prop :=
  Token.Ordered t → (∀ o ∈ os, o.All (Token.Bounds t) ∧ o.Nested) ∧ os.Pairwise fun a b => a.span.Precedes b.span

namespace Fits

variable {t u : List Token} {os os' : List Outline}

private theorem nil : Fits t [] := fun _ => ⟨by simp, .nil⟩

private theorem append (h : Fits t os) (h' : Fits u os') : Fits (t ++ u) (os ++ os') := by
  intro hordered
  obtain ⟨ht, hu, hcross⟩ := Token.ordered_append.1 hordered
  obtain ⟨hall, hapart⟩ := h ht
  obtain ⟨hall', hapart'⟩ := h' hu
  refine ⟨List.forall_mem_append.2 ⟨fun o ho => ?_, fun o ho => ?_⟩, List.pairwise_append.2 ⟨hapart, hapart', ?_⟩⟩
  · exact ⟨(hall o ho).1.mono fun s hs => hs.mono (List.subset_append_left t u), (hall o ho).2⟩
  · exact ⟨(hall' o ho).1.mono fun s hs => hs.mono (List.subset_append_right t u), (hall' o ho).2⟩
  · exact fun a ha b hb => (hall a ha).1.self.precedes (hall' b hb).1.self hcross

/-- Tokens in front of which the tree keeps nothing. -/
private theorem preceded (t : List Token) (h : Fits u os) : Fits (t ++ u) os := append nil h

private theorem followed (h : Fits t os) (u : List Token) : Fits (t ++ u) os := by
  simpa using h.append (nil (t := u))

private theorem skip (token : Token) (h : Fits t os) : Fits (token :: t) os := h.preceded [token]

/-- A token that is a leaf of its own. -/
private theorem leaf (token : Token) : Fits [token] [.leaf token.span] := by
  intro hordered
  refine ⟨List.forall_mem_singleton.2 ⟨?_, Outline.nested_leaf _⟩, List.pairwise_singleton _ _⟩
  exact Outline.all_leaf (hordered.bounds (by simp))

private theorem token (token : Token) (h : Fits t os) : Fits (token :: t) (.leaf token.span :: os) :=
  (leaf token).append h

/-- A node whose span reaches from the first to the last of some outlines.  Its rows list some of them. -/
private theorem node {first last : Outline} {rows : List (List Outline)} {span : Span} (os : List Outline)
    (h : Fits t (first :: (os ++ [last]))) (hrows : ∀ row ∈ rows, row.Sublist (first :: (os ++ [last])))
    (hspan : span = first.span.merge last.span) : Fits t [.node span rows] := by
  intro hordered
  subst hspan
  obtain ⟨hall, hapart⟩ := h hordered
  have hbounds : ∀ o ∈ first :: (os ++ [last]), Token.Bounds t o.span := fun o ho => (hall o ho).1.self
  have hwithin : ∀ o ∈ first :: (os ++ [last]), o.span.Within (first.span.merge last.span) := by
    intro o ho
    have hfirst := (hbounds first (by simp)).forward
    have hlast := (hbounds last (by simp)).forward
    have hself := (hbounds o ho).forward
    apply Span.within_merge
    · rcases List.mem_cons.1 ho with rfl | ho
      · exact Nat.le_refl _
      · exact Nat.le_trans hfirst ((List.pairwise_cons.1 hapart).1 o ho)
    · rw [← List.cons_append] at ho hapart
      rcases List.mem_append.1 ho with ho | ho
      · exact Nat.le_trans ((List.pairwise_append.1 hapart).2.2 o ho last (by simp)) hlast
      · obtain rfl := List.mem_singleton.1 ho
        exact Nat.le_refl _
  have hmem : ∀ row ∈ rows, ∀ o ∈ row, o ∈ first :: (os ++ [last]) := fun row hrow o ho => (hrows row hrow).subset ho
  refine ⟨List.forall_mem_singleton.2 ⟨.node ?_ ?_, .node ?_ ?_ ?_⟩, List.pairwise_singleton _ _⟩
  · exact (hbounds first (by simp)).merge (hbounds last (by simp))
  · exact fun row hrow o ho => (hall o (hmem row hrow o ho)).1
  · exact fun row hrow o ho => hwithin o (hmem row hrow o ho)
  · exact fun row hrow => hapart.sublist (hrows row hrow)
  · exact fun row hrow o ho => (hall o (hmem row hrow o ho)).2

/-- A node between two tokens. -/
private theorem enclosed (opening closing : Token) (h : Fits t os) :
    Fits (opening :: (t ++ [closing])) [.node (opening.span.merge closing.span) [os]] := by
  refine node os (.token opening (h.append (leaf closing))) (List.forall_mem_singleton.2 ?_) rfl
  exact (List.sublist_append_left os _).cons _

/-- A node that begins with a token and ends with the last of its parts. -/
private theorem headed {last : Outline} {span : Span} (opening : Token) (os : List Outline)
    (h : Fits t (os ++ [last])) (hspan : span = opening.span.merge last.span) :
    Fits (opening :: t) [.node span [os ++ [last]]] :=
  node os (.token opening h) (List.forall_mem_singleton.2 (List.sublist_cons_self _ _)) hspan

/-- The items of a list one after another. -/
private theorem listed {α : Type} {items : List α} {f : α → List Token} {g : α → List Outline}
    (h : Listed (items.map f) t) (hitems : ∀ i ∈ items, Fits (f i) (g i)) : Fits t (items.flatMap g) := by
  generalize hlists : items.map f = lists at h
  induction h generalizing items with
  | nil =>
    obtain rfl := List.map_eq_nil_iff.1 hlists
    exact nil
  | last item =>
    obtain ⟨i, rfl, rfl⟩ := List.map_eq_singleton_iff.1 hlists
    simpa using hitems i (by simp)
  | cons item hcomma _ ih =>
    obtain ⟨i, rest, rfl, rfl, hrest⟩ := List.map_eq_cons_iff.1 hlists
    have htail := ih (fun j hj => hitems j (by simp [hj])) hrest
    exact (hitems i (by simp)).append (htail.skip _)

private theorem listed_map {α : Type} {items : List α} {f : α → List Token} {g : α → Outline}
    (h : Listed (items.map f) t) (hitems : ∀ i ∈ items, Fits (f i) [g i]) : Fits t (items.map g) := by
  rw [List.map_eq_flatMap]
  exact listed h hitems

/-- The expressions of a list. -/
private theorem items {items : List ListItem} (h : Listed (items.map (·.tokens)) t)
    (hitems : ∀ a ∈ items, Fits a.tokens [a.tree.outline]) : Fits t (Expr.listOutlines (items.map (·.tree))) := by
  rw [Expr.listOutlines_eq, List.map_map]
  exact listed_map h hitems

end Fits

/-! ### Phrases of the grammar -/

/-- The outline of an expression of the grammar fits its tokens. -/
private theorem Derives.fits {l : Level} {t : List Token} {e : Expr} (h : Derives l t e) : Fits t [e.outline] := by
  induction h with
  | inner _ _ ih => exact ih
  | @assign target value mark op e₁ e₂ _ _ _ _ ih₁ ih₂ =>
    rw [Expr.outline]
    exact .node [.leaf mark.span] (ih₁.append (.token mark ih₂)) (by simp) (by simp)
  | @binary _ _ left right mark op e₁ e₂ _ _ _ _ _ ih₁ ih₂ =>
    rw [Expr.outline]
    exact .node [.leaf mark.span] (ih₁.append (.token mark ih₂)) (by simp) (by simp)
  | @before operand mark op e _ _ ih =>
    rw [Expr.outline]
    exact .node [] (.token mark ih) (by simp) (by simp)
  | @property object dot name e _ _ _ ih =>
    rw [Expr.outline]
    exact .node [] (ih.append (.skip dot (.leaf name))) (by simp [Token.toIdent]) (by simp)
  | @call callee tokens opening closing id arguments _ _ hlist _ _ ih ihitems =>
    rw [Expr.outline]
    refine .node _ ((ih.append ((Fits.items hlist ihitems).skip opening)).append (.leaf closing)) ?_ ?_
    · simp [Expr.outline]
    · simp [Expr.span]
  | @after operand mark op id _ _ _ ih =>
    rw [Expr.outline]
    exact .node [] (ih.append (.leaf mark)) (by simp) (by simp [Expr.span])
  | @index base position opening closing id e _ _ _ _ ih ihposition =>
    rw [Expr.outline]
    refine .node [e.outline] ((ih.append (ihposition.skip opening)).append (.leaf closing)) ?_ ?_
    · simp [Expr.outline]
    · simp [Expr.span]
  | @literal token value _ =>
    rw [Expr.outline]
    exact .leaf token
  | @name token _ =>
    rw [Expr.outline]
    exact .leaf token
  | paren _ _ _ ih => exact (ih.skip _).followed _
  | @array tokens opening closing elements _ hlist _ _ ihitems =>
    rw [Expr.outline]
    exact .enclosed opening closing (.items hlist ihitems)
  | @build tokens name opening closing fields _ _ hlist _ _ _ _ _ ihvalues =>
    have hfield : ∀ f ∈ fields, Fits f.tokens [.leaf f.name.span, f.tree.outline] :=
      fun f hf => .token f.name (.skip f.colon (ihvalues f hf))
    have hitems := Fits.listed hlist hfield
    rw [Expr.outline, Expr.fieldOutlines_eq]
    refine .node _ (((hitems.skip opening).token name).append (.leaf closing)) ?_ rfl
    simp [List.flatMap_map, FieldItem.field, Token.toIdent]

private theorem Param.Forms.fits {t : List Token} {params : List Param} (h : Param.Forms t params) :
    Fits t (Param.outlines params) := by
  cases h with
  | @mk opening closing tokens items _ hlist _ _ _ =>
    rw [Param.outlines, List.map_map]
    exact ((Fits.listed_map hlist fun i _ => .token i.name .nil).followed [closing]).skip opening

namespace Member

/-- The names of a member and of its parameters. -/
private def outlines : Member → List Outline
  | property p => [.leaf p.name.span]
  | method m => m.outlines

private theorem Forms.fits {t : List Token} {m : Member} (h : Forms t m) : Fits t m.outlines := by
  cases h with
  | property => exact .skip _ (.preceded _ (.preceded _ (.token _ .nil)))
  | method _ _ _ _ hparams _ _ =>
    exact .skip _ (.preceded _ (.preceded _ (.token _ (hparams.fits.followed _))))

private theorem fits_flatMap {items : List (List Token × Member)} (h : ∀ i ∈ items, Forms i.1 i.2) :
    Fits (items.flatMap (·.1)) ((items.map (·.2)).flatMap outlines) := by
  induction items with
  | nil => exact .nil
  | cons i items ih => exact (h i (by simp)).fits.append (ih fun j hj => h j (by simp [hj]))

private theorem properties_sublist (ms : List Member) :
    ((ms.filterMap property?).map fun p => Outline.leaf p.name.span).Sublist (ms.flatMap outlines) := by
  induction ms with
  | nil => exact .slnil
  | cons m ms ih =>
    cases m with
    | property p => exact ih.cons_cons _
    | method m => exact ih.trans (List.sublist_append_right _ _)

private theorem methods_sublist (ms : List Member) :
    ((ms.filterMap method?).flatMap MethodDecl.outlines).Sublist (ms.flatMap outlines) := by
  induction ms with
  | nil => exact .slnil
  | cons m ms ih =>
    cases m with
    | property p => exact ih.cons _
    | method m => exact (List.Sublist.refl _).append ih

end Member

private theorem StructDecl.Forms.fits {t : List Token} {d : StructDecl} (h : StructDecl.Forms t d) :
    Fits t [d.outline] := by
  cases h with
  | @mk opening name brace closing items _ _ _ hitems _ _ =>
    have hmembers := Member.fits_flatMap hitems
    have hall := ((hmembers.skip brace).token name).append (Fits.leaf closing)
    refine .node _ (hall.token opening) ?_ rfl
    have hproperties := Member.properties_sublist (items.map (·.2))
    have hmethods := Member.methods_sublist (items.map (·.2))
    refine List.forall_mem_cons.2 ⟨?_, List.forall_mem_cons.2 ⟨?_, List.forall_mem_singleton.2 ?_⟩⟩
    · simp [Token.toIdent]
    · exact ((hproperties.cons _).trans (List.sublist_append_left _ _)).cons _
    · exact ((hmethods.cons _).trans (List.sublist_append_left _ _)).cons _

private theorem Import.FormsNames.fits {t : List Token} {names : List Ident} (h : Import.FormsNames t names) :
    Fits t (names.map (.leaf ·.span)) := by
  cases h with
  | nothing => exact .nil
  | @names opening closing word tokens names _ hlist _ _ _ =>
    rw [List.map_map]
    exact ((Fits.listed_map hlist fun name _ => .leaf name).followed [closing, word]).skip opening

private theorem Import.Forms.fits {t : List Token} {i : Import} (h : Import.Forms t i) : Fits t [i.outline] := by
  cases h with
  | @mk opening path semicolon t names _ hnames _ _ =>
    have hall := Fits.enclosed opening semicolon (hnames.fits.append (.leaf path))
    rwa [List.append_assoc] at hall

private theorem VariableDecl.FormsContent.fits {t : List Token} {type : Option Ty} {value : Option Expr}
    (h : FormsContent t type value) : Fits t (value.map Expr.outline).toList := by
  cases h with
  | typed => exact .nil
  | full _ _ _ hvalue => exact .skip _ (.preceded _ (.skip _ hvalue.fits))
  | inferred _ hvalue => exact .skip _ hvalue.fits

private theorem VariableDecl.Forms.fits {t : List Token} {d : VariableDecl} (h : VariableDecl.Forms t d) :
    Fits t [d.outline] := by
  cases h with
  | @mk opening name semicolon t type value _ _ hcontent _ _ =>
    exact .enclosed opening semicolon (hcontent.fits.token name)

/-- The outlines of the parts of a phrase that follow each other. -/
private def Phrase.outlines : Phrase → List Outline
  | statement _ s => [s.outline]
  | sequence ss => Stmt.listOutlines ss
  | block b => [b.outline]
  | conditional s => [s.outline]
  | alternate a => a.outlines

/-- The outlines of a phrase of the grammar fit its tokens. -/
private theorem Forms.fits {t : List Token} {p : Phrase} (h : Forms t p) : Fits t p.outlines := by
  induction h with
  | @expression _ semicolon t e h _ => exact .node [] (h.fits.append (.leaf semicolon)) (by simp) (by simp)
  | declare h => exact h.fits
  | struct h => exact h.fits
  | imports h => exact h.fits
  | @leave _ opening semicolon _ _ => exact .enclosed opening semicolon (t := []) .nil
  | @answer _ opening semicolon t e _ h _ => exact .enclosed opening semicolon h.fits
  | inBlock _ ih => exact ih
  | branch _ _ ih => exact ih
  | @function _ opening name t u v params type b _ _ hparams _ _ ih =>
    have hall := Fits.token name (hparams.fits.append (ih.preceded u))
    exact .headed opening (.leaf name.span :: Param.outlines params) hall (by simp)
  | @whileLoop _ opening t u e b _ hcondition _ ih =>
    exact .headed opening [e.outline] (hcondition.fits.append ih) (by simp)
  | @forLoop _ opening name mark semicolon₁ semicolon₂ t₁ t₂ t₃ u e₁ e₂ e₃ b _ _ _ hinit _ hcondition _ hpost _ ih =>
    have hparts :=
      hinit.fits.append (.skip semicolon₁ (hcondition.fits.append (.skip semicolon₂ (hpost.fits.append ih))))
    exact .headed opening [.leaf name.span, e₁.outline, e₂.outline, e₃.outline] (.token name (.skip mark hparts))
      (by simp)
  | @foreach _ opening name word t u v position e b _ _ hposition _ hiterable _ ih =>
    have hloop := (hiterable.fits.append ih).skip word
    cases hposition with
    | nothing => exact .headed opening [.leaf name.span, e.outline] (.token name hloop) (by simp)
    | @name comma position _ _ =>
      exact .headed opening [.leaf name.span, .leaf position.span, e.outline]
        (.token name (.skip comma (.token position hloop))) (by simp)
  | nil => exact .nil
  | cons _ _ ih ih' => exact ih.append ih'
  | @block opening closing t ss _ _ _ ih => exact .enclosed opening closing ih
  | @conditional opening t u v e b a _ hcondition _ _ ih ih' =>
    have hall := hcondition.fits.append (ih.append ih')
    cases a with
    | nothing => exact .headed opening [e.outline] hall (by simp [Alternate.spanAfter])
    | elseIf next => exact .headed opening [e.outline, b.outline] hall (by simp [Alternate.spanAfter])
    | otherwise body => exact .headed opening [e.outline, b.outline] hall (by simp [Alternate.spanAfter])
  | nothing => exact .nil
  | elseIf _ _ ih => exact ih
  | otherwise _ _ ih => exact ih.skip _

/-! ### Programs -/

namespace Program

/-- The outline of a statement; the declared name of the module is not kept. -/
def Entry.outlines : Entry → List Outline
  | module _ => []
  | statement s => [s.outline]

private theorem Forms.fits {t : List Token} {entries : List Entry} (h : Forms t entries) :
    Fits t (entries.flatMap Entry.outlines) := by
  induction h with
  | nil => exact .nil
  | module _ _ _ _ _ ih => exact .skip _ (.skip _ (.skip _ ih))
  | statement h _ ih => exact h.fits.append ih

private theorem Entry.imports_sublist (entries : List Entry) :
    ((entries.filterMap Entry.import?).map Import.outline).Sublist (entries.flatMap Entry.outlines) := by
  induction entries with
  | nil => exact .slnil
  | cons entry entries ih =>
    cases entry with
    | module => exact ih
    | statement s =>
      cases s with
      | imports i => exact ih.cons_cons _
      | _ => exact ih.cons _

private theorem Entry.contents_sublist (entries : List Entry) :
    ((entries.filterMap Entry.content?).map Stmt.outline).Sublist (entries.flatMap Entry.outlines) := by
  induction entries with
  | nil => exact .slnil
  | cons entry entries ih =>
    cases entry with
    | module => exact ih
    | statement s =>
      cases s with
      | imports i => exact ih.cons _
      | _ => exact ih.cons_cons _

end Program

/-! ### Spans in a text -/

/-- The span is that of a stretch of the source, from the start of one of its tokens to the end of one. -/
structure Span.Exact (source : String) (tokens : List Token) (s : Span) : Prop where
  start : ∃ token ∈ tokens, s.start = token.span.start
  stop : ∃ token ∈ tokens, s.stop = token.span.stop
  forward : s.start.offset ≤ s.stop.offset
  inside : s.stop.offset ≤ source.utf8ByteSize
  places : ∃ before text after, source.toList = before ++ text ++ after ∧
    s = ⟨.behind before, .behind (before ++ text)⟩

namespace Position

/-- A place in the text `cs`. -/
def Occurs (cs : List Char) (p : Position) : Prop := ∃ before, before <+: cs ∧ p = behind before

/-- Of two places in a text, the one with the smaller offset is in front. -/
theorem prefix_of_offset_le {cs before before' : List Char} (h : before <+: cs) (h' : before' <+: cs)
    (hle : (behind before).offset ≤ (behind before').offset) : before <+: before' := by
  rcases List.prefix_or_prefix_of_prefix h h' with h | ⟨more, rfl⟩
  · exact h
  · cases more with
    | nil => simp
    | cons c more =>
      have hpos := offset_behind_pos (List.cons_ne_nil c more)
      rw [offset_behind_append] at hle
      omega

theorem Occurs.offset_le {cs : List Char} {p : Position} (h : p.Occurs cs) : p.offset ≤ (behind cs).offset := by
  obtain ⟨before, ⟨after, rfl⟩, rfl⟩ := h
  rw [offset_behind_append]
  exact Nat.le_add_right _ _

end Position

theorem Token.Bounds.exact {source : String} {tokens : List Token} {s : Span} (h : Bounds tokens s)
    (hplaces : ∀ token ∈ tokens, token.span.start.Occurs source.toList ∧ token.span.stop.Occurs source.toList) :
    s.Exact source tokens := by
  obtain ⟨first, hfirst, hstart⟩ := h.start
  obtain ⟨last, hlast, hstop⟩ := h.stop
  have hend : s.stop.Occurs source.toList := hstop ▸ (hplaces last hlast).2
  obtain ⟨before, hbefore, hp⟩ : s.start.Occurs source.toList := hstart ▸ (hplaces first hfirst).1
  obtain ⟨before', ⟨after, hafter⟩, hp'⟩ := id hend
  have hforward := h.forward
  rw [hp, hp'] at hforward
  obtain ⟨text, rfl⟩ := Position.prefix_of_offset_le hbefore ⟨after, hafter⟩ hforward
  refine ⟨h.start, h.stop, h.forward, ?_, before, text, after, hafter.symm, by rw [← hp, ← hp']⟩
  have hsize : (Position.behind source.toList).offset = source.utf8ByteSize := by
    rw [Position.behind, String.ofList_toList]
  exact hsize ▸ hend.offset_le

/-- The tokens of a text stand one behind the other and between places of the text, and only the last one is
empty. -/
theorem Token.ordered_of_tokenize {source : String} {tokens : List Token} (h : tokenize source = .ok tokens) :
    (∃ token ∈ tokens, token.kind = .eof) ∧ Ordered tokens ∧
      (∀ token ∈ tokens, token.span.start.Occurs source.toList ∧ token.span.stop.Occurs source.toList) ∧
      ∀ token ∈ tokens, token.kind ≠ .eof → token.span.start.offset < token.span.stop.offset := by
  obtain ⟨front, before, rest, htext, hcover, hscan, hfault⟩ := scanFrom_cover [] source.toList []
  rcases hfault with rfl | ⟨e, hfault, -⟩
  · rw [List.append_nil] at htext
    subst htext
    have htokens : tokens = front ++ [eofAt (.behind source.toList)] := by
      have hscan : scan source = (front ++ [eofAt (.behind source.toList)], none) := by simpa [scan] using hscan
      simpa [tokenize, hscan] using h.symm
    have hlaid := hcover.laid
    have hfront : ∀ token ∈ front, token.span.start.Occurs source.toList ∧ token.span.stop.Occurs source.toList := by
      intro token htoken
      obtain ⟨pre, post, hsource, hspan⟩ := hlaid.placed token htoken
      rw [hspan]
      exact ⟨⟨pre, ⟨_, by rw [hsource, List.append_assoc]⟩, rfl⟩, ⟨_, ⟨post, hsource.symm⟩, rfl⟩⟩
    have heof : Position.Occurs source.toList (.behind source.toList) := ⟨_, List.prefix_refl _, rfl⟩
    refine ⟨⟨eofAt (.behind source.toList), by simp [htokens], rfl⟩, ?_, ?_, ?_⟩
    · rw [htokens, ordered_append]
      refine ⟨⟨hlaid.ordered, fun token htoken => Nat.le_of_lt (hlaid.nonempty token htoken)⟩,
        ⟨by simp, by simp [eofAt]⟩, ?_⟩
      intro token htoken eof heof
      obtain rfl := List.mem_singleton.1 heof
      exact (hfront token htoken).2.offset_le
    · rw [htokens]
      exact List.forall_mem_append.2 ⟨hfront, List.forall_mem_singleton.2 ⟨heof, heof⟩⟩
    · rw [htokens]
      exact List.forall_mem_append.2 ⟨fun token htoken _ => hlaid.nonempty token htoken,
        List.forall_mem_singleton.2 fun hkind => absurd rfl hkind⟩
  · have hscan : scan source = (front, some e) := by simpa [scan] using hfault
    simp [tokenize, hscan] at h

/-! ### Programs in a text -/

namespace Program

/-- The span from the first to the last token covers everything between tokens. -/
private theorem within_of_bounds {front : List Token} {eof : Token} {s : Span} (hordered : Token.Ordered front)
    (h : Token.Bounds front s) : s.Within ((front.head?.getD eof).span.merge (front.getLast?.getD eof).span) := by
  obtain ⟨first, hfirst, hstart⟩ := h.start
  obtain ⟨last, hlast, hstop⟩ := h.stop
  apply Span.within_merge
  · cases front with
    | nil => cases hfirst
    | cons token front =>
      rw [hstart]
      rcases List.mem_cons.1 hfirst with rfl | hfirst
      · exact Nat.le_refl _
      · exact Nat.le_trans (hordered.forward token (by simp)) ((List.pairwise_cons.1 hordered.apart).1 first hfirst)
  · rw [hstop]
    rcases List.eq_nil_or_concat front with rfl | ⟨front, token, rfl⟩
    · cases hlast
    · rw [List.concat_eq_append] at hlast hordered ⊢
      rw [List.getLast?_append, List.getLast?_singleton]
      rcases List.mem_append.1 hlast with hlast | hlast
      · have hapart := (Token.ordered_append.1 hordered).2.2 last hlast token (by simp)
        exact Nat.le_trans hapart (hordered.forward token (by simp))
      · obtain rfl := List.mem_singleton.1 hlast
        exact Nat.le_refl _

/-- The outline of a program is bounded by its tokens and is nested. -/
private theorem outline_of_ofTokens {tokens : List Token} {file : String} {p : Parsed}
    (heof : ∃ token ∈ tokens, token.kind = .eof) (hordered : Token.Ordered tokens)
    (h : ofTokens tokens file = .ok p) : p.program.outline.All (Token.Bounds tokens) ∧ p.program.outline.Nested := by
  obtain ⟨t, eof, rest, entries, rfl, -, -, hforms, hconsists, -, hspan⟩ := forms_of_ofTokens heof h
  obtain ⟨ht, -, -⟩ := Token.ordered_append.1 hordered
  obtain ⟨hall, hapart⟩ := hforms.fits ht
  have hself : Token.Bounds (t ++ eof :: rest) p.program.span := by
    rw [hspan]
    refine (hordered.bounds ?_).merge (hordered.bounds ?_)
    · cases t <;> simp
    · rcases List.eq_nil_or_concat t with rfl | ⟨t, token, rfl⟩ <;> simp
  have hrows : ∀ row ∈ [p.program.imports.map Import.outline, p.program.contents.map Stmt.outline],
      row.Sublist (entries.flatMap Entry.outlines) := by
    rw [hconsists.imports, hconsists.contents]
    exact List.forall_mem_cons.2 ⟨Entry.imports_sublist entries,
      List.forall_mem_singleton.2 (Entry.contents_sublist entries)⟩
  have hparts : ∀ row ∈ [p.program.imports.map Import.outline, p.program.contents.map Stmt.outline], ∀ o ∈ row,
      o.All (Token.Bounds t) ∧ o.Nested := fun row hrow o ho => hall o ((hrows row hrow).subset ho)
  refine ⟨.node hself fun row hrow o ho => ?_,
    .node (fun row hrow o ho => ?_) (fun row hrow => ?_) fun row hrow o ho => ?_⟩
  · exact (hparts row hrow o ho).1.mono fun s hs => hs.mono (List.subset_append_left _ _)
  · rw [hspan]
    exact within_of_bounds ht (hparts row hrow o ho).1.self
  · exact hapart.sublist (hrows row hrow)
  · exact (hparts row hrow o ho).2

/-- The outlines of the statements are bounded by tokens other than the last one. -/
theorem contents_of_ofTokens {tokens : List Token} {file : String} {p : Parsed}
    (heof : ∃ token ∈ tokens, token.kind = .eof) (hordered : Token.Ordered tokens)
    (h : ofTokens tokens file = .ok p) :
    ∃ t ⊆ tokens, (∀ token ∈ t, token.kind ≠ .eof) ∧ ∀ st ∈ p.program.contents, st.outline.All (Token.Bounds t) := by
  obtain ⟨t, eof, rest, entries, rfl, -, hkinds, hforms, hconsists, -, -⟩ := forms_of_ofTokens heof h
  obtain ⟨ht, -, -⟩ := Token.ordered_append.1 hordered
  obtain ⟨hall, -⟩ := hforms.fits ht
  refine ⟨t, List.subset_append_left _ _, hkinds, fun st hst => ?_⟩
  rw [hconsists.contents] at hst
  exact (hall st.outline ((Entry.contents_sublist entries).subset (List.mem_map_of_mem hst))).1

/-- In a program that was read from a text, every span is exact: it goes from the start of a token to the end of a
token and its two ends are places of the text.  Every part lies within the whole, an operator stands between its
operands, and the statements, arguments, elements and fields of a list are disjoint and in the order of the text. -/
theorem spans_of_parse {source file : String} {p : Parsed} (h : parse source file = .ok p) :
    ∃ tokens, Token.tokenize source = .ok tokens ∧ p.program.outline.All (Span.Exact source tokens) ∧
      p.program.outline.Nested := by
  unfold parse at h
  split at h
  · rename_i tokens htokens
    obtain ⟨heof, hordered, hplaces, -⟩ := Token.ordered_of_tokenize htokens
    obtain ⟨hall, hnested⟩ := outline_of_ofTokens heof hordered h
    exact ⟨tokens, htokens, hall.mono fun s hs => hs.exact hplaces, hnested⟩
  · cases h

private def mixedText : String :=
  "// members mixed, names in brackets\n" ++
  "struct P \x7b pub x: i32; pub f(a: i32, b: str) -> i32; pub y: []i32; \x7d import \"m\";\n" ++
  "fn g(a: i32) \x7b if (a) < 2 \x7b a = (a + 1) * -2; \x7d elf !b \x7b (h)(a, [1, 2,],)\n; \x7d\n" ++
  "els \x7b ret P \x7b x: c[a--], y: (1) \x7d.x; \x7d \x7d import \x7b u, v \x7d from \"w\";"

private def spanOf (source : String) : Option Span :=
  match parse source "m" with
  | .ok p => some p.program.span
  | .error _ => none

private theorem parse_of_spanOf {source : String} {s : Span} (h : spanOf source = some s) :
    ∃ p, parse source "m" = .ok p ∧ p.program.span = s := by
  unfold spanOf at h
  split at h
  · rename_i p hparse
    cases h
    exact ⟨p, hparse, rfl⟩
  · cases h

/-- Properties and methods, imports and other statements in any order, brackets, lists with a last comma and an `if`
with all its branches. -/
theorem spans_of_parse_mixed :
    ∃ p tokens, parse mixedText "m" = .ok p ∧ p.program.span = ⟨⟨2, 1, 36⟩, ⟨5, 67, 261⟩⟩ ∧
      Token.tokenize mixedText = .ok tokens ∧ p.program.outline.All (Span.Exact mixedText tokens) ∧
      p.program.outline.Nested := by
  have hspan : spanOf mixedText = some ⟨⟨2, 1, 36⟩, ⟨5, 67, 261⟩⟩ := by decide +kernel
  obtain ⟨p, hparse, hspan⟩ := parse_of_spanOf hspan
  obtain ⟨tokens, htokens, hexact, hnested⟩ := spans_of_parse hparse
  exact ⟨p, tokens, hparse, hspan, htokens, hexact, hnested⟩

end Program

end BraceScript
