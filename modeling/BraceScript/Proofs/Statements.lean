import BraceScript.Proofs.ExprSoundness
import BraceScript.Proofs.Legible
import BraceScript.Syntax.Program

/-!
# The expressions and statements of a program

`Program.exprs` lists the expressions of a program, those inside other expressions and inside blocks included, and
`Stmt.listParts` its statements.  In a program that was read from a text, each expression is legible unless it holds
a float (`Program.legible_of_parse`), and the members of each struct have different names
(`Program.distinct_of_parse`).

Readers are described by `Reader.Ensures`: from a cursor over valid tokens the reader gets to another such cursor,
with a result that has some property.  The readers of statements call each other with less and less fuel, so for them
it is proved by induction on the fuel (`Stmt.readers`).
-/

namespace BraceScript

/-! ### The expressions of a statement -/

mutual

def Block.exprs : Block → List Expr
  | ⟨statements, _⟩ => Stmt.listExprs statements

def FunctionDecl.exprs : FunctionDecl → List Expr
  | ⟨_, _, _, body, _⟩ => body.exprs

def IfStmt.exprs : IfStmt → List Expr
  | ⟨condition, consequent, alternate, _⟩ => condition.parts ++ (consequent.exprs ++ alternate.exprs)

def Alternate.exprs : Alternate → List Expr
  | .nothing => []
  | .elseIf next => next.exprs
  | .otherwise body => body.exprs

/-- The expressions of a statement with all their parts. -/
def Stmt.exprs : Stmt → List Expr
  | .expression e _ => e.parts
  | .block body => body.exprs
  | .declare d => d.value.elim [] Expr.parts
  | .function d => d.exprs
  | .ret value _ => value.elim [] Expr.parts
  | .branch s => s.exprs
  | .struct _ | .imports _ => []
  | .whileLoop condition body _ => condition.parts ++ body.exprs
  | .forLoop _ init condition post body _ => init.parts ++ (condition.parts ++ (post.parts ++ body.exprs))
  | .foreach _ _ iterable body _ => iterable.parts ++ body.exprs

def Stmt.listExprs : List Stmt → List Expr
  | [] => []
  | s :: ss => s.exprs ++ Stmt.listExprs ss

end

theorem Stmt.mem_listExprs {e : Expr} {ss : List Stmt} : e ∈ listExprs ss ↔ ∃ s ∈ ss, e ∈ s.exprs := by
  induction ss with
  | nil => simp [listExprs]
  | cons s ss ih => simp [listExprs, ih]

def Program.exprs (p : Program) : List Expr := Stmt.listExprs p.contents

/-! ### The statements in a statement -/

mutual

def Block.parts : Block → List Stmt
  | ⟨statements, _⟩ => Stmt.listParts statements

def FunctionDecl.parts : FunctionDecl → List Stmt
  | ⟨_, _, _, body, _⟩ => body.parts

def IfStmt.parts : IfStmt → List Stmt
  | ⟨_, consequent, alternate, _⟩ => consequent.parts ++ alternate.parts

def Alternate.parts : Alternate → List Stmt
  | .nothing => []
  | .elseIf next => next.parts
  | .otherwise body => body.parts

/-- The statement and all statements in it, those of function bodies included. -/
def Stmt.parts : Stmt → List Stmt
  | .expression e span => [.expression e span]
  | .block body => .block body :: body.parts
  | .declare d => [.declare d]
  | .function d => .function d :: d.parts
  | .ret value span => [.ret value span]
  | .branch s => .branch s :: s.parts
  | .struct d => [.struct d]
  | .whileLoop condition body span => .whileLoop condition body span :: body.parts
  | .forLoop counter init condition post body span => .forLoop counter init condition post body span :: body.parts
  | .foreach value position iterable body span => .foreach value position iterable body span :: body.parts
  | .imports i => [.imports i]

def Stmt.listParts : List Stmt → List Stmt
  | [] => []
  | s :: ss => s.parts ++ Stmt.listParts ss

end

theorem Stmt.mem_parts_self (st : Stmt) : st ∈ st.parts := by
  cases st <;> simp [parts]

theorem Stmt.mem_listParts {st : Stmt} {ss : List Stmt} : st ∈ listParts ss ↔ ∃ s ∈ ss, st ∈ s.parts := by
  induction ss with
  | nil => simp [listParts]
  | cons s ss ih => simp [listParts, ih]

/-- The members of the struct have different names. -/
def StructDecl.Distinct (d : StructDecl) : Prop :=
  (d.properties.map (·.name.name) ++ d.methods.map (·.name.name)).Nodup

/-- The expressions can be written down and the members of each struct have different names. -/
structure Tidy (es : List Expr) (ss : List Stmt) : Prop where
  legible : AllLegible es
  distinct : ∀ d, .struct d ∈ ss → d.Distinct

namespace Tidy

variable {es es' : List Expr} {ss ss' : List Stmt}

private theorem of_legible (h : AllLegible es) : Tidy es [] := ⟨h, by simp⟩

private theorem append (h : Tidy es ss) (h' : Tidy es' ss') : Tidy (es ++ es') (ss ++ ss') := by
  refine ⟨h.legible.append h'.legible, fun d hd => ?_⟩
  rcases List.mem_append.1 hd with hd | hd
  · exact h.distinct d hd
  · exact h'.distinct d hd

/-- A statement that is no declaration of a struct adds nothing. -/
private theorem enclosed (h : Tidy es ss) {st : Stmt} (hst : ∀ d, st ≠ .struct d) : Tidy es (st :: ss) := by
  refine ⟨h.legible, fun d hd => ?_⟩
  rcases List.mem_cons.1 hd with heq | hd
  · exact absurd heq.symm (hst d)
  · exact h.distinct d hd

private theorem list (h : ∀ s ∈ ss, Tidy s.exprs s.parts) : Tidy (Stmt.listExprs ss) (Stmt.listParts ss) := by
  constructor
  · intro e he
    obtain ⟨s, hs, he⟩ := Stmt.mem_listExprs.1 he
    exact (h s hs).legible e he
  · intro d hd
    obtain ⟨s, hs, hd⟩ := Stmt.mem_listParts.1 hd
    exact (h s hs).distinct d hd

end Tidy

/-! ### What readers ensure -/

/-- The tokens from the next one on are valid, and the text ends among them. -/
structure Cursor.Valid (c : Cursor) : Prop where
  valid : ∀ token ∈ c.next :: c.rest, token.Valid
  eof : ∃ token ∈ c.next :: c.rest, token.kind = .eof

namespace Cursor.Valid

variable {c c' : Cursor} {t : List Token}

private theorem fenced (h : c.Valid) : c.Fenced := by
  obtain ⟨token, hmem, hk⟩ := h.eof
  exact ⟨token, hmem, by rw [hk]; rfl⟩

private theorem passes (h : c.Valid) (hpass : c.Passes t c') : c'.Valid where
  valid token hmem := h.valid token (by rw [hpass.tokens]; exact List.mem_append_right t hmem)
  eof := by
    obtain ⟨token, hmem, hk⟩ := h.eof
    rw [hpass.tokens] at hmem
    rcases List.mem_append.1 hmem with hmem | hmem
    · have hplain := hpass.plain token hmem
      rw [hk] at hplain
      cases hplain
    · exact ⟨token, hmem, hk⟩

private theorem ofTokens {tokens : List Token} (hvalid : ∀ token ∈ tokens, token.Valid)
    (heof : ∃ token ∈ tokens, token.kind = .eof) : (Cursor.ofTokens tokens).Valid := by
  have htokens := Cursor.tokens_ofTokens tokens (by rintro rfl; simp at heof)
  exact ⟨by rwa [htokens], by rwa [htokens]⟩

private theorem advance (h : c.Valid) : c.advance.Valid := by
  obtain ⟨next, rest, last, warnings⟩ := c
  by_cases hk : next.kind = .eof
  · rw [Cursor.advance, hk]
    exact h
  · cases rest with
    | nil =>
      obtain ⟨token, hmem, heof⟩ := h.eof
      obtain rfl : token = next := by simpa using hmem
      exact absurd heof hk
    | cons next' rest =>
      rw [Cursor.advance_of_ne_eof last warnings hk]
      refine ⟨fun token hmem => h.valid token (List.mem_cons_of_mem next hmem), ?_⟩
      obtain ⟨token, hmem, heof⟩ := h.eof
      rcases List.mem_cons.1 hmem with rfl | hmem
      · exact absurd heof hk
      · exact ⟨token, hmem, heof⟩

end Cursor.Valid

namespace Reader

variable {α β : Type} {P : α → Prop} {Q : β → Prop}

/-- From a valid cursor the reader gets to a valid cursor, with a result that satisfies `P`. -/
def Ensures (r : Reader α) (P : α → Prop) : Prop :=
  ∀ ⦃c : Cursor⦄ ⦃a : α⦄ ⦃c' : Cursor⦄, c.Valid → r c = .done a c' → c'.Valid ∧ P a

/-- From a valid cursor the reader gets to a valid cursor. -/
private def Keeps (r : Reader α) : Prop := r.Ensures fun _ => True

private theorem Ensures.mono {r : Reader α} {P' : α → Prop} (h : r.Ensures P) (hP : ∀ a, P a → P' a) :
    r.Ensures P' := by
  intro c a c' hc hr
  obtain ⟨hc', ha⟩ := h hc hr
  exact ⟨hc', hP a ha⟩

private theorem ensures_pure {a : α} (h : P a) : (pure a : Reader α).Ensures P := by
  rintro c _ _ hc ⟨⟩
  exact ⟨hc, h⟩

private theorem Ensures.bind {r : Reader α} {f : α → Reader β} (h : r.Ensures P) (hf : ∀ a, P a → (f a).Ensures Q) :
    (r >>= f).Ensures Q := by
  intro c b c' hc hb
  obtain ⟨a, c₁, ha, hb⟩ := bind_eq_done_iff.1 hb
  obtain ⟨hc₁, hP⟩ := h hc ha
  exact hf a hP hc₁ hb

private theorem Keeps.bind {r : Reader α} {f : α → Reader β} (h : r.Keeps) (hf : ∀ a, (f a).Ensures Q) :
    (r >>= f).Ensures Q :=
  Ensures.bind h fun a _ => hf a

private theorem Ensures.ite {b : Prop} [Decidable b] {r₁ r₂ : Reader α} (h₁ : r₁.Ensures P) (h₂ : r₂.Ensures P) :
    (if b then r₁ else r₂).Ensures P := by
  split
  · exact h₁
  · exact h₂

private theorem keeps_pure (a : α) : (pure a : Reader α).Keeps := ensures_pure trivial

private theorem ensures_exhausted : (exhausted : Reader α).Ensures P := by
  rintro c a c' - ⟨⟩

private theorem ensures_fail (cause : SyntaxError.Cause) (span : Span) : (fail cause span : Reader α).Ensures P := by
  rintro c a c' - ⟨⟩

private theorem ensures_failHere (cause : SyntaxError.Cause) : (failHere cause : Reader α).Ensures P := by
  rintro c a c' - ⟨⟩

private theorem keeps_current : current.Keeps := by
  rintro c _ _ hc ⟨⟩
  exact ⟨hc, trivial⟩

private theorem keeps_cursor : cursor.Keeps := by
  rintro c _ _ hc ⟨⟩
  exact ⟨hc, trivial⟩

private theorem keeps_lastSpan : lastSpan.Keeps := by
  rintro c _ _ hc ⟨⟩
  exact ⟨hc, trivial⟩

private theorem keeps_at? (kind : Kind) : (at? kind).Keeps := by
  rintro c _ _ hc ⟨⟩
  exact ⟨hc, trivial⟩

private theorem keeps_warn (cause : SyntaxWarning.Cause) (span : Span) : (warn cause span).Keeps := by
  rintro c _ _ hc ⟨⟩
  exact ⟨⟨hc.valid, hc.eof⟩, trivial⟩

private theorem keeps_advance : advance.Keeps := by
  rintro c _ _ hc ⟨⟩
  exact ⟨hc.advance, trivial⟩

private theorem keeps_eat (kind : Kind) : (eat kind).Keeps := by
  intro c a c' hc h
  unfold eat at h
  split at h
  · cases h
    exact ⟨hc.advance, trivial⟩
  · cases h
    exact ⟨hc, trivial⟩

private theorem keeps_expect (kind : Kind) : (expect kind).Keeps := by
  intro c a c' hc h
  unfold expect at h
  split at h
  · cases h
    exact ⟨hc.advance, trivial⟩
  · cases h

private theorem keeps_ident : ident.Keeps := (keeps_expect .ident).bind fun _ => keeps_pure _

private theorem Ensures.listed {item : Reader α} (h : item.Ensures P) (closer : Symbol) :
    (listed closer item).Ensures P :=
  h.bind fun _ ha => (keeps_at? _).bind fun _ =>
    .ite (ensures_pure ha) ((keeps_expect _).bind fun _ => ensures_pure ha)

/-- Each item keeps an invariant of the items so far, which are listed latest first. -/
private theorem ensures_upTo_of_inv {I : List α → Prop} {item : List α → Reader α}
    (h : ∀ before, I before → (item before).Ensures fun a => I (a :: before)) (closer : Symbol) (fuel : Nat)
    {before : List α} (hbefore : I before) : (upTo closer item fuel before).Ensures fun as => I as.reverse := by
  induction fuel generalizing before with
  | zero => exact ensures_exhausted
  | succ fuel ih =>
    refine keeps_current.bind fun token => .ite (ensures_pure ?_) ((h before hbefore).bind fun a ha => ih ha)
    rwa [List.reverse_reverse]

private theorem ensures_upTo {item : List α → Reader α} (h : ∀ before, (item before).Ensures P) (closer : Symbol)
    (fuel : Nat) {before : List α} (hbefore : ∀ a ∈ before, P a) :
    (upTo closer item fuel before).Ensures fun as => ∀ a ∈ as, P a := by
  have hall := ensures_upTo_of_inv (I := fun as => ∀ a ∈ as, P a)
    (fun before hb => (h before).mono fun a ha => List.forall_mem_cons.2 ⟨ha, hb⟩) closer fuel hbefore
  exact hall.mono fun as has a ha => has a (List.mem_reverse.2 ha)

private theorem Keeps.upTo {item : List α → Reader α} (h : ∀ before, (item before).Keeps) (closer : Symbol)
    (fuel : Nat) : (upTo closer item fuel []).Keeps :=
  (ensures_upTo h closer fuel (List.forall_mem_nil _)).mono fun _ _ => trivial

end Reader

/-! ### Readers of parts without expressions -/

section

open Reader

namespace Ty

private theorem keeps_readBase : readBase.Keeps := by
  refine keeps_current.bind fun token => ?_
  split
  · refine keeps_ident.bind fun name => ?_
    split
    · exact keeps_pure _
    · exact (keeps_warn _ _).bind fun _ => keeps_pure _
  · exact keeps_advance.bind fun _ => keeps_pure _
  · exact ensures_failHere _

private theorem keeps_readBrackets : readBrackets.Keeps :=
  (keeps_expect _).bind fun _ => (keeps_expect _).bind fun _ => keeps_pure _

private theorem keeps_readSuffix (fuel : Nat) (t : Ty) : (readSuffix fuel t).Keeps := by
  induction fuel generalizing t with
  | zero => exact ensures_exhausted
  | succ fuel ih =>
    exact (keeps_at? _).bind fun _ => .ite (keeps_readBrackets.bind fun _ => ih _) (keeps_pure t)

private theorem keeps_read (fuel : Nat) : (read fuel).Keeps := by
  induction fuel with
  | zero => exact ensures_exhausted
  | succ fuel ih =>
    refine (keeps_at? _).bind fun _ => .ite ?_ ?_
    · exact keeps_readBrackets.bind fun _ => ih.bind fun _ => keeps_readSuffix fuel _
    · exact keeps_readBase.bind fun base => keeps_readSuffix fuel base

private theorem keeps_readReturn (fuel : Nat) : (readReturn fuel).Keeps :=
  (keeps_eat _).bind fun _ => .ite (keeps_read fuel) (keeps_pure _)

end Ty

namespace Param

private theorem keeps_read (fuel : Nat) (before : List Param) : (read fuel before).Keeps := by
  refine keeps_ident.bind fun name => .ite (ensures_fail _ _) ?_
  exact (keeps_expect _).bind fun _ => (Ty.keeps_read fuel).bind fun _ => keeps_pure _

private theorem keeps_readList (fuel : Nat) : (readList fuel).Keeps := by
  refine (keeps_expect _).bind fun _ => Keeps.bind ?_ fun params => (keeps_expect _).bind fun _ => keeps_pure _
  exact .upTo (fun before => (keeps_read fuel before).listed _) _ _

end Param

namespace Member

private theorem ensures_readRest (fuel : Nat) (name : Ident) (visibility : Visibility) (isStatic isReadonly : Bool) :
    (readRest fuel name visibility isStatic isReadonly).Ensures fun m => m.name = name.name := by
  refine (keeps_at? _).bind fun _ => .ite ?_ ?_
  · refine (Param.keeps_readList fuel).bind fun params => (Ty.keeps_readReturn fuel).bind fun returnType => ?_
    exact (keeps_expect _).bind fun _ => ensures_pure rfl
  · refine (keeps_expect _).bind fun _ => (Ty.keeps_read fuel).bind fun type => ?_
    exact (keeps_expect _).bind fun _ => ensures_pure rfl

/-- A member has another name than those before it. -/
private theorem ensures_read (fuel : Nat) (struct : String) (before : List Member) :
    (read fuel struct before).Ensures fun m => m.name ∉ before.map Member.name := by
  refine keeps_current.bind fun first => .ite ?_ (ensures_failHere _)
  refine keeps_advance.bind fun _ => (keeps_eat _).bind fun isStatic => (keeps_eat _).bind fun isReadonly => ?_
  refine keeps_ident.bind fun name => ?_
  split
  · exact ensures_fail _ _
  · rename_i hnew
    refine (ensures_readRest fuel name _ _ _).mono fun m hm => ?_
    rw [hm]
    simpa using hnew

/-- Properties and methods together have the names of the members. -/
theorem perm_names (members : List Member) :
    ((members.filterMap property?).map (·.name.name) ++ (members.filterMap method?).map (·.name.name)).Perm
      (members.map Member.name) := by
  induction members with
  | nil => simp
  | cons m members ih =>
    cases m with
    | property d => exact ih.cons d.name.name
    | method d => exact List.perm_middle.trans (ih.cons d.name.name)

end Member

private theorem StructDecl.ensures_read (fuel : Nat) : (StructDecl.read fuel).Ensures StructDecl.Distinct := by
  refine (keeps_expect _).bind fun opening => keeps_ident.bind fun name => (keeps_expect _).bind fun _ => ?_
  have hstart : (([] : List Member).map Member.name).Nodup := List.nodup_nil
  have hmembers := ensures_upTo_of_inv (I := fun members => (members.map Member.name).Nodup)
    (fun before hb => (Member.ensures_read fuel name.name before).mono fun m hm => List.nodup_cons.2 ⟨hm, hb⟩)
    .rBrace fuel hstart
  refine hmembers.bind fun members hnodup => (keeps_expect _).bind fun closing => ensures_pure ?_
  have hperm := (Member.perm_names members).trans ((List.reverse_perm members).map Member.name).symm
  exact hperm.nodup_iff.2 hnodup

private theorem Import.keeps_readNames (fuel : Nat) : (Import.readNames fuel).Keeps := by
  refine (keeps_eat _).bind fun _ => .ite (Keeps.bind ?_ fun names => ?_) (keeps_pure _)
  · exact .upTo (fun _ => keeps_ident.listed _) _ _
  · exact (keeps_expect _).bind fun _ => (keeps_expect _).bind fun _ => keeps_pure _

private theorem Import.keeps_read (fuel : Nat) (nested : Bool) : (Import.read fuel nested).Keeps := by
  refine (keeps_expect _).bind fun opening => .ite (ensures_fail _ _) ?_
  refine (Import.keeps_readNames fuel).bind fun names => (keeps_expect _).bind fun path => ?_
  exact (keeps_expect _).bind fun closing => keeps_pure _

/-! ### Readers of statements -/

private theorem Expr.ensures_read {floor : Precedence} {l : Level} (hl : floor.level? = some l) (fuel : Nat) :
    (Expr.read fuel floor).Ensures fun e => AllLegible e.parts := by
  intro c e c' hc h
  obtain ⟨t, hpass, hderives, -⟩ := Expr.read_sound hl hc.fenced h
  refine ⟨hc.passes hpass, hderives.legible fun token hmem => hc.valid token ?_⟩
  rw [hpass.tokens]
  exact List.mem_append_left _ hmem

private theorem VariableDecl.ensures_readContent (fuel : Nat) (name : Ident) :
    (VariableDecl.readContent fuel name).Ensures fun content => AllLegible (content.2.elim [] Expr.parts) := by
  refine (keeps_eat _).bind fun _ => .ite ?_ ?_
  · refine (Ty.keeps_read fuel).bind fun type => (keeps_eat _).bind fun _ => .ite ?_ (ensures_pure .nil)
    exact (Expr.ensures_read rfl fuel).bind fun value hvalue => ensures_pure hvalue
  · refine (keeps_expect _).bind fun _ => (keeps_at? _).bind fun _ => .ite (ensures_failHere _) ?_
    exact (Expr.ensures_read rfl fuel).bind fun value hvalue => ensures_pure hvalue

private theorem VariableDecl.ensures_read (fuel : Nat) :
    (VariableDecl.read fuel).Ensures fun d => AllLegible (d.value.elim [] Expr.parts) := by
  refine keeps_advance.bind fun opening => keeps_ident.bind fun name => ?_
  refine (VariableDecl.ensures_readContent fuel name).bind fun ⟨type, value⟩ hvalue => .ite (ensures_fail _ _) ?_
  exact (keeps_expect _).bind fun closing => ensures_pure hvalue

namespace Stmt

private theorem ensures_readReturn (fuel : Nat) : (readReturn fuel).Ensures fun s => Tidy s.exprs s.parts := by
  refine (keeps_expect _).bind fun opening => (keeps_at? _).bind fun _ => .ite ?_ ?_
  · exact keeps_advance.bind fun closing => ensures_pure ((Tidy.of_legible .nil).enclosed nofun)
  · refine (Expr.ensures_read rfl fuel).bind fun value hvalue => ?_
    exact (keeps_expect _).bind fun closing => ensures_pure ((Tidy.of_legible hvalue).enclosed nofun)

private theorem ensures_readExpression (fuel : Nat) : (readExpression fuel).Ensures fun s => Tidy s.exprs s.parts :=
  (Expr.ensures_read rfl fuel).bind fun _ he => (keeps_expect _).bind fun _ =>
    ensures_pure ((Tidy.of_legible he).enclosed nofun)

/-- What the readers of statements ensure with the given fuel. -/
structure Readers (fuel : Nat) : Prop where
  stmt : ∀ nested, (Stmt.read fuel nested).Ensures fun s => Tidy s.exprs s.parts
  block : (Block.read fuel).Ensures fun b => Tidy b.exprs b.parts
  branch : (IfStmt.read fuel).Ensures fun s => Tidy s.exprs s.parts
  alternate : (Alternate.read fuel).Ensures fun s => Tidy s.exprs s.parts
  function : (FunctionDecl.read fuel).Ensures fun d => Tidy d.exprs d.parts
  whileLoop : (readWhile fuel).Ensures fun s => Tidy s.exprs s.parts
  forLoop : (readFor fuel).Ensures fun s => Tidy s.exprs s.parts
  foreach : (readForeach fuel).Ensures fun s => Tidy s.exprs s.parts

namespace Readers

variable {fuel : Nat}

private theorem stmt_succ (h : Readers fuel) (nested : Bool) :
    (Stmt.read (fuel + 1) nested).Ensures fun s => Tidy s.exprs s.parts := by
  unfold Stmt.read
  refine keeps_current.bind fun first => ?_
  split
  · exact (VariableDecl.ensures_read fuel).bind fun _ hd => ensures_pure ((Tidy.of_legible hd).enclosed nofun)
  · exact (VariableDecl.ensures_read fuel).bind fun _ hd => ensures_pure ((Tidy.of_legible hd).enclosed nofun)
  · exact h.block.bind fun _ hb => ensures_pure (hb.enclosed nofun)
  · exact h.branch.bind fun _ hs => ensures_pure (hs.enclosed nofun)
  · exact h.function.bind fun _ hd => ensures_pure (hd.enclosed nofun)
  · exact ensures_readReturn fuel
  · refine (StructDecl.ensures_read fuel).bind fun d hd => ensures_pure ⟨.nil, fun d' hmem => ?_⟩
    obtain rfl : d' = d := by simpa [Stmt.parts] using hmem
    exact hd
  · exact h.whileLoop
  · exact h.forLoop
  · exact h.foreach
  · exact (Import.keeps_read fuel nested).bind fun _ => ensures_pure ((Tidy.of_legible .nil).enclosed nofun)
  · exact ensures_readExpression fuel

private theorem block_succ (h : Readers fuel) : (Block.read (fuel + 1)).Ensures fun b => Tidy b.exprs b.parts := by
  unfold Block.read
  have hstatements := ensures_upTo (fun _ => h.stmt true) .rBrace fuel (List.forall_mem_nil _)
  refine (keeps_expect _).bind fun opening => hstatements.bind fun statements hall => ?_
  exact (keeps_expect _).bind fun closing => ensures_pure (.list hall)

private theorem branch_succ (h : Readers fuel) : (IfStmt.read (fuel + 1)).Ensures fun s => Tidy s.exprs s.parts := by
  unfold IfStmt.read
  refine keeps_advance.bind fun opening => (Expr.ensures_read rfl fuel).bind fun condition hcondition => ?_
  refine h.block.bind fun consequent hconsequent => h.alternate.bind fun alternate halternate => ?_
  exact ensures_pure ((Tidy.of_legible hcondition).append (hconsequent.append halternate))

private theorem alternate_succ (h : Readers fuel) :
    (Alternate.read (fuel + 1)).Ensures fun s => Tidy s.exprs s.parts := by
  unfold Alternate.read
  refine keeps_current.bind fun first => ?_
  split
  · exact keeps_advance.bind fun _ => h.block.bind fun _ hbody => ensures_pure hbody
  · exact h.branch.bind fun _ hnext => ensures_pure hnext
  · exact ensures_pure (.of_legible .nil)

private theorem function_succ (h : Readers fuel) :
    (FunctionDecl.read (fuel + 1)).Ensures fun d => Tidy d.exprs d.parts := by
  unfold FunctionDecl.read
  refine (keeps_expect _).bind fun opening => keeps_ident.bind fun name => ?_
  refine (Param.keeps_readList fuel).bind fun params => (Ty.keeps_readReturn fuel).bind fun returnType => ?_
  exact h.block.bind fun body hbody => ensures_pure hbody

private theorem whileLoop_succ (h : Readers fuel) :
    (readWhile (fuel + 1)).Ensures fun s => Tidy s.exprs s.parts := by
  unfold readWhile
  refine (keeps_expect _).bind fun opening => (Expr.ensures_read rfl fuel).bind fun condition hcondition => ?_
  exact h.block.bind fun body hbody => ensures_pure (((Tidy.of_legible hcondition).append hbody).enclosed nofun)

private theorem forLoop_succ (h : Readers fuel) : (readFor (fuel + 1)).Ensures fun s => Tidy s.exprs s.parts := by
  unfold readFor
  refine (keeps_expect _).bind fun opening => keeps_ident.bind fun counter => (keeps_expect _).bind fun _ => ?_
  refine (Expr.ensures_read rfl fuel).bind fun init hinit => (keeps_expect _).bind fun _ => ?_
  refine (Expr.ensures_read rfl fuel).bind fun condition hcondition => (keeps_expect _).bind fun _ => ?_
  refine (Expr.ensures_read rfl fuel).bind fun post hpost => h.block.bind fun body hbody => ?_
  have hhead :=
    (Tidy.of_legible hinit).append ((Tidy.of_legible hcondition).append ((Tidy.of_legible hpost).append hbody))
  exact ensures_pure (hhead.enclosed nofun)

private theorem foreach_succ (h : Readers fuel) :
    (readForeach (fuel + 1)).Ensures fun s => Tidy s.exprs s.parts := by
  unfold readForeach
  refine (keeps_expect _).bind fun opening => keeps_ident.bind fun value => ?_
  -- what follows the names is read in the same way with and without a second name
  have hrest (position : Option Ident) : (do
      let _ ← expectKeyword .inKw
      let iterable ← Expr.read fuel .assignment
      let body ← Block.read fuel
      return Stmt.foreach value position iterable body (opening.span.merge body.span) : Reader Stmt).Ensures
        fun s => Tidy s.exprs s.parts := by
    refine (keeps_expect _).bind fun _ => (Expr.ensures_read rfl fuel).bind fun iterable hiterable => ?_
    exact h.block.bind fun body hbody => ensures_pure (((Tidy.of_legible hiterable).append hbody).enclosed nofun)
  exact (keeps_eat _).bind fun _ => .ite (Keeps.bind (keeps_ident.bind fun _ => keeps_pure _) hrest)
    ((keeps_pure _).bind hrest)

end Readers

/-- The readers call each other with less fuel. -/
theorem readers (fuel : Nat) : Readers fuel := by
  induction fuel with
  | zero =>
    constructor
    case stmt => exact fun _ => ensures_exhausted
    all_goals exact ensures_exhausted
  | succ fuel ih =>
    exact ⟨ih.stmt_succ, ih.block_succ, ih.branch_succ, ih.alternate_succ, ih.function_succ, ih.whileLoop_succ,
      ih.forLoop_succ, ih.foreach_succ⟩

end Stmt

namespace Program

/-- The statements read so far are tidy. -/
private def Draft.Tidy (draft : Draft) : Prop := ∀ s ∈ draft.contents, BraceScript.Tidy s.exprs s.parts

private theorem Draft.Tidy.add {draft : Draft} (h : draft.Tidy) {s : Stmt} (hs : BraceScript.Tidy s.exprs s.parts) :
    (draft.add s).Tidy := by
  unfold Draft.add
  split
  · exact h
  · exact List.forall_mem_cons.2 ⟨hs, h⟩

private theorem ensures_readModule {draft : Draft} (h : draft.Tidy) : (readModule draft).Ensures Draft.Tidy := by
  refine keeps_advance.bind fun _ => keeps_ident.bind fun name => (keeps_expect _).bind fun _ => ?_
  split
  · exact ensures_fail _ _
  · exact ensures_pure h

private theorem ensures_readDraft (fuel : Nat) {draft : Draft} (h : draft.Tidy) :
    (readDraft fuel draft).Ensures Draft.Tidy := by
  induction fuel generalizing draft with
  | zero => exact ensures_exhausted
  | succ fuel ih =>
    refine keeps_cursor.bind fun c => .ite (ensures_pure h) (.ite ?_ ?_)
    · exact (ensures_readModule h).bind fun draft hdraft => ih hdraft
    · exact ((Stmt.readers fuel).stmt false).bind fun s hs => ih (h.add hs)

private theorem ensures_read (fuel : Nat) (file : String) :
    (read fuel file).Ensures fun p => Tidy p.exprs (Stmt.listParts p.contents) := by
  have hstart : (Draft.mk none [] []).Tidy := List.forall_mem_nil _
  refine keeps_current.bind fun first => (ensures_readDraft fuel hstart).bind fun draft hdraft => ?_
  exact keeps_lastSpan.bind fun last => ensures_pure (.list fun s hs => hdraft s (List.mem_reverse.1 hs))

private theorem tidy_of_parse {source file : String} {p : Parsed} (h : parse source file = .ok p) :
    Tidy p.program.exprs (Stmt.listParts p.program.contents) := by
  unfold parse at h
  split at h
  · rename_i tokens htokens
    obtain ⟨hvalid, front, stop, hlast⟩ := Token.tokenize_valid htokens
    unfold ofTokens at h
    split at h
    · rename_i program c hread
      cases h
      have hstart : (Cursor.ofTokens tokens).Valid := .ofTokens hvalid ⟨Token.eofAt stop, by simp [hlast], rfl⟩
      exact (ensures_read _ file hstart hread).2
    · cases h
    · cases h
  · cases h

/-- In a program that was read from a text, every expression without floats is legible. -/
theorem legible_of_parse {source file : String} {p : Parsed} (h : parse source file = .ok p) :
    AllLegible p.program.exprs := (tidy_of_parse h).legible

/-- In a program that was read from a text, the members of each struct have different names. -/
theorem distinct_of_parse {source file : String} {p : Parsed} (h : parse source file = .ok p) {d : StructDecl}
    (hd : .struct d ∈ Stmt.listParts p.program.contents) : d.Distinct := (tidy_of_parse h).distinct d hd

end Program

end

end BraceScript
