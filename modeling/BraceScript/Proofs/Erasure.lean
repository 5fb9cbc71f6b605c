import BraceScript.Proofs.Legible
import BraceScript.Syntax.Program

/-!
# Reading does not depend on places

Tokens, trees, warnings and errors can be stripped of the places they come from (`erase`).  Reading commutes with
that: on stripped tokens a reader does the same as on the tokens themselves, and yields what that yields, stripped
(`Reader.Blind`).  So two texts whose tokens differ only in their places are read in the same way
(`Program.ofTokens_erase`).
-/

namespace BraceScript

@[simp] theorem Span.merge_default : Span.merge default default = default := rfl

/-! ### Trees without places -/

def Token.erase (t : Token) : Token := { t with span := default }

def SyntaxWarning.erase (w : SyntaxWarning) : SyntaxWarning := ⟨w.cause, default⟩

def SyntaxError.erase (e : SyntaxError) : SyntaxError := ⟨e.cause, default⟩

namespace Expr

/-- The field of a struct literal at no particular place. -/
def eraseField (f : Ident × Expr) : Ident × Expr := (eraseIdent f.1, f.2.erase)

theorem eraseFields_eq (fields : List (Ident × Expr)) : eraseFields fields = fields.map eraseField := by
  induction fields with
  | nil => rfl
  | cons f fields ih =>
    rw [eraseFields, ih]
    rfl

@[simp] theorem span_erase (e : Expr) : e.erase.span = default := by
  cases e <;> rfl

mutual

@[simp] theorem text_erase : ∀ e : Expr, e.erase.text = e.text
  | ident _ | literal _ _ => rfl
  | unary _ operand .before _ | unary _ operand .after _ => by simp only [erase, text, text_erase operand]
  | binary _ left right _ => by simp only [erase, text, text_erase left, text_erase right]
  | assign target _ value _ => by simp only [erase, text, text_erase target, text_erase value]
  | call _ arguments _ => by simp only [erase, text, eraseIdent, listText_erase _ arguments]
  | build _ fields _ => by simp only [erase, text, eraseIdent, fieldsText_erase _ fields]
  | property object _ _ => by simp only [erase, text, eraseIdent, text_erase object]
  | array elements _ _ => by simp only [erase, text, listText_erase _ elements]
  | index _ position _ => by simp only [erase, text, eraseIdent, text_erase position]

private theorem listText_erase (before : String) :
    ∀ es : List Expr, listText before (eraseList es) = listText before es
  | [] => rfl
  | e :: es => by simp only [eraseList, listText, text_erase e, listText_erase _ es]

private theorem fieldsText_erase (before : String) :
    ∀ fields : List (Ident × Expr), fieldsText before (eraseFields fields) = fieldsText before fields
  | [] => rfl
  | (name, e) :: fields => by
      simp only [eraseFields, fieldsText, eraseIdent, text_erase e, fieldsText_erase _ fields]

end

end Expr

def Param.erase (p : Param) : Param := { p with name := Expr.eraseIdent p.name }

def PropertyDecl.erase (p : PropertyDecl) : PropertyDecl := { p with name := Expr.eraseIdent p.name }

def MethodDecl.erase (m : MethodDecl) : MethodDecl :=
  { m with name := Expr.eraseIdent m.name, params := m.params.map Param.erase }

def Member.erase : Member → Member
  | property d => property d.erase
  | method d => method d.erase

def StructDecl.erase (d : StructDecl) : StructDecl :=
  ⟨Expr.eraseIdent d.name, d.properties.map PropertyDecl.erase, d.methods.map MethodDecl.erase, default⟩

def VariableDecl.erase (d : VariableDecl) : VariableDecl :=
  ⟨Expr.eraseIdent d.name, d.isConstant, d.type, d.value.map Expr.erase, default⟩

def Import.erase (i : Import) : Import := ⟨⟨i.path.value, default⟩, i.names.map Expr.eraseIdent, default⟩

mutual

def Block.erase : Block → Block
  | ⟨statements, _⟩ => ⟨Stmt.eraseList statements, default⟩

def FunctionDecl.erase : FunctionDecl → FunctionDecl
  | ⟨name, params, returnType, body, _⟩ =>
    ⟨Expr.eraseIdent name, params.map Param.erase, returnType, body.erase, default⟩

def IfStmt.erase : IfStmt → IfStmt
  | ⟨condition, consequent, alternate, _⟩ => ⟨condition.erase, consequent.erase, alternate.erase, default⟩

def Alternate.erase : Alternate → Alternate
  | .nothing => .nothing
  | .elseIf next => .elseIf next.erase
  | .otherwise body => .otherwise body.erase

/-- The statement with all its spans replaced by one and the same. -/
def Stmt.erase : Stmt → Stmt
  | .expression e _ => .expression e.erase default
  | .block body => .block body.erase
  | .declare d => .declare d.erase
  | .function d => .function d.erase
  | .ret value _ => .ret (value.map Expr.erase) default
  | .branch s => .branch s.erase
  | .struct d => .struct d.erase
  | .whileLoop condition body _ => .whileLoop condition.erase body.erase default
  | .forLoop counter init condition post body _ =>
    .forLoop (Expr.eraseIdent counter) init.erase condition.erase post.erase body.erase default
  | .foreach value position iterable body _ =>
    .foreach (Expr.eraseIdent value) (position.map Expr.eraseIdent) iterable.erase body.erase default
  | .imports i => .imports i.erase

def Stmt.eraseList : List Stmt → List Stmt
  | [] => []
  | s :: ss => s.erase :: Stmt.eraseList ss

end

theorem Stmt.eraseList_eq (ss : List Stmt) : Stmt.eraseList ss = ss.map Stmt.erase := by
  induction ss with
  | nil => rfl
  | cons s ss ih => rw [eraseList, ih, List.map_cons]

/-- The program with all its spans replaced by one and the same. -/
def Program.erase (p : Program) : Program :=
  ⟨p.moduleName, p.imports.map Import.erase, p.contents.map Stmt.erase, default⟩

@[simp] private theorem Block.span_erase (b : Block) : b.erase.span = default := by
  cases b
  rfl

@[simp] private theorem Alternate.spanAfter_erase (consequent : Block) (a : Alternate) :
    a.erase.spanAfter consequent.erase = default := by
  cases a with
  | nothing => exact Block.span_erase consequent
  | elseIf next =>
    cases next
    rfl
  | otherwise body => exact Block.span_erase body

/-! ### Cursors without places -/

namespace Cursor

def erase (c : Cursor) : Cursor :=
  ⟨c.next.erase, c.rest.map Token.erase, c.last.map fun _ => default, c.warnings.map SyntaxWarning.erase⟩

private theorem advance_erase (c : Cursor) : c.erase.advance = c.advance.erase := by
  obtain ⟨⟨kind, text, span⟩, rest, last, warnings⟩ := c
  cases kind <;> cases rest <;> rfl

private theorem lastSpan_erase (c : Cursor) : c.erase.lastSpan = default := by
  obtain ⟨next, rest, last, warnings⟩ := c
  cases last <;> rfl

private theorem peek_erase (c : Cursor) (n : Nat) : c.erase.peek n = c.peek n := by
  cases n with
  | zero => rfl
  | succ n =>
    simp only [peek, erase, List.getElem?_map, Option.map_map]
    rfl

private theorem startsWith_erase (c : Cursor) (kinds : List Kind) :
    c.erase.startsWith kinds = c.startsWith kinds := by
  have hpeek : c.erase.peek = c.peek := funext (peek_erase c)
  simp only [startsWith, hpeek]

private theorem ofTokens_erase (tokens : List Token) :
    ofTokens (tokens.map Token.erase) = (ofTokens tokens).erase := by
  cases tokens with
  | nil => rfl
  | cons t ts => rfl

end Cursor

/-! ### Readers -/

/-- The reply without places, its value stripped by `f`. -/
def Reply.erase {α β : Type} (f : α → β) : Reply α → Reply β
  | .done a c => .done (f a) c.erase
  | .failed e => .failed e.erase
  | .exhausted => .exhausted

namespace Reader

variable {α β γ δ : Type}

/-- On tokens without places, `r'` replies what `r` replies on the tokens, without places. -/
def Blind (f : α → β) (r : Reader α) (r' : Reader β) : Prop := ∀ c, r' c.erase = (r c).erase f

private theorem blind_pure {f : α → β} {a : α} {b : β} (h : b = f a) : Blind f (pure a) (pure b) := by
  subst h
  exact fun _ => rfl

private theorem blind_exhausted {f : α → β} : Blind f exhausted exhausted := fun _ => rfl

private theorem blind_fail {f : α → β} (cause : SyntaxError.Cause) (span : Span) {span' : Span}
    (h : span' = default) : Blind f (fail cause span) (fail cause span') := by
  subst h
  exact fun _ => rfl

private theorem blind_failHere {f : α → β} (cause : SyntaxError.Cause) : Blind f (failHere cause) (failHere cause) :=
  fun _ => rfl

private theorem Blind.bind {f : α → β} {g : γ → δ} {r : Reader α} {r' : Reader β} {k : α → Reader γ}
    {k' : β → Reader δ} (h : Blind f r r') (hk : ∀ a, Blind g (k a) (k' (f a))) : Blind g (r >>= k) (r' >>= k') := by
  intro c
  have hc := h c
  cases hr : r c with
  | done a c₁ =>
    rw [hr] at hc
    rw [bind_of_done hr, bind_of_done hc]
    exact hk a c₁
  | failed e =>
    rw [hr] at hc
    rw [bind_of_failed hr, bind_of_failed hc]
    rfl
  | exhausted =>
    rw [hr] at hc
    rw [bind_of_exhausted hr, bind_of_exhausted hc]
    rfl

private theorem Blind.ite {f : α → β} {p q : Prop} [Decidable p] [Decidable q] {r₁ r₂ : Reader α}
    {r₁' r₂' : Reader β} (hiff : q ↔ p) (h₁ : Blind f r₁ r₁') (h₂ : Blind f r₂ r₂') :
    Blind f (if p then r₁ else r₂) (if q then r₁' else r₂') := by
  by_cases hp : p
  · rw [if_pos hp, if_pos (hiff.2 hp)]
    exact h₁
  · rw [if_neg hp, if_neg fun hq => hp (hiff.1 hq)]
    exact h₂

private theorem blind_cursor : Blind Cursor.erase cursor cursor := fun _ => rfl

private theorem blind_current : Blind Token.erase current current := fun _ => rfl

private theorem blind_advance : Blind Token.erase advance advance := by
  intro c
  simp only [advance, Cursor.advance_erase]
  rfl

private theorem blind_lastSpan : Blind (fun _ => default) lastSpan lastSpan := by
  intro c
  simp only [lastSpan, Cursor.lastSpan_erase]
  rfl

private theorem blind_warn (cause : SyntaxWarning.Cause) (span : Span) :
    Blind id (warn cause span) (warn cause default) :=
  fun _ => rfl

private theorem blind_at? (kind : Kind) : Blind id (at? kind) (at? kind) := fun _ => rfl

private theorem blind_eat (kind : Kind) : Blind id (eat kind) (eat kind) := by
  intro c
  simp only [eat, Cursor.advance_erase]
  by_cases hk : c.next.kind = kind
  · rw [if_pos hk, if_pos (show c.erase.next.kind = kind from hk)]
    rfl
  · rw [if_neg hk, if_neg (show ¬ c.erase.next.kind = kind from hk)]
    rfl

private theorem blind_expect (kind : Kind) : Blind Token.erase (expect kind) (expect kind) := by
  intro c
  simp only [expect, Cursor.advance_erase]
  by_cases hk : c.next.kind = kind
  · rw [if_pos hk, if_pos (show c.erase.next.kind = kind from hk)]
    rfl
  · rw [if_neg hk, if_neg (show ¬ c.erase.next.kind = kind from hk)]
    rfl

private theorem blind_expectSymbol (s : Symbol) : Blind Token.erase (expectSymbol s) (expectSymbol s) :=
  blind_expect _

private theorem blind_expectKeyword (k : Keyword) : Blind Token.erase (expectKeyword k) (expectKeyword k) :=
  blind_expect _

private theorem blind_ident : Blind Expr.eraseIdent ident ident := (blind_expect .ident).bind fun _ => blind_pure rfl

private theorem Blind.listed {f : α → β} {item : Reader α} {item' : Reader β} (h : Blind f item item')
    (closer : Symbol) : Blind f (listed closer item) (listed closer item') :=
  h.bind fun _ => (blind_at? _).bind fun _ =>
    .ite .rfl (blind_pure rfl) ((blind_expectSymbol .comma).bind fun _ => blind_pure rfl)

private theorem blind_upTo {f : α → β} {item : List α → Reader α} {item' : List β → Reader β} (closer : Symbol)
    (h : ∀ before, Blind f (item before) (item' (before.map f))) (fuel : Nat) (before : List α) :
    Blind (List.map f) (upTo closer item fuel before) (upTo closer item' fuel (before.map f)) := by
  induction fuel generalizing before with
  | zero => exact blind_exhausted
  | succ fuel ih =>
    refine blind_current.bind fun token => .ite .rfl (blind_pure ?_) ((h before).bind fun a => ih (a :: before))
    rw [List.map_reverse]

end Reader

/-! ### Types -/

open Reader

namespace Ty

private theorem blind_readBase : Blind id readBase readBase := by
  refine blind_current.bind fun token => ?_
  obtain ⟨kind, text, span⟩ := token
  dsimp only [Token.erase]
  split
  · refine blind_ident.bind fun name => ?_
    dsimp only [Expr.eraseIdent]
    split
    · exact blind_pure rfl
    · exact (blind_warn _ _).bind fun _ => blind_pure rfl
  · exact blind_advance.bind fun _ => blind_pure rfl
  · exact blind_failHere _

private theorem blind_readBrackets : Blind id readBrackets readBrackets :=
  (blind_expectSymbol _).bind fun _ => (blind_expectSymbol _).bind fun _ => blind_pure rfl

private theorem blind_readSuffix (fuel : Nat) (t : Ty) : Blind id (readSuffix fuel t) (readSuffix fuel t) := by
  induction fuel generalizing t with
  | zero => exact blind_exhausted
  | succ fuel ih =>
    exact (blind_at? _).bind fun _ => .ite .rfl (blind_readBrackets.bind fun _ => ih _) (blind_pure rfl)

private theorem blind_read (fuel : Nat) : Blind id (read fuel) (read fuel) := by
  induction fuel with
  | zero => exact blind_exhausted
  | succ fuel ih =>
    refine (blind_at? _).bind fun _ => .ite .rfl ?_ (blind_readBase.bind fun _ => blind_readSuffix _ _)
    exact blind_readBrackets.bind fun _ => ih.bind fun _ => blind_readSuffix _ _

private theorem blind_readReturn (fuel : Nat) : Blind id (readReturn fuel) (readReturn fuel) :=
  (blind_eat _).bind fun _ => .ite .rfl (blind_read fuel) (blind_pure rfl)

end Ty

/-! ### Expressions -/

namespace Expr

private theorem blind_readLiteral (value : Literal) : Blind erase (readLiteral value) (readLiteral value) :=
  blind_advance.bind fun _ => blind_pure rfl

private theorem blind_readNumber : Blind erase readNumber readNumber := by
  refine blind_advance.bind fun token => ?_
  dsimp only [Token.erase]
  split
  · exact blind_pure rfl
  · exact blind_fail _ _ rfl

/-- With the given fuel, expressions are read without regard to places. -/
private structure BlindReaders (fuel : Nat) : Prop where
  expr : ∀ floor, Blind erase (read fuel floor) (read fuel floor)
  head : Blind erase (readHead fuel) (readHead fuel)
  build : ∀ name, Blind erase (readBuild fuel name) (readBuild fuel (eraseIdent name))
  field : ∀ before, Blind eraseField (readField fuel before) (readField fuel (before.map eraseField))
  tail : ∀ floor left, Blind erase (readTail fuel floor left) (readTail fuel floor left.erase)
  continuation : ∀ left c, Blind erase (readContinuation fuel left c) (readContinuation fuel left.erase c)

namespace BlindReaders

variable {fuel : Nat} (h : BlindReaders fuel)
include h

private theorem items (closer : Symbol) :
    Blind (List.map erase) (upTo closer (fun _ => listed closer (read fuel .comma)) fuel [])
      (upTo closer (fun _ => listed closer (read fuel .comma)) fuel []) :=
  blind_upTo closer (fun _ => (h.expr .comma).listed closer) fuel []

private theorem head_succ : Blind erase (readHead (fuel + 1)) (readHead (fuel + 1)) := by
  refine blind_current.bind fun token => ?_
  obtain ⟨kind, text, span⟩ := token
  dsimp only [Token.erase]
  split
  · exact blind_readNumber
  · exact blind_readLiteral _
  · exact blind_readLiteral _
  · exact blind_readLiteral _
  · exact blind_readLiteral _
  · exact blind_readLiteral _
  · refine blind_cursor.bind fun c => blind_ident.bind fun name => .ite ?_ (h.build name) (blind_pure rfl)
    rw [Cursor.startsWith_erase]
  · refine blind_advance.bind fun _ => (h.expr _).bind fun inner => ?_
    exact (blind_expectSymbol _).bind fun _ => blind_pure rfl
  · refine blind_advance.bind fun opening => (h.items .rBracket).bind fun elements => ?_
    refine (blind_expectSymbol _).bind fun closing => blind_pure ?_
    rw [erase, eraseList_eq, List.length_map]
    rfl
  · split
    · refine blind_advance.bind fun opening => (h.expr _).bind fun operand => blind_pure ?_
      rw [erase, span_erase]
      rfl
    · exact blind_failHere _
  · exact blind_failHere _

private theorem build_succ (name : Ident) :
    Blind erase (readBuild (fuel + 1) name) (readBuild (fuel + 1) (eraseIdent name)) := by
  refine (blind_expectSymbol _).bind fun _ => ?_
  refine (blind_upTo .rBrace (fun before => (h.field before).listed .rBrace) fuel []).bind fun fields => ?_
  refine (blind_expectSymbol _).bind fun closing => blind_pure ?_
  rw [erase, eraseFields_eq]
  rfl

private theorem field_succ (before : List (Ident × Expr)) :
    Blind eraseField (readField (fuel + 1) before) (readField (fuel + 1) (before.map eraseField)) := by
  refine blind_ident.bind fun name => .ite ?_ (blind_fail _ _ rfl) ?_
  · rw [List.any_map]
    rfl
  · exact (blind_expectSymbol _).bind fun _ => (h.expr _).bind fun value => blind_pure rfl

private theorem tail_succ (floor : Precedence) (left : Expr) :
    Blind erase (readTail (fuel + 1) floor left) (readTail (fuel + 1) floor left.erase) := by
  refine blind_current.bind fun token => ?_
  dsimp only [Token.erase]
  split
  · exact blind_pure rfl
  · exact .ite .rfl ((h.continuation left _).bind fun longer => h.tail floor longer) (blind_pure rfl)

private theorem continuation_succ (left : Expr) (c : Continuation) :
    Blind erase (readContinuation (fuel + 1) left c) (readContinuation (fuel + 1) left.erase c) := by
  cases c with
  | binary op =>
    refine blind_advance.bind fun token => (h.expr _).bind fun right => blind_pure ?_
    rw [erase, span_erase, span_erase]
    rfl
  | assign op =>
    refine .ite (by rw [isAssignable_erase]) ?_ ?_
    · refine blind_advance.bind fun token => (h.expr _).bind fun value => blind_pure ?_
      rw [erase, span_erase, span_erase]
      rfl
    · rw [text_erase]
      exact blind_fail _ _ (span_erase left)
  | call =>
    cases left with
    | ident callee =>
      refine (blind_expectSymbol _).bind fun _ => (h.items .rParen).bind fun arguments => ?_
      refine (blind_expectSymbol _).bind fun closing => blind_pure ?_
      rw [erase, eraseList_eq]
      rfl
    | _ =>
      simp only [readContinuation, text_erase]
      exact blind_fail _ _ rfl
  | step op =>
    refine blind_advance.bind fun token => ?_
    cases left with
    | ident id => exact blind_pure rfl
    | _ => exact blind_fail _ _ rfl
  | property =>
    refine (blind_expectSymbol _).bind fun _ => blind_ident.bind fun name => blind_pure ?_
    rw [erase, span_erase]
    rfl
  | index =>
    cases left with
    | ident base =>
      refine (blind_expectSymbol _).bind fun _ => (h.expr _).bind fun position => ?_
      exact (blind_expectSymbol _).bind fun closing => blind_pure rfl
    | _ =>
      simp only [readContinuation, text_erase]
      exact blind_fail _ _ rfl

end BlindReaders

/-- Expressions are read without regard to places, by induction on the fuel. -/
private theorem blindReaders (fuel : Nat) : BlindReaders fuel := by
  induction fuel with
  | zero =>
    constructor
    · exact fun _ => blind_exhausted
    · exact blind_exhausted
    · exact fun _ => blind_exhausted
    · exact fun _ => blind_exhausted
    · exact fun _ _ => blind_exhausted
    · exact fun _ _ => blind_exhausted
  | succ fuel ih =>
    constructor
    · exact fun floor => ih.head.bind fun head => ih.tail floor head
    · exact ih.head_succ
    · exact ih.build_succ
    · exact ih.field_succ
    · exact ih.tail_succ
    · exact ih.continuation_succ

private theorem blind_read (fuel : Nat) (floor : Precedence) : Blind erase (read fuel floor) (read fuel floor) :=
  (blindReaders fuel).expr floor

end Expr

/-! ### Declarations -/

namespace Param

private theorem blind_read (fuel : Nat) (before : List Param) :
    Blind erase (read fuel before) (read fuel (before.map erase)) := by
  refine blind_ident.bind fun name => .ite ?_ (blind_fail _ _ rfl) ?_
  · rw [List.any_map]
    rfl
  · exact (blind_expectSymbol _).bind fun _ => (Ty.blind_read fuel).bind fun type => blind_pure rfl

private theorem blind_readList (fuel : Nat) : Blind (List.map erase) (readList fuel) (readList fuel) := by
  refine (blind_expectSymbol _).bind fun _ => ?_
  refine (blind_upTo .rParen (fun before => (blind_read fuel before).listed .rParen) fuel []).bind fun params => ?_
  exact (blind_expectSymbol _).bind fun _ => blind_pure rfl

end Param

namespace Member

private theorem name_erase (m : Member) : m.erase.name = m.name := by
  cases m <;> rfl

private theorem filterMap_property?_erase (members : List Member) :
    (members.map erase).filterMap property? = (members.filterMap property?).map PropertyDecl.erase := by
  rw [List.filterMap_map, List.map_filterMap]
  congr 1
  funext m
  cases m <;> rfl

private theorem filterMap_method?_erase (members : List Member) :
    (members.map erase).filterMap method? = (members.filterMap method?).map MethodDecl.erase := by
  rw [List.filterMap_map, List.map_filterMap]
  congr 1
  funext m
  cases m <;> rfl

private theorem blind_readRest (fuel : Nat) (name : Ident) (visibility : Visibility) (isStatic isReadonly : Bool) :
    Blind erase (readRest fuel name visibility isStatic isReadonly)
      (readRest fuel (Expr.eraseIdent name) visibility isStatic isReadonly) := by
  refine (blind_at? _).bind fun _ => .ite .rfl ?_ ?_
  · refine (Param.blind_readList fuel).bind fun params => (Ty.blind_readReturn fuel).bind fun returnType => ?_
    exact (blind_expectSymbol _).bind fun _ => blind_pure rfl
  · refine (blind_expectSymbol _).bind fun _ => (Ty.blind_read fuel).bind fun type => ?_
    exact (blind_expectSymbol _).bind fun _ => blind_pure rfl

private theorem blind_read (fuel : Nat) (struct : String) (before : List Member) :
    Blind erase (read fuel struct before) (read fuel struct (before.map erase)) := by
  refine blind_current.bind fun first => .ite .rfl ?_ (blind_failHere _)
  refine blind_advance.bind fun _ => (blind_eat _).bind fun isStatic => (blind_eat _).bind fun isReadonly => ?_
  refine blind_ident.bind fun name => .ite ?_ (blind_fail _ _ rfl) (blind_readRest _ _ _ _ _)
  simp only [List.any_map, Function.comp_def, name_erase]
  rfl

end Member

namespace VariableDecl

private theorem blind_readContent (fuel : Nat) (name : Ident) :
    Blind (fun content => (content.1, content.2.map Expr.erase)) (readContent fuel name)
      (readContent fuel (Expr.eraseIdent name)) := by
  have hvalue := Expr.blind_read fuel .assignment
  refine (blind_eat _).bind fun _ => .ite .rfl ?_ ?_
  · refine (Ty.blind_read fuel).bind fun type => (blind_eat _).bind fun _ => .ite .rfl ?_ (blind_pure rfl)
    exact hvalue.bind fun value => blind_pure rfl
  · refine (blind_expectSymbol _).bind fun _ => (blind_at? _).bind fun _ => .ite .rfl (blind_failHere _) ?_
    exact hvalue.bind fun value => blind_pure rfl

private theorem blind_read (fuel : Nat) : Blind erase (read fuel) (read fuel) := by
  refine blind_advance.bind fun opening => blind_ident.bind fun name =>
    (blind_readContent fuel name).bind fun content => ?_
  obtain ⟨type, value⟩ := content
  refine .ite ?_ (blind_fail _ _ rfl) ((blind_expectSymbol _).bind fun closing => blind_pure rfl)
  rw [Option.isNone_map]
  rfl

end VariableDecl

private theorem StructDecl.blind_read (fuel : Nat) : Blind erase (read fuel) (read fuel) := by
  refine (blind_expectKeyword _).bind fun opening => blind_ident.bind fun name =>
    (blind_expectSymbol _).bind fun _ => ?_
  refine (blind_upTo .rBrace (Member.blind_read fuel name.name) fuel []).bind fun members => ?_
  refine (blind_expectSymbol _).bind fun closing => blind_pure ?_
  rw [Member.filterMap_property?_erase, Member.filterMap_method?_erase]
  rfl

namespace Import

private theorem blind_readNames (fuel : Nat) :
    Blind (List.map Expr.eraseIdent) (readNames fuel) (readNames fuel) := by
  refine (blind_eat _).bind fun _ => .ite .rfl ?_ (blind_pure rfl)
  refine (blind_upTo .rBrace (fun _ => blind_ident.listed .rBrace) fuel []).bind fun names => ?_
  exact (blind_expectSymbol _).bind fun _ => (blind_expectKeyword _).bind fun _ => blind_pure rfl

private theorem blind_read (fuel : Nat) (nested : Bool) : Blind erase (read fuel nested) (read fuel nested) := by
  refine (blind_expectKeyword _).bind fun opening => .ite .rfl (blind_fail _ _ rfl) ?_
  refine (blind_readNames fuel).bind fun names => (blind_expect _).bind fun path => ?_
  exact (blind_expectSymbol _).bind fun closing => blind_pure rfl

end Import

/-! ### Statements -/

namespace Stmt

private theorem blind_readReturn (fuel : Nat) : Blind erase (readReturn fuel) (readReturn fuel) := by
  refine (blind_expectKeyword _).bind fun opening => (blind_at? _).bind fun _ => .ite .rfl ?_ ?_
  · exact blind_advance.bind fun closing => blind_pure rfl
  · refine (Expr.blind_read fuel _).bind fun value => ?_
    exact (blind_expectSymbol _).bind fun closing => blind_pure rfl

private theorem blind_readExpression (fuel : Nat) : Blind erase (readExpression fuel) (readExpression fuel) := by
  refine (Expr.blind_read fuel _).bind fun e => (blind_expectSymbol _).bind fun closing => blind_pure ?_
  rw [erase, Expr.span_erase]
  rfl

/-- With the given fuel, statements are read without regard to places. -/
private structure BlindReaders (fuel : Nat) : Prop where
  stmt : ∀ nested, Blind erase (Stmt.read fuel nested) (Stmt.read fuel nested)
  block : Blind Block.erase (Block.read fuel) (Block.read fuel)
  branch : Blind IfStmt.erase (IfStmt.read fuel) (IfStmt.read fuel)
  alternate : Blind Alternate.erase (Alternate.read fuel) (Alternate.read fuel)
  function : Blind FunctionDecl.erase (FunctionDecl.read fuel) (FunctionDecl.read fuel)
  whileLoop : Blind erase (readWhile fuel) (readWhile fuel)
  forLoop : Blind erase (readFor fuel) (readFor fuel)
  foreach : Blind erase (readForeach fuel) (readForeach fuel)

namespace BlindReaders

variable {fuel : Nat} (h : BlindReaders fuel)
include h

private theorem stmt_succ (nested : Bool) :
    Blind erase (Stmt.read (fuel + 1) nested) (Stmt.read (fuel + 1) nested) := by
  refine blind_current.bind fun first => ?_
  obtain ⟨kind, text, span⟩ := first
  dsimp only [Token.erase]
  split
  · exact (VariableDecl.blind_read fuel).bind fun d => blind_pure rfl
  · exact (VariableDecl.blind_read fuel).bind fun d => blind_pure rfl
  · exact h.block.bind fun b => blind_pure rfl
  · exact h.branch.bind fun s => blind_pure rfl
  · exact h.function.bind fun d => blind_pure rfl
  · exact blind_readReturn fuel
  · exact (StructDecl.blind_read fuel).bind fun d => blind_pure rfl
  · exact h.whileLoop
  · exact h.forLoop
  · exact h.foreach
  · exact (Import.blind_read fuel nested).bind fun i => blind_pure rfl
  · exact blind_readExpression fuel

private theorem block_succ : Blind Block.erase (Block.read (fuel + 1)) (Block.read (fuel + 1)) := by
  refine (blind_expectSymbol _).bind fun opening => ?_
  refine (blind_upTo .rBrace (fun _ => h.stmt true) fuel []).bind fun statements => ?_
  refine (blind_expectSymbol _).bind fun closing => blind_pure ?_
  rw [Block.erase, Stmt.eraseList_eq]
  rfl

private theorem branch_succ : Blind IfStmt.erase (IfStmt.read (fuel + 1)) (IfStmt.read (fuel + 1)) := by
  refine blind_advance.bind fun opening => (Expr.blind_read fuel _).bind fun condition =>
    h.block.bind fun consequent => ?_
  refine h.alternate.bind fun alternate => blind_pure ?_
  rw [IfStmt.erase, Alternate.spanAfter_erase]
  rfl

private theorem alternate_succ : Blind Alternate.erase (Alternate.read (fuel + 1)) (Alternate.read (fuel + 1)) := by
  refine blind_current.bind fun first => ?_
  obtain ⟨kind, text, span⟩ := first
  dsimp only [Token.erase]
  split
  · exact blind_advance.bind fun _ => h.block.bind fun b => blind_pure rfl
  · exact h.branch.bind fun s => blind_pure rfl
  · exact blind_pure rfl

private theorem function_succ :
    Blind FunctionDecl.erase (FunctionDecl.read (fuel + 1)) (FunctionDecl.read (fuel + 1)) := by
  refine (blind_expectKeyword _).bind fun opening => blind_ident.bind fun name => ?_
  refine (Param.blind_readList fuel).bind fun params => ?_
  refine (Ty.blind_readReturn fuel).bind fun returnType => h.block.bind fun body => blind_pure ?_
  rw [FunctionDecl.erase, Block.span_erase]
  rfl

private theorem whileLoop_succ : Blind erase (readWhile (fuel + 1)) (readWhile (fuel + 1)) := by
  refine (blind_expectKeyword _).bind fun opening => (Expr.blind_read fuel _).bind fun condition => ?_
  refine h.block.bind fun body => ?_
  refine blind_pure ?_
  rw [erase, Block.span_erase]
  rfl

private theorem forLoop_succ : Blind erase (readFor (fuel + 1)) (readFor (fuel + 1)) := by
  refine (blind_expectKeyword _).bind fun opening => blind_ident.bind fun counter =>
    (blind_expectSymbol _).bind fun _ => ?_
  refine (Expr.blind_read fuel _).bind fun init => (blind_expectSymbol _).bind fun _ => ?_
  refine (Expr.blind_read fuel _).bind fun condition => (blind_expectSymbol _).bind fun _ => ?_
  refine (Expr.blind_read fuel _).bind fun post => h.block.bind fun body => blind_pure ?_
  rw [erase, Block.span_erase]
  rfl

private theorem foreach_succ : Blind erase (readForeach (fuel + 1)) (readForeach (fuel + 1)) := by
  unfold readForeach
  refine (blind_expectKeyword _).bind fun opening => blind_ident.bind fun value => ?_
  -- what follows the names is read in the same way with and without a second name
  have hrest (position : Option Ident) : Blind erase
      (do
        let _ ← expectKeyword .inKw
        let iterable ← Expr.read fuel .assignment
        let body ← Block.read fuel
        return Stmt.foreach value position iterable body (opening.span.merge body.span))
      (do
        let _ ← expectKeyword .inKw
        let iterable ← Expr.read fuel .assignment
        let body ← Block.read fuel
        return Stmt.foreach (Expr.eraseIdent value) (position.map Expr.eraseIdent) iterable body
          (opening.erase.span.merge body.span)) := by
    refine (blind_expectKeyword _).bind fun _ => (Expr.blind_read fuel _).bind fun iterable => ?_
    refine h.block.bind fun body => blind_pure ?_
    rw [erase, Block.span_erase]
    rfl
  have hsecond : Blind (Option.map Expr.eraseIdent) (some <$> Reader.ident) (some <$> Reader.ident) :=
    blind_ident.bind fun id => blind_pure rfl
  have hnone : Blind (Option.map Expr.eraseIdent) (pure none) (pure none) := blind_pure rfl
  exact (blind_eat _).bind fun _ => .ite .rfl (hsecond.bind hrest) (hnone.bind hrest)

end BlindReaders

/-- Statements are read without regard to places, by induction on the fuel. -/
private theorem blindReaders (fuel : Nat) : BlindReaders fuel := by
  induction fuel with
  | zero =>
    constructor
    · exact fun _ => blind_exhausted
    all_goals exact blind_exhausted
  | succ fuel ih =>
    constructor
    · exact ih.stmt_succ
    · exact ih.block_succ
    · exact ih.branch_succ
    · exact ih.alternate_succ
    · exact ih.function_succ
    · exact ih.whileLoop_succ
    · exact ih.forLoop_succ
    · exact ih.foreach_succ

end Stmt

/-! ### Programs -/

namespace Program

def Draft.erase (draft : Draft) : Draft :=
  ⟨draft.name.map Expr.eraseIdent, draft.imports.map Import.erase, draft.contents.map Stmt.erase⟩

private theorem Draft.add_erase (draft : Draft) (s : Stmt) : draft.erase.add s.erase = (draft.add s).erase := by
  cases s <;> rfl

private theorem atModule_erase (c : Cursor) : atModule c.erase = atModule c := by
  unfold atModule
  rw [Cursor.startsWith_erase]
  rfl

private theorem blind_readModule (draft : Draft) :
    Blind Draft.erase (readModule draft) (readModule draft.erase) := by
  refine blind_advance.bind fun _ => blind_ident.bind fun name => (blind_expectSymbol _).bind fun _ => ?_
  obtain ⟨previous, imports, contents⟩ := draft
  cases previous with
  | some previous => exact blind_fail _ _ rfl
  | none => exact blind_pure rfl

private theorem blind_readDraft (fuel : Nat) (draft : Draft) :
    Blind Draft.erase (readDraft fuel draft) (readDraft fuel draft.erase) := by
  induction fuel generalizing draft with
  | zero => exact blind_exhausted
  | succ fuel ih =>
    refine blind_cursor.bind fun c => .ite .rfl (blind_pure rfl) (.ite (by rw [atModule_erase]) ?_ ?_)
    · exact (blind_readModule draft).bind fun draft => ih draft
    · refine ((Stmt.blindReaders fuel).stmt false).bind fun s => ?_
      rw [Draft.add_erase]
      exact ih (draft.add s)

private theorem blind_read (fuel : Nat) (file : String) : Blind erase (read fuel file) (read fuel file) := by
  refine blind_current.bind fun first => (blind_readDraft fuel ⟨none, [], []⟩).bind fun draft => ?_
  refine blind_lastSpan.bind fun last => blind_pure ?_
  obtain ⟨name, imports, contents⟩ := draft
  cases name <;> simp [erase, Draft.erase, Token.erase, Expr.eraseIdent]

end Program

/-- What has been read, without places. -/
def Parsed.erase (p : Parsed) : Parsed := ⟨p.program.erase, p.warnings.map SyntaxWarning.erase⟩

/-- The fault without its place.  A fault of the text itself is left as it is. -/
def ParseError.erase : ParseError → ParseError
  | lexical e => lexical e
  | grammar e => grammar e.erase
  | unfinished => unfinished

/-- Tokens without places are read as the tokens are. -/
theorem Program.ofTokens_erase (tokens : List Token) (file : String) :
    ofTokens (tokens.map Token.erase) file =
      ((ofTokens tokens file).map Parsed.erase).mapError ParseError.erase := by
  have hread := blind_read (fuelFor tokens.length) file (Cursor.ofTokens tokens)
  unfold ofTokens
  rw [List.length_map, Cursor.ofTokens_erase, hread]
  cases read (fuelFor tokens.length) file (Cursor.ofTokens tokens) with
  | done program c =>
    have hwarnings : (c.warnings.map SyntaxWarning.erase).reverse = c.warnings.reverse.map SyntaxWarning.erase :=
      List.map_reverse.symm
    exact congrArg (fun warnings => Except.ok (Parsed.mk program.erase warnings)) hwarnings
  | failed e => rfl
  | exhausted => rfl

end BraceScript
