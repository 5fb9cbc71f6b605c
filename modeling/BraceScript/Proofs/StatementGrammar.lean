import BraceScript.Proofs.Grammar
import BraceScript.Syntax.Program

/-!
# The grammar of statements and programs

The grammar of expressions (`Derives`) goes on here with types, declarations, statements and programs.  The forms of
statements refer to each other through blocks, so `Forms t p` says for any kind of phrase that the tokens `t` form
it; a program is a sequence of entries, each of them a statement or a declaration of the module's name
(`Program.Forms`).  What a reader has to check besides the order of the tokens is part of the grammar: names of one
list are different, a constant has a value, imports stand outside of blocks.

The lemmas are about the tokens with which expressions and statements begin.
-/

namespace BraceScript

@[simp] theorem Token.name_toIdent (token : Token) : token.toIdent.name = token.text := rfl

/-! ### Types -/

/-- The given number of pairs of brackets. -/
inductive Brackets : Nat → List Token → Prop where
  | nil : Brackets 0 []
  | cons {n : Nat} {opening closing : Token} {t : List Token} (hopening : opening.kind = .symbol .lBracket)
      (hclosing : closing.kind = .symbol .rBracket) (h : Brackets n t) : Brackets (n + 1) (opening :: closing :: t)

/-- A token and the type that it names.  A name that is no type means `null`. -/
inductive Token.NamesType : Token → Ty → Prop where
  | name {token : Token} (hk : token.kind = .ident) : NamesType token ((Ty.ofName? token.text).getD .null)
  | null {token : Token} (hk : token.kind = .keyword .nullKw) : NamesType token .null

namespace Ty

/-- The type of arrays of arrays, `n` deep. -/
def nest : Nat → Ty → Ty
  | 0, t => t
  | n + 1, t => array (nest n t)

/-- Type annotations: each pair of brackets before or after the name makes an array type. -/
inductive Forms : List Token → Ty → Prop where
  | mk {m n : Nat} {before after : List Token} {base : Token} {type : Ty} (hbefore : Brackets m before)
      (hbase : base.NamesType type) (hafter : Brackets n after) : Forms (before ++ base :: after) (type.nest (m + n))

/-- What follows the parameters: an arrow and a type, or nothing. -/
inductive FormsReturn : List Token → Ty → Prop where
  | nothing : FormsReturn [] .void
  | arrow {arrow : Token} {t : List Token} {type : Ty} (harrow : arrow.kind = .symbol .arrow) (h : Forms t type) :
      FormsReturn (arrow :: t) type

end Ty

/-! ### Declarations -/

/-- A parameter with the type that its tokens form. -/
structure ParamItem where
  name : Token
  colon : Token
  tokens : List Token
  type : Ty

namespace ParamItem

/-- All tokens of the parameter. -/
def all (i : ParamItem) : List Token := i.name :: i.colon :: i.tokens

/-- The parameter of the tree. -/
def param (i : ParamItem) : Param := ⟨i.name.toIdent, i.type⟩

structure Proper (i : ParamItem) : Prop where
  name : i.name.kind = .ident
  colon : i.colon.kind = .symbol .colon
  type : Ty.Forms i.tokens i.type

end ParamItem

/-- A parameter list with its parentheses. -/
inductive Param.Forms : List Token → List Param → Prop where
  | mk {opening closing : Token} {tokens : List Token} {items : List ParamItem}
      (hopening : opening.kind = .symbol .lParen)
      (hlist : Listed (items.map (·.all)) tokens) (hitems : ∀ i ∈ items, i.Proper)
      (hdistinct : (items.map (·.param.name.name)).Nodup) (hclosing : closing.kind = .symbol .rParen) :
      Forms (opening :: (tokens ++ [closing])) (items.map (·.param))

/-- A reserved word that may be left out. -/
inductive Flag (k : Keyword) : Bool → List Token → Prop where
  | absent : Flag k false []
  | present {token : Token} (hk : token.kind = .keyword k) : Flag k true [token]

/-- The visibility that an access modifier stands for. -/
def Token.visibility (token : Token) : Visibility := if token.text = "pub" then .isPublic else .isPrivate

/-- The members of structs. -/
inductive Member.Forms : List Token → Member → Prop where
  | property {access name colon semicolon : Token} {static locked t : List Token}
      {isStatic isReadonly : Bool} {type : Ty}
      (haccess : access.kind = .keyword .access) (hstatic : Flag .staticKw isStatic static)
      (hreadonly : Flag .readonly isReadonly locked) (hname : name.kind = .ident)
      (hcolon : colon.kind = .symbol .colon) (htype : Ty.Forms t type)
      (hsemicolon : semicolon.kind = .symbol .semicolon) :
      Forms (access :: (static ++ (locked ++ name :: colon :: (t ++ [semicolon]))))
        (.property ⟨name.toIdent, access.visibility, isStatic, isReadonly, type⟩)
  | method {access name semicolon : Token} {static locked t u : List Token} {isStatic isReadonly : Bool}
      {params : List Param} {type : Ty}
      (haccess : access.kind = .keyword .access) (hstatic : Flag .staticKw isStatic static)
      (hreadonly : Flag .readonly isReadonly locked) (hname : name.kind = .ident) (hparams : Param.Forms t params)
      (hreturn : Ty.FormsReturn u type) (hsemicolon : semicolon.kind = .symbol .semicolon) :
      Forms (access :: (static ++ (locked ++ name :: (t ++ (u ++ [semicolon])))))
        (.method ⟨name.toIdent, access.visibility, isStatic, params, type⟩)

inductive StructDecl.Forms : List Token → StructDecl → Prop where
  | mk {opening name brace closing : Token} {items : List (List Token × Member)}
      (hopening : opening.kind = .keyword .structKw) (hname : name.kind = .ident)
      (hbrace : brace.kind = .symbol .lBrace)
      (hitems : ∀ i ∈ items, Member.Forms i.1 i.2) (hdistinct : (items.map (·.2.name)).Nodup)
      (hclosing : closing.kind = .symbol .rBrace) :
      Forms (opening :: name :: brace :: (items.flatMap (·.1) ++ [closing]))
        ⟨name.toIdent, (items.map (·.2)).filterMap Member.property?, (items.map (·.2)).filterMap Member.method?,
          opening.span.merge closing.span⟩

/-- The imported names in braces, with the word after them. -/
inductive Import.FormsNames : List Token → List Ident → Prop where
  | nothing : FormsNames [] []
  | names {opening closing word : Token} {tokens names : List Token} (hopening : opening.kind = .symbol .lBrace)
      (hlist : Listed (names.map ([·])) tokens) (hnames : ∀ name ∈ names, name.kind = .ident)
      (hclosing : closing.kind = .symbol .rBrace) (hword : word.kind = .keyword .fromKw) :
      FormsNames (opening :: (tokens ++ [closing, word])) (names.map Token.toIdent)

inductive Import.Forms : List Token → Import → Prop where
  | mk {opening path semicolon : Token} {t : List Token} {names : List Ident}
      (hopening : opening.kind = .keyword .importKw)
      (hnames : Import.FormsNames t names) (hpath : path.kind = .string)
      (hsemicolon : semicolon.kind = .symbol .semicolon) :
      Forms (opening :: (t ++ [path, semicolon]))
        ⟨⟨path.text, path.span⟩, names, opening.span.merge semicolon.span⟩

namespace VariableDecl

/-- The type and the value of a declaration, of which at least one is given. -/
inductive FormsContent : List Token → Option Ty → Option Expr → Prop where
  | typed {colon : Token} {t : List Token} {type : Ty} (hcolon : colon.kind = .symbol .colon) (htype :
      Ty.Forms t type) :
      FormsContent (colon :: t) (some type) none
  | full {colon mark : Token} {t u : List Token} {type : Ty} {e : Expr} (hcolon : colon.kind = .symbol .colon)
      (htype : Ty.Forms t type) (hmark : mark.kind = .symbol .assign) (hvalue : Derives .logical u e) :
      FormsContent (colon :: (t ++ mark :: u)) (some type) (some e)
  | inferred {mark : Token} {t : List Token} {e : Expr} (hmark : mark.kind = .symbol .define)
      (hvalue : Derives .logical t e) : FormsContent (mark :: t) none (some e)

/-- A declaration of a variable or a constant; a constant has a value. -/
inductive Forms : List Token → VariableDecl → Prop where
  | mk {opening name semicolon : Token} {t : List Token} {type : Option Ty} {value : Option Expr}
      (hopening : opening.kind = .keyword .letKw ∨ opening.kind = .keyword .constKw) (hname : name.kind = .ident)
      (hcontent : FormsContent t type value) (hconstant : opening.kind = .keyword .constKw → value.isSome = true)
      (hsemicolon : semicolon.kind = .symbol .semicolon) :
      Forms (opening :: name :: (t ++ [semicolon]))
        ⟨name.toIdent, opening.kind == .keyword .constKw, type, value, opening.span.merge semicolon.span⟩

end VariableDecl

/-! ### Statements -/

/-- The kinds of phrases that refer to each other. -/
inductive Phrase where
  /-- A statement; `nested` says whether it stands inside a block. -/
  | statement (nested : Bool) (s : Stmt)
  /-- The statements of a block. -/
  | sequence (ss : List Stmt)
  | block (b : Block)
  | conditional (s : IfStmt)
  | alternate (a : Alternate)

/-- The name that may follow the first one of a `foreach`. -/
inductive FormsPosition : List Token → Option Ident → Prop where
  | nothing : FormsPosition [] none
  | name {comma name : Token} (hcomma : comma.kind = .symbol .comma) (hname : name.kind = .ident) :
      FormsPosition [comma, name] (some name.toIdent)

/-- The tokens form the phrase. -/
inductive Forms : List Token → Phrase → Prop where
  | expression {nested : Bool} {semicolon : Token} {t : List Token} {e : Expr} (h : Derives .assignment t e)
      (hsemicolon : semicolon.kind = .symbol .semicolon) :
      Forms (t ++ [semicolon]) (.statement nested (.expression e (e.span.merge semicolon.span)))
  | declare {nested : Bool} {t : List Token} {d : VariableDecl} (h : VariableDecl.Forms t d) :
      Forms t (.statement nested (.declare d))
  | struct {nested : Bool} {t : List Token} {d : StructDecl} (h : StructDecl.Forms t d) :
      Forms t (.statement nested (.struct d))
  | imports {t : List Token} {i : Import} (h : Import.Forms t i) : Forms t (.statement false (.imports i))
  | leave {nested : Bool} {opening semicolon : Token} (hopening : opening.kind = .keyword .ret)
      (hsemicolon : semicolon.kind = .symbol .semicolon) :
      Forms [opening, semicolon] (.statement nested (.ret none (opening.span.merge semicolon.span)))
  | answer {nested : Bool} {opening semicolon : Token} {t : List Token} {e : Expr}
      (hopening : opening.kind = .keyword .ret)
      (h : Derives .assignment t e) (hsemicolon : semicolon.kind = .symbol .semicolon) :
      Forms (opening :: (t ++ [semicolon])) (.statement nested (.ret (some e) (opening.span.merge semicolon.span)))
  | inBlock {nested : Bool} {t : List Token} {b : Block} (h : Forms t (.block b)) :
      Forms t (.statement nested (.block b))
  | branch {nested : Bool} {opening : Token} {t : List Token} {s : IfStmt} (hopening : opening.kind = .keyword .ifKw)
      (h : Forms (opening :: t) (.conditional s)) : Forms (opening :: t) (.statement nested (.branch s))
  | function {nested : Bool} {opening name : Token} {t u v : List Token} {params : List Param}
      {type : Ty} {b : Block}
      (hopening : opening.kind = .keyword .fnKw) (hname : name.kind = .ident) (hparams : Param.Forms t params)
      (hreturn : Ty.FormsReturn u type) (h : Forms v (.block b)) :
      Forms (opening :: name :: (t ++ (u ++ v)))
        (.statement nested (.function ⟨name.toIdent, params, type, b, opening.span.merge b.span⟩))
  | whileLoop {nested : Bool} {opening : Token} {t u : List Token} {e : Expr} {b : Block}
      (hopening : opening.kind = .keyword .whileKw) (hcondition : Derives .logical t e) (h : Forms u (.block b)) :
      Forms (opening :: (t ++ u)) (.statement nested (.whileLoop e b (opening.span.merge b.span)))
  | forLoop {nested : Bool} {opening name mark semicolon₁ semicolon₂ : Token}
      {t₁ t₂ t₃ u : List Token} {e₁ e₂ e₃ : Expr} {b : Block}
      (hopening : opening.kind = .keyword .forKw) (hname : name.kind = .ident)
      (hmark : mark.kind = .symbol .define) (hinit : Derives .logical t₁ e₁)
      (hsemicolon₁ : semicolon₁.kind = .symbol .semicolon) (hcondition : Derives .assignment t₂ e₂)
      (hsemicolon₂ : semicolon₂.kind = .symbol .semicolon) (hpost : Derives .assignment t₃ e₃)
      (h : Forms u (.block b)) :
      Forms (opening :: name :: mark :: (t₁ ++ semicolon₁ :: (t₂ ++ semicolon₂ :: (t₃ ++ u))))
        (.statement nested (.forLoop name.toIdent e₁ e₂ e₃ b (opening.span.merge b.span)))
  | foreach {nested : Bool} {opening name word : Token} {t u v : List Token} {position : Option Ident}
      {e : Expr} {b : Block}
      (hopening : opening.kind = .keyword .foreachKw) (hname : name.kind = .ident)
      (hposition : FormsPosition t position)
      (hword : word.kind = .keyword .inKw) (hiterable : Derives .logical u e) (h : Forms v (.block b)) :
      Forms (opening :: name :: (t ++ word :: (u ++ v)))
        (.statement nested (.foreach name.toIdent position e b (opening.span.merge b.span)))
  | nil : Forms [] (.sequence [])
  | cons {t u : List Token} {s : Stmt} {ss : List Stmt} (h : Forms t (.statement true s)) (h' :
      Forms u (.sequence ss)) :
      Forms (t ++ u) (.sequence (s :: ss))
  | block {opening closing : Token} {t : List Token} {ss : List Stmt} (hopening : opening.kind = .symbol .lBrace)
      (h : Forms t (.sequence ss)) (hclosing : closing.kind = .symbol .rBrace) :
      Forms (opening :: (t ++ [closing])) (.block ⟨ss, opening.span.merge closing.span⟩)
  | conditional {opening : Token} {t u v : List Token} {e : Expr} {b : Block} {a : Alternate}
      (hopening : opening.kind = .keyword .ifKw ∨ opening.kind = .keyword .elfKw) (hcondition : Derives .logical t e)
      (h : Forms u (.block b)) (h' : Forms v (.alternate a)) :
      Forms (opening :: (t ++ (u ++ v))) (.conditional ⟨e, b, a, opening.span.merge (a.spanAfter b)⟩)
  | nothing : Forms [] (.alternate .nothing)
  | elseIf {opening : Token} {t : List Token} {s : IfStmt} (hopening : opening.kind = .keyword .elfKw)
      (h : Forms (opening :: t) (.conditional s)) : Forms (opening :: t) (.alternate (.elseIf s))
  | otherwise {opening : Token} {t : List Token} {b : Block} (hopening : opening.kind = .keyword .elsKw)
      (h : Forms t (.block b)) : Forms (opening :: t) (.alternate (.otherwise b))

/-! ### Programs -/

namespace Program

/-- What a program consists of. -/
inductive Entry where
  | module (name : Ident)
  | statement (s : Stmt)

namespace Entry

/-- The declared name of the module. -/
def module? : Entry → Option Ident
  | module name => some name
  | statement _ => none

def import? : Entry → Option Import
  | statement (.imports i) => some i
  | _ => none

/-- The statement that is no import. -/
def content? : Entry → Option Stmt
  | statement (.imports _) => none
  | statement s => some s
  | module _ => none

end Entry

/-- The tokens form the entries one after another. -/
inductive Forms : List Token → List Entry → Prop where
  | nil : Forms [] []
  | module {word name semicolon : Token} {t : List Token} {entries : List Entry} (hword : word.kind = .ident)
      (htext : word.text = "module") (hname : name.kind = .ident) (hsemicolon : semicolon.kind = .symbol .semicolon)
      (h : Forms t entries) : Forms (word :: name :: semicolon :: t) (.module name.toIdent :: entries)
  | statement {t u : List Token} {s : Stmt} {entries : List Entry} (h : BraceScript.Forms t (.statement false s))
      (h' : Forms u entries) : Forms (t ++ u) (.statement s :: entries)

/-- Entries in a row are formed by their tokens in a row. -/
theorem Forms.append {t u : List Token} {entries entries' : List Entry} (h : Forms t entries)
    (h' : Forms u entries') : Forms (t ++ u) (entries ++ entries') := by
  induction h with
  | nil => exact h'
  | module hword htext hname hsemicolon _ ih => exact .module hword htext hname hsemicolon ih
  | @statement t v s entries h _ ih =>
    rw [List.append_assoc]
    exact .statement h ih

end Program

/-! ### First tokens -/

/-- If the tokens begin with a name, they go on with a symbol other than a colon. -/
def GoesOn (t : List Token) : Prop :=
  ∀ a b rest, t = a :: b :: rest → a.kind = .ident → ∃ s : Symbol, b.kind = .symbol s ∧ s ≠ .colon

namespace GoesOn

variable {t u : List Token} {first mark : Token} {s : Symbol}

private theorem singleton (first : Token) : GoesOn [first] := by
  rintro a b rest ⟨⟩

theorem of_ne (h : first.kind ≠ .ident) : GoesOn (first :: t) := by
  intro a b rest heq ha
  obtain ⟨rfl, -⟩ := List.cons.inj heq
  exact absurd ha h

private theorem append (h : GoesOn t) (hne : t ≠ []) (hmark : mark.kind = .symbol s) (hs : s ≠ .colon) :
    GoesOn (t ++ mark :: u) := by
  intro a b rest heq ha
  cases t with
  | nil => exact absurd rfl hne
  | cons x t =>
    obtain ⟨rfl, hrest⟩ := List.cons.inj heq
    cases t with
    | nil =>
      obtain ⟨rfl, -⟩ := List.cons.inj hrest
      exact ⟨s, hmark, hs⟩
    | cons y t =>
      obtain ⟨rfl, -⟩ := List.cons.inj hrest
      exact h x y t rfl ha

end GoesOn

private theorem BinaryOp.mark_ne_colon (op : BinaryOp) : op.mark ≠ .colon := by
  rcases op with op | op | _ | _ | _ | _ | _ <;> first | decide | (cases op <;> decide)

private theorem AssignOp.mark_ne_colon (op : AssignOp) : op.mark ≠ .colon := by
  rcases op with _ | op
  · decide
  · cases op <;> decide

private theorem Derives.goesOn {l : Level} {t : List Token} {e : Expr} (h : Derives l t e) : GoesOn t := by
  induction h with
  | inner _ _ ih => exact ih
  | assign h _ hmark _ ih _ => exact ih.append h.ne_nil hmark (AssignOp.mark_ne_colon _)
  | binary _ _ h hmark _ ih _ => exact ih.append h.ne_nil hmark (BinaryOp.mark_ne_colon _)
  | before hmark => exact .of_ne (by rw [hmark]; nofun)
  | property h hdot _ ih => exact ih.append h.ne_nil hdot nofun
  | call h hopening _ _ _ ih _ =>
    rw [List.append_assoc]
    exact ih.append h.ne_nil hopening nofun
  | @after _ _ op _ h hop hmark ih =>
    exact ih.append h.ne_nil hmark (by rcases hop with rfl | rfl <;> decide)
  | index h hopening _ _ ih _ =>
    rw [List.append_assoc]
    exact ih.append h.ne_nil hopening nofun
  | literal | name => exact .singleton _
  | paren hopening | array hopening => exact .of_ne (by rw [hopening]; nofun)
  | build _ hopening =>
    intro a b rest heq _
    obtain ⟨rfl, hrest⟩ := List.cons.inj heq
    obtain ⟨rfl, -⟩ := List.cons.inj hrest
    exact ⟨_, hopening, nofun⟩

/-- Whether a statement can start with a token of this kind. -/
def Kind.startsStmt : Kind → Bool
  | keyword .letKw | keyword .constKw | keyword .ifKw | keyword .fnKw | keyword .ret | keyword .structKw
  | keyword .whileKw | keyword .forKw | keyword .foreachKw | keyword .importKw | symbol .lBrace => true
  | kind => kind.startsExpr

private theorem Kind.startsStmt_of_startsExpr {kind : Kind} (h : kind.startsExpr = true) :
    kind.startsStmt = true := by
  unfold startsStmt
  split
  all_goals first | rfl | exact h

/-- The first token of a statement, which goes on as an expression does if it begins with a name. -/
theorem Forms.starts {t : List Token} {nested : Bool} {s : Stmt} (h : Forms t (.statement nested s)) :
    (∀ more, GoesOn (t ++ more)) ∧ ∃ token rest, t = token :: rest ∧ token.kind.startsStmt = true := by
  have hfirst {token : Token} {rest : List Token} {kind : Kind} (hk : token.kind = kind)
      (hstarts : kind.startsStmt = true)
      (hne : kind ≠ .ident) : (∀ more, GoesOn (token :: rest ++ more)) ∧
        ∃ token' rest', token :: rest = token' :: rest' ∧ token'.kind.startsStmt = true :=
    ⟨fun _ => .of_ne (by rwa [hk]), token, rest, rfl, by rwa [hk]⟩
  cases h with
  | expression h hsemicolon =>
    refine ⟨fun more => ?_, ?_⟩
    · rw [List.append_assoc]
      exact h.goesOn.append h.ne_nil hsemicolon nofun
    · obtain ⟨token, rest, rfl, hk⟩ := h.starts
      exact ⟨token, _, rfl, Kind.startsStmt_of_startsExpr hk⟩
  | declare h =>
    cases h with
    | mk hopening =>
      rcases hopening with hopening | hopening
      · exact hfirst hopening rfl nofun
      · exact hfirst hopening rfl nofun
  | struct h =>
    cases h with
    | mk hopening => exact hfirst hopening rfl nofun
  | imports h =>
    cases h with
    | mk hopening => exact hfirst hopening rfl nofun
  | inBlock h =>
    cases h with
    | block hopening => exact hfirst hopening rfl nofun
  | leave hopening | answer hopening | branch hopening | function hopening | whileLoop hopening | forLoop hopening
  | foreach hopening => exact hfirst hopening rfl nofun

end BraceScript
