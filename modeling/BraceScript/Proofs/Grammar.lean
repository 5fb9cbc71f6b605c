import BraceScript.Syntax.Expression

/-!
# The grammar of expressions

`Derives l t e` says that the tokens `t` form an expression of the level `l` and that `e` is its tree.  The levels
are the nonterminals of the grammar.  An expression of one level is one of the next tighter level, or an operator of
the level applied to operands: binary operators group to the left, assignments to the right, and a name in brackets
counts as a name.  Nothing here speaks about the way an expression is read.

The lemmas of this module are about the order of the levels (`Derives.loosen`) and about the tokens that can occur in
an expression (`Derives.plain`).
-/

namespace BraceScript

/-! ### Levels and operators -/

/-- The levels of the grammar, weakest first. -/
inductive Level where
  | assignment | logical | relational | additive | multiplicative | prefixed | suffixed | primary
deriving DecidableEq

/-- The next tighter level. -/
def Level.inner? : Level → Option Level
  | assignment => some logical
  | logical => some relational
  | relational => some additive
  | additive => some multiplicative
  | multiplicative => some prefixed
  | prefixed => some suffixed
  | suffixed => some primary
  | primary => none

/-- The symbol of a unary operator. -/
def UnaryOp.mark : UnaryOp → Symbol
  | plus => .plus
  | minus => .minus
  | not => .not
  | increment => .plusPlus
  | decrement => .minusMinus

namespace BinaryOp

/-- The symbol of a binary operator. -/
def mark : BinaryOp → Symbol
  | arith .add => .plus
  | arith .sub => .minus
  | arith .mul => .star
  | arith .div => .slash
  | arith .mod => .percent
  | compare .less => .less
  | compare .lessEqual => .lessEquals
  | compare .greater => .greater
  | compare .greaterEqual => .greaterEquals
  | equal => .equals
  | notEqual => .notEquals
  | and => .and
  | or => .or
  | range => .dotDot

/-- The level of a binary operator. -/
def level : BinaryOp → Level
  | and | or | range => .logical
  | compare _ | equal | notEqual => .relational
  | arith .add | arith .sub => .additive
  | arith .mul | arith .div | arith .mod => .multiplicative

end BinaryOp

/-- The symbol of an assignment. -/
def AssignOp.mark : AssignOp → Symbol
  | set => .assign
  | update .add => .plusAssign
  | update .sub => .minusAssign
  | update .mul => .starAssign
  | update .div => .slashAssign
  | update .mod => .percentAssign

/-! ### Trees of token sequences -/

/-- The identifier that a token spells. -/
def Token.toIdent (token : Token) : Ident := ⟨token.text, token.span⟩

/-- A token and the literal it stands for.  A whole number has to be in the range of the widest signed type, and
takes the narrowest type that holds it. -/
inductive Token.Denotes : Token → Literal → Prop where
  | integer {token : Token} {n : Nat} (hk : token.kind = .number) (hpoint : '.' ∉ token.text.toList)
      (hn : Numeral.natural? token.text.toList = some n) (hmax : n ≤ 170141183460469231731687303715884105727) :
      Denotes token (.integer n (.narrowest n))
  | float {token : Token} {x : Float} (hk : token.kind = .number) (hpoint : '.' ∈ token.text.toList)
      (hx : Numeral.float? token.text = some x) : Denotes token (.float x (.ofLiteral token.text x))
  | string {token : Token} (hk : token.kind = .string) : Denotes token (.string token.text)
  | character {token : Token} (hk : token.kind = .char) :
      Denotes token (.character (token.text.toList.headD '\x00'))
  | isTrue {token : Token} (hk : token.kind = .keyword .trueKw) : Denotes token (.boolean true)
  | isFalse {token : Token} (hk : token.kind = .keyword .falseKw) : Denotes token (.boolean false)
  | null {token : Token} (hk : token.kind = .keyword .nullKw) : Denotes token .null

/-- The tokens of a list: the items with commas between them, and possibly one more comma after the last item. -/
inductive Listed : List (List Token) → List Token → Prop where
  | nil : Listed [] []
  | last (item : List Token) : Listed [item] item
  | cons (item : List Token) {comma : Token} {items : List (List Token)} {tokens : List Token}
      (hcomma : comma.kind = .symbol .comma) (h : Listed items tokens) :
      Listed (item :: items) (item ++ comma :: tokens)

/-- An item of a list with its tree. -/
structure ListItem where
  tokens : List Token
  tree : Expr

/-- A field of a struct literal with the tree of its value. -/
structure FieldItem where
  name : Token
  colon : Token
  value : List Token
  tree : Expr

namespace FieldItem

/-- All tokens of the field. -/
def tokens (f : FieldItem) : List Token := f.name :: f.colon :: f.value

/-- The field of the tree. -/
def field (f : FieldItem) : Ident × Expr := (f.name.toIdent, f.tree)

end FieldItem

/-- The tokens `t` form an expression of the level `l` with the tree `e`. -/
inductive Derives : Level → List Token → Expr → Prop where
  | inner {l m : Level} {t : List Token} {e : Expr} (hm : l.inner? = some m) (h : Derives m t e) : Derives l t e
  | assign {target value : List Token} {mark : Token} {op : AssignOp} {e₁ e₂ : Expr}
      (h₁ : Derives .logical target e₁) (ht : e₁.isAssignable = true) (hmark : mark.kind = .symbol op.mark)
      (h₂ : Derives .assignment value e₂) :
      Derives .assignment (target ++ mark :: value) (.assign e₁ ⟨op, mark.span⟩ e₂ (e₁.span.merge e₂.span))
  | binary {l m : Level} {left right : List Token} {mark : Token} {op : BinaryOp} {e₁ e₂ : Expr}
      (hl : op.level = l) (hm : l.inner? = some m) (h₁ : Derives l left e₁) (hmark : mark.kind = .symbol op.mark)
      (h₂ : Derives m right e₂) :
      Derives l (left ++ mark :: right) (.binary ⟨op, mark.span⟩ e₁ e₂ (e₁.span.merge e₂.span))
  | before {operand : List Token} {mark : Token} {op : UnaryOp} {e : Expr} (hmark : mark.kind = .symbol op.mark)
      (h : Derives .prefixed operand e) :
      Derives .prefixed (mark :: operand) (.unary ⟨op, mark.span⟩ e .before (mark.span.merge e.span))
  | property {object : List Token} {dot name : Token} {e : Expr} (h : Derives .suffixed object e)
      (hdot : dot.kind = .symbol .dot) (hname : name.kind = .ident) :
      Derives .suffixed (object ++ [dot, name]) (.property e name.toIdent (e.span.merge name.span))
  | call {callee tokens : List Token} {opening closing : Token} {id : Ident} {arguments : List ListItem}
      (h : Derives .suffixed callee (.ident id)) (hopening : opening.kind = .symbol .lParen)
      (hlist : Listed (arguments.map (·.tokens)) tokens)
      (hitems : ∀ a ∈ arguments, Derives .assignment a.tokens a.tree) (hclosing : closing.kind = .symbol .rParen) :
      Derives .suffixed (callee ++ opening :: tokens ++ [closing])
        (.call id (arguments.map (·.tree)) (id.span.merge closing.span))
  | after {operand : List Token} {mark : Token} {op : UnaryOp} {id : Ident}
      (h : Derives .suffixed operand (.ident id)) (hop : op = .increment ∨ op = .decrement)
      (hmark : mark.kind = .symbol op.mark) :
      Derives .suffixed (operand ++ [mark]) (.unary ⟨op, mark.span⟩ (.ident id) .after (id.span.merge mark.span))
  | index {base position : List Token} {opening closing : Token} {id : Ident} {e : Expr}
      (h : Derives .suffixed base (.ident id)) (hopening : opening.kind = .symbol .lBracket)
      (hposition : Derives .assignment position e) (hclosing : closing.kind = .symbol .rBracket) :
      Derives .suffixed (base ++ opening :: position ++ [closing]) (.index id e (id.span.merge closing.span))
  | literal {token : Token} {value : Literal} (h : token.Denotes value) :
      Derives .primary [token] (.literal value token.span)
  | name {token : Token} (h : token.kind = .ident) : Derives .primary [token] (.ident token.toIdent)
  | paren {tokens : List Token} {opening closing : Token} {e : Expr} (hopening : opening.kind = .symbol .lParen)
      (h : Derives .assignment tokens e) (hclosing : closing.kind = .symbol .rParen) :
      Derives .primary (opening :: tokens ++ [closing]) e
  | array {tokens : List Token} {opening closing : Token} {elements : List ListItem}
      (hopening : opening.kind = .symbol .lBracket) (hlist : Listed (elements.map (·.tokens)) tokens)
      (hitems : ∀ a ∈ elements, Derives .assignment a.tokens a.tree) (hclosing : closing.kind = .symbol .rBracket) :
      Derives .primary (opening :: tokens ++ [closing])
        (.array (elements.map (·.tree)) elements.length (opening.span.merge closing.span))
  | build {tokens : List Token} {name opening closing : Token} {fields : List FieldItem} (hname : name.kind = .ident)
      (hopening : opening.kind = .symbol .lBrace) (hlist : Listed (fields.map (·.tokens)) tokens)
      (hsome : fields ≠ []) (hdistinct : (fields.map (·.name.text)).Nodup)
      (hnames : ∀ f ∈ fields, f.name.kind = .ident ∧ f.colon.kind = .symbol .colon)
      (hvalues : ∀ f ∈ fields, Derives .assignment f.value f.tree) (hclosing : closing.kind = .symbol .rBrace) :
      Derives .primary (name :: opening :: tokens ++ [closing])
        (.build name.toIdent (fields.map (·.field)) (name.span.merge closing.span))

/-! ### The order of the levels -/

/-- The number of weaker levels. -/
def Level.depth : Level → Nat
  | assignment => 0
  | logical => 1
  | relational => 2
  | additive => 3
  | multiplicative => 4
  | prefixed => 5
  | suffixed => 6
  | primary => 7

theorem Level.inner?_depth {l m : Level} (h : l.inner? = some m) : m.depth = l.depth + 1 := by
  cases l with
  | primary => cases h
  | _ =>
    obtain rfl := Option.some.inj h
    rfl

theorem BinaryOp.level_depth (op : BinaryOp) : 1 ≤ op.level.depth ∧ op.level.depth ≤ 4 := by
  rcases op with op | op | _ | _ | _ | _ | _ <;> first | decide | (cases op <;> decide)

private theorem Level.exists_inner {l m : Level} (h : l.depth < m.depth) : ∃ k, l.inner? = some k := by
  cases l with
  | primary => cases m <;> exact absurd h (by decide)
  | _ => exact ⟨_, rfl⟩

theorem BinaryOp.exists_inner (op : BinaryOp) : ∃ m, op.level.inner? = some m := by
  have hdepth := op.level_depth
  exact Level.exists_inner (m := .primary) (by change op.level.depth < 7; omega)

private theorem Level.depth_injective {l m : Level} (h : l.depth = m.depth) : l = m := by
  cases l <;> cases m <;> first | rfl | exact absurd h (by decide)

namespace Derives

variable {l m : Level} {t : List Token} {e : Expr}

/-- An expression of a level is one of every weaker level. -/
theorem loosen (h : Derives m t e) (hle : l.depth ≤ m.depth) : Derives l t e := by
  obtain ⟨n, hn⟩ : ∃ n, m.depth = l.depth + n := ⟨m.depth - l.depth, by omega⟩
  induction n generalizing l with
  | zero =>
    obtain rfl := Level.depth_injective hn
    exact h
  | succ n ih =>
    obtain ⟨k, hk⟩ := Level.exists_inner (l := l) (m := m) (by omega)
    have hdepth := Level.inner?_depth hk
    exact .inner hk (ih (by omega) (by omega))

theorem ne_nil (h : Derives l t e) : t ≠ [] := by
  induction h with
  | inner _ _ ih => exact ih
  | _ => simp

end Derives

/-! ### The tokens of an expression -/

/-- Whether no expression goes past a token of this kind. -/
def Kind.endsExpr : Kind → Bool
  | eof | symbol .semicolon => true
  | _ => false

/-- Tokens that do not end an expression. -/
def Plain (t : List Token) : Prop := ∀ token ∈ t, token.kind.endsExpr = false

namespace Plain

variable {t u : List Token} {token : Token}

@[simp] theorem nil : Plain [] := by simp [Plain]

@[simp] theorem append : Plain (t ++ u) ↔ Plain t ∧ Plain u := List.forall_mem_append

@[simp] theorem cons : Plain (token :: t) ↔ token.kind.endsExpr = false ∧ Plain t := List.forall_mem_cons

private theorem listed {items : List (List Token)} (h : Listed items t) (hitems : ∀ item ∈ items, Plain item) :
    Plain t := by
  induction h with
  | nil => exact nil
  | last item => exact hitems item (by simp)
  | cons item hcomma _ ih =>
    rw [append, cons, hcomma]
    exact ⟨hitems item (by simp), rfl, ih fun item hi => hitems item (by simp [hi])⟩

end Plain

@[simp] private theorem UnaryOp.endsExpr_mark (op : UnaryOp) : (Kind.symbol op.mark).endsExpr = false := by
  cases op <;> rfl

@[simp] private theorem BinaryOp.endsExpr_mark (op : BinaryOp) : (Kind.symbol op.mark).endsExpr = false := by
  rcases op with op | op | _ | _ | _ | _ | _ <;> first | rfl | (cases op <;> rfl)

@[simp] private theorem AssignOp.endsExpr_mark (op : AssignOp) : (Kind.symbol op.mark).endsExpr = false := by
  rcases op with _ | op
  · rfl
  · cases op <;> rfl

private theorem Token.Denotes.plain {token : Token} {value : Literal} (h : token.Denotes value) :
    token.kind.endsExpr = false := by
  cases h <;> simp [*, Kind.endsExpr]

theorem Derives.plain {l : Level} {t : List Token} {e : Expr} (h : Derives l t e) : Plain t := by
  induction h with
  | inner _ _ ih => exact ih
  | assign _ _ hmark _ ih₁ ih₂ => simp [hmark, ih₁, ih₂]
  | binary _ _ _ hmark _ ih₁ ih₂ => simp [hmark, ih₁, ih₂]
  | before hmark _ ih => simp [hmark, ih]
  | property _ hdot hname ih => simp [hdot, hname, ih, Kind.endsExpr]
  | call _ hopening hlist _ hclosing ih ihitems =>
    have hplain := Plain.listed hlist (by simpa using ihitems)
    simp [hopening, hclosing, ih, hplain, Kind.endsExpr]
  | after _ _ hmark ih => simp [hmark, ih]
  | index _ hopening _ hclosing ih ihposition => simp [hopening, hclosing, ih, ihposition, Kind.endsExpr]
  | literal h => simp [h.plain]
  | name h => simp [h, Kind.endsExpr]
  | paren hopening _ hclosing ih => simp [hopening, hclosing, ih, Kind.endsExpr]
  | array hopening hlist _ hclosing ihitems =>
    have hplain := Plain.listed hlist (by simpa using ihitems)
    simp [hopening, hclosing, hplain, Kind.endsExpr]
  | build hname hopening hlist _ _ hnames _ hclosing ihvalues =>
    have hplain := Plain.listed hlist fun item hitem => by
      obtain ⟨f, hf, rfl⟩ := List.mem_map.1 hitem
      simp [FieldItem.tokens, hnames f hf, ihvalues f hf, Kind.endsExpr]
    simp [hname, hopening, hclosing, hplain, Kind.endsExpr]

/-- Whether an expression can start with a token of this kind. -/
def Kind.startsExpr : Kind → Bool
  | number | string | char | ident | keyword .trueKw | keyword .falseKw | keyword .nullKw => true
  | symbol .lParen | symbol .lBracket => true
  | symbol .plus | symbol .minus | symbol .not | symbol .plusPlus | symbol .minusMinus => true
  | _ => false

private theorem UnaryOp.startsExpr_mark (op : UnaryOp) : (Kind.symbol op.mark).startsExpr = true := by
  cases op <;> rfl

private theorem Token.Denotes.starts {token : Token} {value : Literal} (h : token.Denotes value) :
    token.kind.startsExpr = true := by
  cases h <;> simp [*, Kind.startsExpr]

theorem Derives.starts {l : Level} {t : List Token} {e : Expr} (h : Derives l t e) :
    ∃ token rest, t = token :: rest ∧ token.kind.startsExpr = true := by
  induction h with
  | inner _ _ ih => exact ih
  | assign _ _ _ _ ih _ | binary _ _ _ _ _ ih _ | property _ _ _ ih | after _ _ _ ih | call _ _ _ _ _ ih _
  | index _ _ _ _ ih _ =>
    obtain ⟨token, rest, rfl, hk⟩ := ih
    exact ⟨token, _, rfl, hk⟩
  | before hmark =>
    refine ⟨_, _, rfl, ?_⟩
    rw [hmark, UnaryOp.startsExpr_mark]
  | literal h => exact ⟨_, _, rfl, h.starts⟩
  | name hk | build hk | paren hk | array hk => exact ⟨_, _, rfl, by rw [hk]; rfl⟩

namespace Listed

variable {item : List Token} {items : List (List Token)} {tokens : List Token}

theorem exists_append (h : Listed (item :: items) tokens) : ∃ rest, tokens = item ++ rest := by
  cases h with
  | last => exact ⟨[], by simp⟩
  | cons => exact ⟨_, rfl⟩

theorem length_le_of_mem (h : Listed items tokens) (hmem : item ∈ items) : item.length ≤ tokens.length := by
  induction h with
  | nil => cases hmem
  | last => simp [List.mem_singleton.1 hmem]
  | cons first _ _ ih =>
    rw [List.length_append, List.length_cons]
    rcases List.mem_cons.1 hmem with rfl | hmem
    · omega
    · have := ih hmem
      omega

theorem length_le (h : Listed items tokens) (hitems : ∀ item ∈ items, item ≠ []) : items.length ≤ tokens.length := by
  induction h with
  | nil => exact Nat.le_refl _
  | last first => exact List.length_pos_iff.2 (hitems first (by simp))
  | cons first _ _ ih =>
    have hfirst := List.length_pos_iff.2 (hitems first (by simp))
    have := ih fun item hi => hitems item (by simp [hi])
    rw [List.length_append, List.length_cons, List.length_cons]
    omega

end Listed

end BraceScript
