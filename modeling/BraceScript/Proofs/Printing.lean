import BraceScript.Proofs.Legible
import BraceScript.Syntax.Text

/-!
# The text of an expression

The text of a legible expression is cut into tokens from which the grammar derives the same expression again, up to
spans (`Legible.printed`).  What follows the text may be anything that does not run on into its last token (`Ends`).
-/

namespace BraceScript

open Lexeme (Stops isIdentStart isIdentPart isBlank)

/-! ### Where texts begin and end -/

/-- The characters with which the text of an expression can start. -/
private def opens (c : Char) : Bool := isIdentStart c || c.isDigit || c = '"' || c = '\'' || c = '(' || c = '['

/-- What can follow the text of an expression. -/
structure Ends (rest : List Char) : Prop where
  word : Stops isIdentPart rest
  point : ∀ ds, rest = '.' :: ds → Stops Char.isDigit ds

private theorem isBlank_of_opens {c : Char} (h : opens c = true) : isBlank c = false := by
  simp only [opens, Bool.or_eq_true, decide_eq_true_eq] at h
  rcases h with ((((h | h) | rfl) | rfl) | rfl) | rfl
  · exact Lexeme.isBlank_of_isIdentStart h
  · exact Lexeme.isBlank_of_isDigit h
  all_goals decide

private theorem joins_of_opens {c : Char} (s : Symbol) (h : opens c = true) : s.joins c = false := by
  apply s.joins_eq_false
  intro hmem
  simp only [List.mem_cons, List.not_mem_nil, or_false] at hmem
  rcases hmem with rfl | rfl | rfl | rfl | rfl | rfl | rfl | rfl | rfl <;> cases h

namespace Ends

variable {c : Char} {rest : List Char}

theorem cons (hword : isIdentPart c = false) (hpoint : c ≠ '.') : Ends (c :: rest) where
  word := by simpa [Stops] using hword
  point := by
    rintro ds ⟨⟩
    contradiction

private theorem digit (h : Ends rest) : Stops Char.isDigit rest := by
  intro c hc
  have := h.word c hc
  simp only [isIdentPart, Char.isAlphanum, Bool.or_eq_false_iff] at this
  exact this.1.2

end Ends

private theorem IsName.starts {w : String} (h : IsName w) : ∃ c cs, w.toList = c :: cs ∧ isIdentStart c = true := by
  obtain ⟨c, part, htext, hc, -⟩ := h
  exact ⟨c, part, htext, hc⟩

/-- The text starts with a character that opens an expression. -/
private def Opening (text : String) : Prop := ∃ c cs, text.toList = c :: cs ∧ opens c = true

private theorem IsName.opening {w : String} (h : IsName w) : Opening w := by
  obtain ⟨c, cs, htext, hc⟩ := h.starts
  exact ⟨c, cs, htext, by simp [opens, hc]⟩

namespace Opening

variable {text : String} {more : List Char} {p : Char → Bool}

private theorem stops (h : Opening text) (hp : ∀ c, opens c = true → p c = false) :
    Stops p (text.toList ++ more) := by
  obtain ⟨c, cs, htext, hc⟩ := h
  rw [htext]
  intro d hd
  obtain rfl : c = d := Option.some.inj hd
  exact hp c hc

private theorem append (h : Opening text) (more : String) : Opening (text ++ more) := by
  obtain ⟨c, cs, htext, hc⟩ := h
  exact ⟨c, cs ++ more.toList, by simp [htext], hc⟩

private theorem of_literal {value : Literal} (h : value.Legible) : Opening value.text := by
  cases h with
  | @integer n =>
    change Opening (toString n)
    have hdigits : ∀ c ∈ Nat.toDigits 10 n, c.isDigit = true :=
      fun c hc => Nat.isDigit_of_mem_toDigits (by decide) (by decide) hc
    cases htext : Nat.toDigits 10 n with
    | nil => exact absurd htext Nat.toDigits_ne_nil
    | cons c part =>
      rw [htext] at hdigits
      exact ⟨c, part, by rw [Nat.toString_eq_ofList_toDigits, String.toList_ofList, htext],
        by simp [opens, hdigits c (by simp)]⟩
  | string _ =>
    have hquote : Opening "\"" := ⟨'"', [], rfl, rfl⟩
    exact (hquote.append _).append _
  | character _ =>
    have hquote : Opening "'" := ⟨'\'', [], rfl, rfl⟩
    exact (hquote.append _).append _
  | boolean value =>
    cases value
    · exact ⟨'f', _, rfl, rfl⟩
    · exact ⟨'t', _, rfl, rfl⟩
  | null => exact ⟨'n', _, rfl, rfl⟩

end Opening

private theorem Legible.opening {e : Expr} (h : Legible e) : Opening e.text := by
  have hparen : Opening "(" := ⟨'(', [], rfl, rfl⟩
  have hbracket : Opening "[" := ⟨'[', [], rfl, rfl⟩
  induction h with
  | ident h => exact h.opening
  | literal h => exact .of_literal h
  | before | after => exact ((hparen.append _).append _).append _
  | binary | assign => exact (((((hparen.append _).append _).append _).append _).append _).append _
  | call h => exact ((h.opening.append _).append _).append _
  | build h => exact ((h.opening.append _).append _).append _
  | property _ _ ih => exact (ih.append _).append _
  | array => exact (hbracket.append _).append _
  | index h => exact ((h.opening.append _).append _).append _

/-! ### Cutting the texts of operators and brackets -/

private theorem UnaryOp.text_mark (op : UnaryOp) : op.mark.text = op.symbol := by
  cases op <;> rfl

private theorem BinaryOp.text_mark (op : BinaryOp) : op.mark.text = op.symbol := by
  rcases op with op | op | _ | _ | _ | _ | _ <;> first | rfl | (cases op <;> rfl)

private theorem AssignOp.text_mark (op : AssignOp) : op.mark.text = op.symbol := by
  rcases op with _ | op
  · rfl
  · cases op <;> rfl

namespace Token

variable {cs ds rest : List Char} {P Q : List Token → Prop} {s s' : Symbol}

theorem Only.kind {kind : Kind} {text : String} {tokens : List Token} (h : Only kind text tokens) :
    ∃ token, tokens = [token] ∧ token.kind = kind ∧ token.text = text := by
  obtain ⟨span, rfl⟩ := h
  exact ⟨_, rfl, rfl, rfl⟩

private theorem stops_symbol (s : Symbol) : Stops isBlank (s.text.toList ++ rest) := by
  have hmark : ∀ c, Lexeme.isMark c = true → isBlank c = false := by
    intro c hc
    simp only [Lexeme.isMark, Bool.and_eq_true, Bool.not_eq_true'] at hc
    exact hc.1.1.1.1
  rcases s.text_cases with ⟨c, hc, -, hm⟩ | ⟨c, d, hc, -, hm, -⟩
  · rw [hc]
    simpa [Stops] using hmark c hm
  · rw [hc]
    simpa [Stops] using hmark c hm

private theorem joins_blank (s : Symbol) : Stops s.joins (' ' :: cs ++ rest) := by
  intro d hd
  obtain rfl : ' ' = d := Option.some.inj hd
  exact s.joins_eq_false (by decide)

/-- A text between brackets. -/
private theorem Cuts.enclosed (hs : ∀ d, s.joins d = false) (hs' : ∀ d, s'.joins d = false)
    (h : Cuts cs (s'.text.toList ++ rest) P) :
    Cuts (s.text.toList ++ (cs ++ s'.text.toList)) rest fun tokens =>
      ∃ opening t closing, tokens = opening :: t ++ [closing] ∧ opening.kind = .symbol s ∧ P t ∧
        closing.kind = .symbol s' := by
  refine ((cuts_symbol s fun d _ => hs d).append (h.append (cuts_symbol s' fun d _ => hs' d))).mono ?_
  rintro _ ⟨_, _, rfl, hopening, t, _, rfl, hP, hclosing⟩
  obtain ⟨opening, rfl, hopening, -⟩ := hopening.kind
  obtain ⟨closing, rfl, hclosing, -⟩ := hclosing.kind
  exact ⟨opening, t, closing, rfl, hopening, hP, hclosing⟩

/-- Two texts with a symbol between them, which has a blank on either side. -/
private theorem Cuts.infixed (s : Symbol) (h₁ : Cuts cs (' ' :: (s.text.toList ++ ' ' :: (ds ++ rest))) P)
    (h₂ : Cuts ds rest Q) (hblank : Stops isBlank (ds ++ rest)) :
    Cuts (cs ++ ' ' :: (s.text.toList ++ ' ' :: ds)) rest fun tokens =>
      ∃ t mark u, tokens = t ++ mark :: u ∧ P t ∧ mark.kind = .symbol s ∧ Q u := by
  have hright := (cuts_symbol s (joins_blank s)).append (h₂.blank hblank)
  have hall := Cuts.append (by simpa using h₁) (hright.blank (by simpa using stops_symbol s))
  refine hall.mono ?_
  rintro _ ⟨t, _, rfl, hP, _, u, rfl, hmark, hQ⟩
  obtain ⟨mark, rfl, hmark, -⟩ := hmark.kind
  exact ⟨t, mark, u, rfl, hP, hmark, hQ⟩

end Token

/-! ### Expressions -/

/-- Tokens from which the expression is derived again, up to spans. -/
def Spells (e : Expr) (tokens : List Token) : Prop := ∃ e', Derives .suffixed tokens e' ∧ e'.erase = e.erase

/-- Whatever follows, the text of the expression is cut into tokens that spell it. -/
def Printed (e : Expr) : Prop := ∀ rest, Ends rest → Token.Cuts e.text.toList rest (Spells e)

/-- A token that spells a name. -/
private theorem derives_name {w : String} {tokens : List Token} (h : Token.Only .ident w tokens) :
    ∃ id : Ident, id.name = w ∧ Derives .suffixed tokens (.ident id) := by
  obtain ⟨token, rfl, hk, htext⟩ := h.kind
  exact ⟨token.toIdent, htext, .inner rfl (.name hk)⟩

private theorem derives_paren {t : List Token} {opening closing : Token} {e : Expr} {l : Level}
    (hopening : opening.kind = .symbol .lParen) (h : Derives l t e) (hclosing : closing.kind = .symbol .rParen) :
    Derives .suffixed (opening :: t ++ [closing]) e :=
  .inner rfl (.paren hopening (h.loosen (Nat.zero_le _)) hclosing)

namespace Printed

variable {e e₁ e₂ : Expr}

private theorem ident {id : Ident} (h : IsName id.name) : Printed (.ident id) := by
  intro rest hrest
  refine (Token.cuts_name h hrest.word).mono fun tokens htokens => ?_
  obtain ⟨id', hname, hderives⟩ := derives_name htokens
  exact ⟨.ident id', hderives, by simp [Expr.erase, Expr.eraseIdent, hname]⟩

private theorem of_denotes {value : Literal} {span : Span} {kind : Kind} {text : String}
    (hcuts : ∀ rest, Ends rest → Token.Cuts value.text.toList rest (Token.Only kind text))
    (hdenotes : ∀ token : Token, token.kind = kind → token.text = text → token.Denotes value) :
    Printed (.literal value span) := by
  intro rest hrest
  refine (hcuts rest hrest).mono fun tokens htokens => ?_
  obtain ⟨token, rfl, hk, htext⟩ := htokens.kind
  exact ⟨_, .inner rfl (.literal (hdenotes token hk htext)), rfl⟩

/-- The decimal digits of a number spell it. -/
private theorem natural?_toString (n : Nat) : Numeral.natural? (toString n).toList = some n := by
  rw [Nat.toString_eq_ofList_toDigits, String.toList_ofList]
  have hdigits : (Nat.toDigits 10 n).all Char.isDigit = true :=
    List.all_eq_true.2 fun c hc => Nat.isDigit_of_mem_toDigits (by decide) (by decide) hc
  have hvalue : Numeral.ofDigits (Nat.toDigits 10 n) = n := Nat.ofDigitChars_ten_toDigits
  unfold Numeral.natural?
  rw [if_pos ⟨Nat.toDigits_ne_nil, hdigits⟩, hvalue]

private theorem literal {value : Literal} {span : Span} (h : value.Legible) : Printed (.literal value span) := by
  cases h with
  | @integer n hmax =>
    have hpoint : '.' ∉ (toString n).toList := by
      rw [Nat.toString_eq_ofList_toDigits, String.toList_ofList]
      intro hmem
      have := Nat.isDigit_of_mem_toDigits (by decide) (by decide) hmem
      cases this
    refine of_denotes (fun rest hrest => Token.cuts_number hrest.digit hrest.point) fun token hk htext => ?_
    exact .integer hk (htext ▸ hpoint) (htext ▸ natural?_toString n) hmax
  | string h =>
    refine of_denotes (fun rest _ => Token.cuts_string h) fun token hk htext => ?_
    rw [← htext]
    exact .string hk
  | @character value h =>
    refine of_denotes (fun rest _ => Token.cuts_char h) fun token hk htext => ?_
    simpa [htext, Char.toString] using Token.Denotes.character hk
  | boolean value =>
    cases value with
    | true =>
      exact of_denotes (fun rest hrest =>
        Token.cuts_word (w := "true") rfl (List.all_eq_true.1 (by rfl)) hrest.word rfl)
        fun token hk _ => .isTrue hk
    | false =>
      exact of_denotes (fun rest hrest => Token.cuts_word (w := "false") rfl
        (List.all_eq_true.1 (by rfl)) hrest.word rfl)
        fun token hk _ => .isFalse hk
  | null =>
    exact of_denotes (fun rest hrest => Token.cuts_word (w := "null") rfl
      (List.all_eq_true.1 (by rfl)) hrest.word rfl)
      fun token hk _ => .null hk

private theorem before {op : Located UnaryOp} {span : Span} (hopening : Opening e.text) (h : Printed e) :
    Printed (.unary op e .before span) := by
  intro rest hrest
  -- the operand starts with no operator: an operator inside it stands in parentheses of its own
  have hinner : Token.Cuts (op.value.mark.text.toList ++ e.text.toList) (Symbol.rParen.text.toList ++ rest) _ :=
    (Token.cuts_symbol op.value.mark (hopening.stops fun c hc => joins_of_opens _ hc)).append
      (h _ (.cons rfl (by decide)))
  have hcuts := hinner.enclosed (s := .lParen) (fun _ => rfl) fun _ => rfl
  have htext : (Expr.unary op e .before span).text.toList =
      "(".toList ++ (op.value.symbol.toList ++ e.text.toList ++ ")".toList) := by
    simp [Expr.text]
  rw [htext, ← UnaryOp.text_mark]
  refine hcuts.mono ?_
  rintro _ ⟨opening, _, closing, rfl, hopen, ⟨_, u, rfl, hmark, e', hderives, he⟩, hclose⟩
  obtain ⟨mark, rfl, hmark, -⟩ := hmark.kind
  refine ⟨_, derives_paren hopen (.before hmark (hderives.loosen (by decide))) hclose, ?_⟩
  simp [Expr.erase, he]

private theorem after {op : Located UnaryOp} {id : Ident} {span : Span}
    (hop : op.value = .increment ∨ op.value = .decrement) (h : IsName id.name) :
    Printed (.unary op (.ident id) .after span) := by
  intro rest hrest
  have hmarks : Stops isIdentPart (op.value.mark.text.toList ++ (Symbol.rParen.text.toList ++ rest)) ∧
      ∀ d, op.value.mark.joins d = false := by
    -- `++` and `--` are whole as they are, whatever comes next
    rcases hop with hop | hop <;> rw [hop] <;> exact ⟨by simp [Stops, UnaryOp.mark, Symbol.text]; rfl, fun _ => rfl⟩
  have hinner := (Token.cuts_name h hmarks.1).append (Token.cuts_symbol op.value.mark fun d _ => hmarks.2 d)
  have hcuts := hinner.enclosed (s := .lParen) (fun _ => rfl) fun _ => rfl
  have htext : (Expr.unary op (.ident id) .after span).text.toList =
      "(".toList ++ (id.name.toList ++ op.value.symbol.toList ++ ")".toList) := by
    simp [Expr.text]
  rw [htext, ← UnaryOp.text_mark]
  refine hcuts.mono ?_
  rintro _ ⟨opening, _, closing, rfl, hopen, ⟨t, _, rfl, hname, hmark⟩, hclose⟩
  obtain ⟨id', hid, hderives⟩ := derives_name hname
  obtain ⟨mark, rfl, hmark, -⟩ := hmark.kind
  refine ⟨_, derives_paren hopen (.after hderives hop hmark) hclose, ?_⟩
  simp [Expr.erase, Expr.eraseIdent, hid]

/-- Two operands in parentheses with an operator between them. -/
private theorem infixed (s : Symbol) {text : String} (h₁ : Printed e₁) (h₂ : Printed e₂) (hopening : Opening e₂.text)
    (htext : text = "(" ++ e₁.text ++ " " ++ s.text ++ " " ++ e₂.text ++ ")") (rest : List Char) :
    Token.Cuts text.toList rest fun tokens => ∃ opening t mark u closing,
      tokens = opening :: (t ++ mark :: u) ++ [closing] ∧
      opening.kind = .symbol .lParen ∧ Spells e₁ t ∧ mark.kind = .symbol s ∧ Spells e₂ u ∧
      closing.kind = .symbol .rParen := by
  have hinner := Token.Cuts.infixed s (h₁ _ (.cons rfl (by decide))) (h₂ (Symbol.rParen.text.toList ++ rest)
    (.cons rfl (by decide))) (hopening.stops fun c hc => isBlank_of_opens hc)
  have hcuts := hinner.enclosed (s := .lParen) (fun _ => rfl) fun _ => rfl
  have htext' : text.toList =
      "(".toList ++ (e₁.text.toList ++ ' ' :: (s.text.toList ++ ' ' :: e₂.text.toList) ++ ")".toList) := by
    simp [htext]
  rw [htext']
  refine hcuts.mono ?_
  rintro _ ⟨opening, _, closing, rfl, hopen, ⟨t, mark, u, rfl, ht, hmark, hu⟩, hclose⟩
  exact ⟨opening, t, mark, u, closing, rfl, hopen, ht, hmark, hu, hclose⟩

private theorem binary {op : Located BinaryOp} {span : Span} (h₁ : Printed e₁) (h₂ : Printed e₂)
    (hopening : Opening e₂.text) : Printed (.binary op e₁ e₂ span) := by
  intro rest _
  refine (infixed op.value.mark h₁ h₂ hopening (by rw [BinaryOp.text_mark]; rfl) rest).mono ?_
  rintro _ ⟨opening, t, mark, u, closing, rfl, hopen, ⟨e₁', hderives₁, he₁⟩, hmark, ⟨e₂', hderives₂, he₂⟩, hclose⟩
  obtain ⟨m, hm⟩ := op.value.exists_inner
  have hdepth : op.value.level.depth ≤ 6 ∧ m.depth ≤ 6 := by
    have hlevel := op.value.level_depth
    have hinner := Level.inner?_depth hm
    omega
  have hbinary := Derives.binary rfl hm (hderives₁.loosen hdepth.1) hmark (hderives₂.loosen hdepth.2)
  exact ⟨_, derives_paren hopen hbinary hclose, by simp [Expr.erase, he₁, he₂]⟩

private theorem assign {op : Located AssignOp} {span : Span} (ht : e₁.isAssignable = true) (h₁ : Printed e₁)
    (h₂ : Printed e₂) (hopening : Opening e₂.text) : Printed (.assign e₁ op e₂ span) := by
  intro rest _
  refine (infixed op.value.mark h₁ h₂ hopening (by rw [AssignOp.text_mark]; rfl) rest).mono ?_
  rintro _ ⟨opening, t, mark, u, closing, rfl, hopen, ⟨e₁', hderives₁, he₁⟩, hmark, ⟨e₂', hderives₂, he₂⟩, hclose⟩
  have ht' : e₁'.isAssignable = true := by rw [← e₁'.isAssignable_erase, he₁, e₁.isAssignable_erase, ht]
  have hassign := Derives.assign (hderives₁.loosen (by decide)) ht' hmark (hderives₂.loosen (by decide))
  exact ⟨_, derives_paren hopen hassign hclose, by simp [Expr.erase, he₁, he₂]⟩

private theorem property {name : Ident} {span : Span} (h : Printed e) (hname : IsName name.name) :
    Printed (.property e name span) := by
  intro rest hrest
  obtain ⟨c, cs, htext, hc⟩ := hname.starts
  -- a number in front of the point does not take it for a decimal point, since a name follows and no digit
  have hends : Ends ('.' :: (name.name.toList ++ rest)) := by
    refine ⟨by simp [Stops]; rfl, ?_⟩
    rintro _ ⟨⟩
    rw [htext]
    simpa [Stops] using Lexeme.isDigit_of_isIdentStart hc
  have hdot : Token.Cuts Symbol.dot.text.toList (name.name.toList ++ rest) _ :=
    Token.cuts_symbol .dot (hname.opening.stops fun c hc => joins_of_opens _ hc)
  have hcuts := (h _ hends).append (hdot.append (Token.cuts_name hname hrest.word))
  have htext : (Expr.property e name span).text.toList = e.text.toList ++ (".".toList ++ name.name.toList) := by
    simp [Expr.text]
  rw [htext]
  refine hcuts.mono ?_
  rintro _ ⟨t, _, rfl, ⟨e', hderives, he⟩, _, _, rfl, hdot, hname⟩
  obtain ⟨dot, rfl, hdot, -⟩ := hdot.kind
  obtain ⟨token, rfl, hk, htoken⟩ := hname.kind
  exact ⟨_, .property hderives hdot hk, by simp [Expr.erase, Expr.eraseIdent, Token.toIdent, he, htoken]⟩

private theorem index {base : Ident} {span : Span} (hbase : IsName base.name) (h : Printed e) :
    Printed (.index base e span) := by
  intro rest _
  have hinner := (h (Symbol.rBracket.text.toList ++ rest) (.cons rfl (by decide))).enclosed (s := .lBracket)
    (fun _ => rfl) fun _ => rfl
  have hcuts := (Token.cuts_name hbase (by simp [Stops, Symbol.text]; rfl)).append hinner
  have htext : (Expr.index base e span).text.toList =
      base.name.toList ++ ("[".toList ++ (e.text.toList ++ "]".toList)) := by
    simp [Expr.text]
  rw [htext]
  refine hcuts.mono ?_
  rintro _ ⟨t, _, rfl, hname, opening, u, closing, rfl, hopen, ⟨e', hderives, he⟩, hclose⟩
  obtain ⟨id, hid, hbase⟩ := derives_name hname
  have hindex := Derives.index hbase hopen (hderives.loosen (by decide)) hclose
  rw [List.append_assoc] at hindex
  exact ⟨_, hindex, by simp [Expr.erase, Expr.eraseIdent, he, hid]⟩

end Printed

/-! ### Lists -/

/-- A text that can stand in a list and is then cut into tokens with the property `P`. -/
private structure ItemText (text : String) (P : List Token → Prop) : Prop where
  opening : Opening text
  cuts : ∀ rest, Ends rest → Token.Cuts text.toList rest P

/-- The texts with a comma and a blank in front of each. -/
private def commaText : List String → List Char
  | [] => []
  | text :: texts => ",".toList ++ ' ' :: (text.toList ++ commaText texts)

section

variable {α : Type} {text : α → String} {R : α → List Token → Prop} {xs : List α} {rest : List Char}

private theorem ends_commaText (texts : List String) (h : Ends rest) : Ends (commaText texts ++ rest) := by
  cases texts with
  | nil => exact h
  | cons text texts => exact .cons rfl (by decide)

/-- The items of a list after the first, each with its comma. -/
private theorem cuts_commaText (hitems : ∀ x ∈ xs, ItemText (text x) (R x)) (hrest : Ends rest) :
    Token.Cuts (commaText (xs.map text)) rest fun tokens => ∃ items : List (α × List Token),
      items.map (·.1) = xs ∧ (∀ i ∈ items, R i.1 i.2) ∧ ∀ first,
        Listed (first :: items.map (·.2)) (first ++ tokens) := by
  induction xs with
  | nil =>
    intro p done
    exact ⟨p, [], rfl, [], rfl, by simp, fun first => by simpa using Listed.last first⟩
  | cons x xs ih =>
    obtain ⟨hx, hxs⟩ := List.forall_mem_cons.1 hitems
    have hitem := (hx.cuts _ (ends_commaText (xs.map text) hrest)).append (ih hxs)
    have hblank : Stops isBlank ((text x).toList ++ commaText (xs.map text) ++ rest) := by
      rw [List.append_assoc]
      exact hx.opening.stops fun _ hc => isBlank_of_opens hc
    refine ((Token.cuts_symbol .comma fun _ _ => rfl).append (hitem.blank hblank)).mono ?_
    rintro _ ⟨_, _, rfl, hcomma, t, u, rfl, ht, items, rfl, hR, hlisted⟩
    obtain ⟨comma, rfl, hcomma, -⟩ := hcomma.kind
    exact ⟨(x, t) :: items, rfl, List.forall_mem_cons.2 ⟨ht, hR⟩, fun first => .cons first hcomma (hlisted t)⟩

/-- The items of a list with commas between them. -/
private theorem cuts_items {x : α} (hitems : ∀ y ∈ x :: xs, ItemText (text y) (R y)) (hrest : Ends rest) :
    Token.Cuts ((text x).toList ++ commaText (xs.map text)) rest fun tokens => ∃ items : List (α × List Token),
      items.map (·.1) = x :: xs ∧ (∀ i ∈ items, R i.1 i.2) ∧ Listed (items.map (·.2)) tokens := by
  obtain ⟨hx, hxs⟩ := List.forall_mem_cons.1 hitems
  refine ((hx.cuts _ (ends_commaText (xs.map text) hrest)).append (cuts_commaText hxs hrest)).mono ?_
  rintro _ ⟨t, u, rfl, ht, items, rfl, hR, hlisted⟩
  exact ⟨(x, t) :: items, rfl, List.forall_mem_cons.2 ⟨ht, hR⟩, hlisted t⟩

end

/-- Items that spell the expressions. -/
private structure SpellsAll (es : List Expr) (items : List ListItem) : Prop where
  trees : (items.map (·.tree)).map Expr.erase = es.map Expr.erase
  derives : ∀ a ∈ items, Derives .assignment a.tokens a.tree

private theorem SpellsAll.exists_of_items {items : List (Expr × List Token)} (h : ∀ i ∈ items, Spells i.1 i.2) :
    ∃ all : List ListItem, all.map (·.tokens) = items.map (·.2) ∧ SpellsAll (items.map (·.1)) all := by
  induction items with
  | nil => exact ⟨[], rfl, rfl, by simp⟩
  | cons i items ih =>
    obtain ⟨⟨e', hderives, he⟩, hrest⟩ := List.forall_mem_cons.1 h
    obtain ⟨all, htokens, hall⟩ := ih hrest
    refine ⟨⟨i.2, e'⟩ :: all, by simp [htokens], ?_, ?_⟩
    · rw [List.map_cons, List.map_cons, he, hall.trees, List.map_cons, List.map_cons]
    · exact List.forall_mem_cons.2 ⟨hderives.loosen (by decide), hall.derives⟩

private theorem listText_comma (es : List Expr) : (Expr.listText ", " es).toList = commaText (es.map Expr.text) := by
  induction es with
  | nil => rfl
  | cons e es ih => simp [Expr.listText, commaText, ih]

/-- The elements of an array or the arguments of a call. -/
private theorem cuts_list {es : List Expr} (rest : List Char) (hopening : ∀ a ∈ es, Opening a.text)
    (hprinted : ∀ a ∈ es, Printed a) (hrest : Ends rest) :
    Token.Cuts (Expr.listText "" es).toList rest fun tokens => ∃ items, SpellsAll es items ∧
      Listed (items.map (·.tokens)) tokens := by
  cases es with
  | nil =>
    intro p done
    exact ⟨p, [], rfl, [], ⟨rfl, by simp⟩, .nil⟩
  | cons e es =>
    have hitems : ∀ a ∈ e :: es, ItemText a.text (Spells a) := fun a ha => ⟨hopening a ha, hprinted a ha⟩
    have htext : (Expr.listText "" (e :: es)).toList = e.text.toList ++ commaText (es.map Expr.text) := by
      simp [Expr.listText, listText_comma]
    rw [htext]
    refine (cuts_items hitems hrest).mono ?_
    rintro tokens ⟨items, hes, hspells, hlisted⟩
    obtain ⟨all, htokens, hall⟩ := SpellsAll.exists_of_items hspells
    exact ⟨all, hes ▸ hall, htokens ▸ hlisted⟩

namespace Printed

private theorem call {callee : Ident} {arguments : List Expr} {span : Span} (hname : IsName callee.name)
    (hopening : ∀ a ∈ arguments, Opening a.text) (hprinted : ∀ a ∈ arguments, Printed a) :
    Printed (.call callee arguments span) := by
  intro rest _
  have hlist := cuts_list (Symbol.rParen.text.toList ++ rest) hopening hprinted (.cons rfl (by decide))
  have hinner := hlist.enclosed (s := .lParen) (fun _ => rfl) fun _ => rfl
  have hcuts := (Token.cuts_name hname (by simp [Stops, Symbol.text]; rfl)).append hinner
  have htext : (Expr.call callee arguments span).text.toList =
      callee.name.toList ++ ("(".toList ++ ((Expr.listText "" arguments).toList ++ ")".toList)) := by
    simp [Expr.text]
  rw [htext]
  refine hcuts.mono ?_
  rintro _ ⟨t, _, rfl, hname, opening, u, closing, rfl, hopen, ⟨items, hitems, hlisted⟩, hclose⟩
  obtain ⟨id, hid, hcallee⟩ := derives_name hname
  have hcall := Derives.call hcallee hopen hlisted hitems.derives hclose
  rw [List.append_assoc] at hcall
  refine ⟨_, hcall, ?_⟩
  rw [Expr.erase, Expr.erase, Expr.eraseList_eq, Expr.eraseList_eq, hitems.trees, Expr.eraseIdent, hid]
  rfl

private theorem array {elements : List Expr} {span : Span} (hopening : ∀ a ∈ elements, Opening a.text)
    (hprinted : ∀ a ∈ elements, Printed a) : Printed (.array elements elements.length span) := by
  intro rest _
  have hlist := cuts_list (Symbol.rBracket.text.toList ++ rest) hopening hprinted (.cons rfl (by decide))
  have hcuts := hlist.enclosed (s := .lBracket) (fun _ => rfl) fun _ => rfl
  have htext : (Expr.array elements elements.length span).text.toList =
      "[".toList ++ ((Expr.listText "" elements).toList ++ "]".toList) := by
    simp [Expr.text]
  rw [htext]
  refine hcuts.mono ?_
  rintro _ ⟨opening, u, closing, rfl, hopen, ⟨items, hitems, hlisted⟩, hclose⟩
  have hlength : items.length = elements.length := by simpa using congrArg List.length hitems.trees
  refine ⟨_, .inner rfl (.array hopen hlisted hitems.derives hclose), ?_⟩
  rw [Expr.erase, Expr.erase, Expr.eraseList_eq, Expr.eraseList_eq, hitems.trees, hlength]

end Printed

/-! ### Fields -/

/-- Items that spell the fields. -/
private structure SpellsFields (fields : List (Ident × Expr)) (items : List FieldItem) : Prop where
  trees : Expr.eraseFields (items.map (·.field)) = Expr.eraseFields fields
  names : items.map (·.name.text) = fields.map (·.1.name)
  kinds : ∀ f ∈ items, f.name.kind = .ident ∧ f.colon.kind = .symbol .colon
  derives : ∀ f ∈ items, Derives .assignment f.value f.tree

/-- Tokens that spell a field. -/
private def SpellsField (f : Ident × Expr) (tokens : List Token) : Prop :=
  ∃ item : FieldItem, item.tokens = tokens ∧ SpellsFields [f] [item]

private theorem SpellsFields.cons {f : Ident × Expr} {fields : List (Ident × Expr)} {item : FieldItem}
    {items : List FieldItem} (h : SpellsFields [f] [item]) (hs : SpellsFields fields items) :
    SpellsFields (f :: fields) (item :: items) where
  trees := by
    have := h.trees
    simp only [Expr.eraseFields, List.map_cons, List.map_nil, List.cons.injEq, and_true] at this ⊢
    exact ⟨this, hs.trees⟩
  names := by
    have := h.names
    simp only [List.map_cons, List.map_nil, List.cons.injEq, and_true] at this ⊢
    exact ⟨this, hs.names⟩
  kinds := List.forall_mem_cons.2 ⟨h.kinds item (by simp), hs.kinds⟩
  derives := List.forall_mem_cons.2 ⟨h.derives item (by simp), hs.derives⟩

private theorem SpellsFields.exists_of_items {items : List ((Ident × Expr) × List Token)}
    (h : ∀ i ∈ items, SpellsField i.1 i.2) :
    ∃ all : List FieldItem, all.map (·.tokens) = items.map (·.2) ∧ SpellsFields (items.map (·.1)) all := by
  induction items with
  | nil => exact ⟨[], rfl, rfl, rfl, by simp, by simp⟩
  | cons i items ih =>
    obtain ⟨⟨item, htokens, hitem⟩, hrest⟩ := List.forall_mem_cons.1 h
    obtain ⟨all, htokens', hall⟩ := ih hrest
    exact ⟨item :: all, by simp [htokens, htokens'], hitem.cons hall⟩

/-- The text of a field. -/
private def fieldText (f : Ident × Expr) : String := f.1.name ++ ": " ++ f.2.text

private theorem fieldsText_comma (fields : List (Ident × Expr)) :
    (Expr.fieldsText ", " fields).toList = commaText (fields.map fieldText) := by
  induction fields with
  | nil => rfl
  | cons f fields ih => simp [Expr.fieldsText, commaText, fieldText, ih]

private theorem itemText_field {f : Ident × Expr} (hname : IsName f.1.name) (hopening : Opening f.2.text)
    (hprinted : Printed f.2) : ItemText (fieldText f) (SpellsField f) := by
  refine ⟨(hname.opening.append _).append _, fun rest hrest => ?_⟩
  have hblank : Stops isBlank (f.2.text.toList ++ rest) := hopening.stops fun _ hc => isBlank_of_opens hc
  have hvalue := (Token.cuts_symbol .colon (Token.joins_blank _)).append ((hprinted rest hrest).blank hblank)
  have hcuts := (Token.cuts_name hname (by simp [Stops, Symbol.text]; rfl)).append hvalue
  have htext : (fieldText f).toList = f.1.name.toList ++ (":".toList ++ ' ' :: f.2.text.toList) := by
    simp [fieldText]
  rw [htext]
  refine hcuts.mono ?_
  rintro _ ⟨_, _, rfl, hname, _, t, rfl, hcolon, e', hderives, he⟩
  obtain ⟨name, rfl, hk, hname⟩ := hname.kind
  obtain ⟨colon, rfl, hcolon, -⟩ := hcolon.kind
  refine ⟨⟨name, colon, t, e'⟩, rfl, ?_, by simpa using hname, by simpa using ⟨hk, hcolon⟩, ?_⟩
  · simp [Expr.eraseFields, Expr.eraseIdent, FieldItem.field, Token.toIdent, hname, he]
  · simpa using hderives.loosen (by decide)

/-- The fields of a struct, with the blank in front of the first. -/
private theorem cuts_fields {fields : List (Ident × Expr)} {rest : List Char} (hsome : fields ≠ [])
    (hitems : ∀ f ∈ fields, ItemText (fieldText f) (SpellsField f)) (hrest : Ends rest) :
    Token.Cuts (Expr.fieldsText " " fields).toList rest fun tokens => ∃ items,
      items ≠ [] ∧ SpellsFields fields items ∧
      Listed (items.map (·.tokens)) tokens := by
  obtain ⟨f, fields, rfl⟩ := List.exists_cons_of_ne_nil hsome
  have htext : (Expr.fieldsText " " (f :: fields)).toList =
      ' ' :: ((fieldText f).toList ++ commaText (fields.map fieldText)) := by
    simp [Expr.fieldsText, fieldText, fieldsText_comma]
  have hblank : Stops isBlank ((fieldText f).toList ++ commaText (fields.map fieldText) ++ rest) := by
    rw [List.append_assoc]
    exact (hitems f (by simp)).opening.stops fun _ hc => isBlank_of_opens hc
  rw [htext]
  refine ((cuts_items hitems hrest).blank hblank).mono ?_
  rintro tokens ⟨items, hfields, hspells, hlisted⟩
  obtain ⟨all, htokens, hall⟩ := SpellsFields.exists_of_items hspells
  refine ⟨all, ?_, hfields ▸ hall, htokens ▸ hlisted⟩
  rintro rfl
  simpa [hfields] using hall.names

private theorem Printed.build {name : Ident} {fields : List (Ident × Expr)} {span : Span} (hname : IsName name.name)
    (hsome : fields ≠ []) (hdistinct : (fields.map (·.1.name)).Nodup) (hnames : ∀ f ∈ fields, IsName f.1.name)
    (hopening : ∀ f ∈ fields, Opening f.2.text) (hprinted : ∀ f ∈ fields, Printed f.2) :
    Printed (.build name fields span) := by
  intro rest _
  have hends : Ends (' ' :: Symbol.rBrace.text.toList ++ rest) := .cons rfl (by decide)
  have hstop : Stops Symbol.rBrace.joins rest := fun _ _ => rfl
  have hclosing := (Token.cuts_symbol .rBrace hstop).blank (Token.stops_symbol _)
  have hitems := fun f hf => itemText_field (hnames f hf) (hopening f hf) (hprinted f hf)
  have hfields := cuts_fields hsome hitems hends
  have hbraced := (Token.cuts_symbol .lBrace fun _ _ => rfl).append (hfields.append hclosing)
  have hspaced := hbraced.blank (by simpa only [List.append_assoc] using Token.stops_symbol _)
  have hcuts := (Token.cuts_name hname (Ends.cons rfl (by decide)).word).append hspaced
  have htext : (Expr.build name fields span).text.toList =
      name.name.toList ++ ' ' :: ("\x7b".toList ++
      ((Expr.fieldsText " " fields).toList ++ ' ' :: "\x7d".toList)) := by
    simp [Expr.text]
  rw [htext]
  refine hcuts.mono ?_
  rintro _ ⟨_, _, rfl, hname, _, _, rfl, hopen, _, _, rfl, ⟨items, hitems, hspells, hlisted⟩, hclose⟩
  obtain ⟨first, rfl, hk, hname⟩ := hname.kind
  obtain ⟨opening, rfl, hopen, -⟩ := hopen.kind
  obtain ⟨closing, rfl, hclose, -⟩ := hclose.kind
  have hbuild :=
    Derives.build hk hopen hlisted hitems (hspells.names ▸ hdistinct) hspells.kinds hspells.derives hclose
  refine ⟨_, .inner rfl hbuild, ?_⟩
  rw [Expr.erase, Expr.erase, hspells.trees, Expr.eraseIdent, Token.toIdent, hname]
  rfl

/-- The text of a legible expression is cut into tokens from which the expression is derived again. -/
theorem Legible.printed {e : Expr} (h : Legible e) : Printed e := by
  induction h with
  | ident h => exact .ident h
  | literal h => exact .literal h
  | before h ih => exact .before h.opening ih
  | after hop h => exact .after hop h
  | binary _ h₂ ih₁ ih₂ => exact .binary ih₁ ih₂ h₂.opening
  | assign ht _ h₂ ih₁ ih₂ => exact .assign ht ih₁ ih₂ h₂.opening
  | call h hall ih => exact .call h (fun a ha => (hall a ha).opening) ih
  | build h hsome hdistinct hnames hall ih =>
    exact .build h hsome hdistinct hnames (fun f hf => (hall f hf).opening) ih
  | property _ hname ih => exact .property ih hname
  | array hall ih => exact .array (fun a ha => (hall a ha).opening) ih
  | index h _ ih => exact .index h ih

end BraceScript
