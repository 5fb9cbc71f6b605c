import BraceScript.Proofs.Statements
import BraceScript.Proofs.StatementSoundness

/-!
# Programs that are read are well formed

The evaluator relies on facts about trees that the types of the trees do not say: names of one list are different, an
assignment has a target, an integer literal fits its width and so on.  `Expr.Proper` and `Stmt.Proper` say what is
asked of a single node.  The grammar gives it for every node of every phrase (`Derives.proper`, `Forms.wellFormed`),
and so it holds throughout a program that was read from a text (`Program.wellFormed_of_parse`).
-/

namespace BraceScript

/-! ### What is asked of a node -/

/-- The integer literal is what a number among the tokens spells in decimal, and has the smallest signed width that
holds it. -/
structure Token.Spells (tokens : List Token) (n : Int) (w : Width) (span : Span) : Prop where
  token : ∃ token ∈ tokens, token.kind = .number ∧ token.span = span ∧ token.text.toList ≠ [] ∧
    (∀ c ∈ token.text.toList, c.isDigit = true) ∧ n = Numeral.ofDigits token.text.toList
  range : 0 ≤ n ∧ n ≤ IntType.maxValue ⟨.w128, true⟩
  holds : IntType.holds ⟨w, true⟩ n = true
  least : ∀ v : Width, IntType.holds ⟨v, true⟩ n = true → w.bits ≤ v.bits

namespace Expr

/-- What is asked of an expression that was read from the tokens, its parts apart. -/
def Proper (tokens : List Token) : Expr → Prop
  | literal (.integer n w) span => Token.Spells tokens n w span
  | unary op operand .after _ => (op.value = .increment ∨ op.value = .decrement) ∧ ∃ id, operand = ident id
  | assign target _ _ _ => (∃ id, target = ident id) ∨ ∃ object name span, target = property object name span
  | build _ fields _ => (fields.map (·.1.name)).Nodup
  | array elements size _ => size = elements.length
  | _ => True

end Expr

/-- What is asked of a statement, the expressions and statements in it apart. -/
def Stmt.Proper : Stmt → Prop
  | function d => (d.params.map (·.name.name)).Nodup
  | struct d => d.Distinct ∧ ∀ m ∈ d.methods, (m.params.map (·.name.name)).Nodup
  | declare d => (d.isConstant = true → d.value.isSome = true) ∧ (d.type = none → d.value.isSome = true)
  | imports _ => False
  | _ => True

/-! ### Expressions -/

/-- All of the expressions are as they should be. -/
def AllProper (tokens : List Token) (es : List Expr) : Prop := ∀ e ∈ es, e.Proper tokens

namespace AllProper

variable {t u : List Token} {e : Expr} {es es' : List Expr}

private theorem nil : AllProper t [] := nofun

private theorem append (h : AllProper t es) (h' : AllProper t es') : AllProper t (es ++ es') :=
  List.forall_mem_append.2 ⟨h, h'⟩

/-- More tokens do no harm. -/
private theorem mono (h : AllProper t es) (hsub : t ⊆ u) : AllProper u es := by
  intro e he
  have hproper := h e he
  cases e with
  | literal value span =>
    cases value with
    | integer n w =>
      obtain ⟨⟨token, hmem, hspells⟩, hrange, hholds, hleast⟩ := hproper
      exact ⟨⟨token, hsub hmem, hspells⟩, hrange, hholds, hleast⟩
    | _ => trivial
  | unary op operand side span => cases side <;> exact hproper
  | _ => exact hproper

/-- It is enough to look at the expression itself and at the parts of its operands. -/
private theorem of_parts (hparts : e.parts = e :: es) (hself : e.Proper t) (hrest : AllProper t es) :
    AllProper t e.parts := by
  rw [hparts]
  exact List.forall_mem_cons.2 ⟨hself, hrest⟩

private theorem listParts (h : ∀ e ∈ es, AllProper t e.parts) : AllProper t (Expr.listParts es) := by
  intro d hd
  obtain ⟨e, he, hd⟩ := Expr.mem_listParts.1 hd
  exact h e he d hd

private theorem fieldParts {fields : List (Ident × Expr)} (h : ∀ f ∈ fields, AllProper t f.2.parts) :
    AllProper t (Expr.fieldParts fields) := by
  intro d hd
  obtain ⟨f, hf, hd⟩ := Expr.mem_fieldParts.1 hd
  exact h f hf d hd

end AllProper

private theorem Token.Denotes.proper {token : Token} {value : Literal} (h : token.Denotes value) :
    (Expr.literal value token.span).Proper [token] := by
  cases h with
  | @integer n hk hpoint hn hmax =>
    unfold Numeral.natural? at hn
    split at hn
    · rename_i hdigits
      cases hn
      have hholds : IntType.widest.holds (Numeral.ofDigits token.text.toList) = true := by
        rw [IntType.holds_iff]
        exact ⟨by simp [IntType.minValue, IntType.widest], Int.ofNat_le.2 hmax⟩
      refine ⟨⟨token, by simp, hk, rfl, hdigits.1, List.all_eq_true.1 hdigits.2, rfl⟩,
        ⟨by simp, Int.ofNat_le.2 hmax⟩, ?_,
        fun v hv => Width.narrowest_le hv⟩
      exact Width.holds_narrowest hholds
    · cases hn
  | _ => trivial

/-- Every part of an expression of the grammar is as it should be. -/
theorem Derives.proper {l : Level} {t : List Token} {e : Expr} (h : Derives l t e) : AllProper t e.parts := by
  induction h with
  | inner _ _ ih => exact ih
  | @assign target value mark op e₁ e₂ _ ht _ _ ih₁ ih₂ =>
    have hself : (Expr.assign e₁ ⟨op, mark.span⟩ e₂ (e₁.span.merge e₂.span)).Proper (target ++ mark :: value) := by
      cases e₁ with
      | ident id => exact .inl ⟨id, rfl⟩
      | property object name span => exact .inr ⟨object, name, span, rfl⟩
      | _ => cases ht
    exact .of_parts rfl hself ((ih₁.mono (by simp)).append (ih₂.mono fun x hx => by simp [hx]))
  | binary _ _ _ _ _ ih₁ ih₂ =>
    exact .of_parts rfl trivial ((ih₁.mono (by simp)).append (ih₂.mono fun x hx => by simp [hx]))
  | before _ _ ih => exact .of_parts rfl trivial (ih.mono fun x hx => by simp [hx])
  | property _ _ _ ih => exact .of_parts rfl trivial (ih.mono fun x hx => by simp [hx])
  | call _ _ hlist _ _ ih ihitems =>
    refine .of_parts rfl trivial (.listParts fun e he => ?_)
    obtain ⟨a, ha, rfl⟩ := List.mem_map.1 he
    exact (ihitems a ha).mono fun x hx => by simp [hlist.mem (List.mem_map_of_mem ha) x hx]
  | after _ hop _ ih => exact .of_parts rfl ⟨hop, _, rfl⟩ (ih.mono fun x hx => by simp [hx])
  | index _ _ _ _ ih ihposition => exact .of_parts rfl trivial (ihposition.mono fun x hx => by simp [hx])
  | literal hv => exact .of_parts rfl hv.proper .nil
  | name => exact .of_parts rfl trivial .nil
  | paren _ _ _ ih => exact ih.mono fun x hx => by simp [hx]
  | array _ hlist _ _ ihitems =>
    refine .of_parts rfl (List.length_map _).symm (.listParts fun e he => ?_)
    obtain ⟨a, ha, rfl⟩ := List.mem_map.1 he
    exact (ihitems a ha).mono fun x hx => by simp [hlist.mem (List.mem_map_of_mem ha) x hx]
  | @build tokens name opening closing fields _ _ hlist _ hdistinct _ _ _ ihvalues =>
    refine .of_parts rfl ?_ (.fieldParts fun g hg => ?_)
    · change ((fields.map FieldItem.field).map (·.1.name)).Nodup
      rw [List.map_map]
      exact hdistinct
    · obtain ⟨f, hf, rfl⟩ := List.mem_map.1 hg
      refine (ihvalues f hf).mono fun x hx => ?_
      have hmem := hlist.mem (List.mem_map_of_mem hf) x (by simp [FieldItem.tokens, hx])
      simp [hmem]

/-! ### Statements -/

/-- All of the expressions and statements are as they should be. -/
structure WellFormed (tokens : List Token) (es : List Expr) (ss : List Stmt) : Prop where
  exprs : AllProper tokens es
  stmts : ∀ s ∈ ss, s.Proper

namespace WellFormed

variable {t u : List Token} {es es' : List Expr} {ss ss' : List Stmt} {s : Stmt}

private theorem of_exprs (h : AllProper t es) : WellFormed t es [] := ⟨h, by simp⟩

private theorem append (h : WellFormed t es ss) (h' : WellFormed t es' ss') : WellFormed t (es ++ es') (ss ++ ss') :=
  ⟨h.exprs.append h'.exprs, List.forall_mem_append.2 ⟨h.stmts, h'.stmts⟩⟩

private theorem mono (h : WellFormed t es ss) (hsub : t ⊆ u) : WellFormed u es ss := ⟨h.exprs.mono hsub, h.stmts⟩

private theorem cons (hs : s.Proper) (h : WellFormed t es ss) : WellFormed t es (s :: ss) :=
  ⟨h.exprs, List.forall_mem_cons.2 ⟨hs, h.stmts⟩⟩

/-- An expression in front of other phrases. -/
private theorem prepend {l : Level} {e : Expr} (he : Derives l t e) (hsub : t ⊆ u) (h : WellFormed u es ss) :
    WellFormed u (e.parts ++ es) ss :=
  ⟨(he.proper.mono hsub).append h.exprs, h.stmts⟩

end WellFormed

private theorem Param.Forms.nodup {t : List Token} {params : List Param} (h : Param.Forms t params) :
    (params.map (·.name.name)).Nodup := by
  cases h with
  | mk _ _ _ hdistinct _ =>
    rw [List.map_map]
    exact hdistinct

private theorem StructDecl.Forms.proper {t : List Token} {d : StructDecl} (h : StructDecl.Forms t d) :
    (Stmt.struct d).Proper := by
  cases h with
  | @mk opening name brace closing items _ _ _ hitems hdistinct _ =>
    constructor
    · refine (Member.perm_names (items.map (·.2))).nodup_iff.2 ?_
      rw [List.map_map]
      exact hdistinct
    · intro m hm
      obtain ⟨member, hmember, hmethod⟩ := List.mem_filterMap.1 hm
      obtain ⟨i, hi, rfl⟩ := List.mem_map.1 hmember
      have hforms := hitems i hi
      generalize i.1 = tokens, i.2 = member at hforms hmethod
      cases hforms with
      | property => cases hmethod
      | method _ _ _ _ hparams =>
        cases hmethod
        exact hparams.nodup

namespace VariableDecl

variable {t : List Token} {d : VariableDecl}

private theorem FormsContent.isSome {type : Option Ty} {value : Option Expr} (h : FormsContent t type value)
    (htype : type = none) : value.isSome = true := by
  cases h with
  | typed | full => cases htype
  | inferred => rfl

private theorem FormsContent.proper {type : Option Ty} {value : Option Expr} (h : FormsContent t type value) :
    AllProper t (value.elim [] Expr.parts) := by
  cases h with
  | typed => exact .nil
  | full _ _ _ hvalue => exact hvalue.proper.mono fun x hx => by simp [hx]
  | inferred _ hvalue => exact hvalue.proper.mono fun x hx => by simp [hx]

theorem Forms.wellFormed (h : Forms t d) : WellFormed t (d.value.elim [] Expr.parts) [.declare d] := by
  cases h with
  | mk _ _ hcontent hconstant _ =>
    refine .cons ⟨fun hk => hconstant (eq_of_beq hk), hcontent.isSome⟩ (.of_exprs ?_)
    exact hcontent.proper.mono fun x hx => by simp [hx]

end VariableDecl

namespace Phrase

/-- The expressions of a phrase with all their parts. -/
def exprs : Phrase → List Expr
  | statement _ s => s.exprs
  | sequence ss => Stmt.listExprs ss
  | block b => b.exprs
  | conditional s => s.exprs
  | alternate a => a.exprs

/-- The statements in a phrase. -/
def parts : Phrase → List Stmt
  | statement _ s => s.parts
  | sequence ss => Stmt.listParts ss
  | block b => b.parts
  | conditional s => s.parts
  | alternate a => a.parts

end Phrase

/-- Every node of a phrase of the grammar is as it should be, unless the phrase is an import outside of blocks. -/
theorem Forms.wellFormed {t : List Token} {p : Phrase} (h : Forms t p)
    (hp : ∀ i, p ≠ .statement false (.imports i)) : WellFormed t p.exprs p.parts := by
  induction h with
  | expression h => exact .cons trivial (.of_exprs (h.proper.mono (by simp)))
  | declare h => exact h.wellFormed
  | struct h => exact .cons h.proper (.of_exprs .nil)
  | imports h => exact absurd rfl (hp _)
  | leave => exact .cons trivial (.of_exprs .nil)
  | answer _ h _ => exact .cons trivial (.of_exprs (h.proper.mono fun x hx => by simp [hx]))
  | inBlock _ ih => exact .cons trivial (ih nofun)
  | branch _ _ ih => exact .cons trivial (ih nofun)
  | function _ _ hparams _ _ ih => exact .cons hparams.nodup ((ih nofun).mono fun x hx => by simp [hx])
  | whileLoop _ hcondition _ ih =>
    exact .cons trivial (.prepend hcondition (fun x hx => by simp [hx]) ((ih nofun).mono fun x hx => by simp [hx]))
  | forLoop _ _ _ hinit _ hcondition _ hpost _ ih =>
    refine .cons trivial (.prepend hinit (fun x hx => by simp [hx])
      (.prepend hcondition (fun x hx => by simp [hx]) ?_))
    exact .prepend hpost (fun x hx => by simp [hx]) ((ih nofun).mono fun x hx => by simp [hx])
  | foreach _ _ _ _ hiterable _ ih =>
    exact .cons trivial (.prepend hiterable (fun x hx => by simp [hx]) ((ih nofun).mono fun x hx => by simp [hx]))
  | nil => exact .of_exprs .nil
  | cons _ _ ih ih' => exact ((ih nofun).mono (by simp)).append ((ih' nofun).mono (by simp))
  | block _ _ _ ih => exact (ih nofun).mono fun x hx => by simp [hx]
  | conditional _ hcondition _ _ ih ih' =>
    refine .prepend hcondition (fun x hx => by simp [hx]) ?_
    exact ((ih nofun).mono fun x hx => by simp [hx]).append ((ih' nofun).mono fun x hx => by simp [hx])
  | nothing => exact .of_exprs .nil
  | elseIf _ _ ih => exact ih nofun
  | otherwise _ _ ih => exact (ih nofun).mono fun x hx => by simp [hx]

/-! ### Programs -/

namespace Program

theorem Forms.wellFormed {t : List Token} {entries : List Entry} (h : Forms t entries) :
    WellFormed t (Stmt.listExprs (entries.filterMap Entry.content?))
      (Stmt.listParts (entries.filterMap Entry.content?)) := by
  induction h with
  | nil => exact .of_exprs .nil
  | module _ _ _ _ _ ih => exact ih.mono fun x hx => by simp [hx]
  | @statement t u s entries hs _ ih =>
    have hrest := ih.mono (List.subset_append_right t u)
    cases s with
    | imports i => exact hrest
    | _ => exact ((hs.wellFormed nofun).mono (List.subset_append_left t u)).append hrest

/-- In a program that was read from a text every node, at any depth, is as it should be: names of parameters, of
members and of fields are different, an array literal has its size, an assignment has a target, `++` and `--` stand
behind names only, an integer literal is the number that its token spells, with the least signed width, a constant
has a value and so has a declaration without a type, and no import stands among the statements. -/
theorem wellFormed_of_parse {source file : String} {p : Parsed} (h : parse source file = .ok p) :
    ∃ tokens, Token.tokenize source = .ok tokens ∧ (∀ e ∈ p.program.exprs, e.Proper tokens) ∧
      ∀ s ∈ Stmt.listParts p.program.contents, s.Proper := by
  unfold parse at h
  split at h
  · rename_i tokens htokens
    obtain ⟨-, front, stop, hlast⟩ := Token.tokenize_valid htokens
    have heof : ∃ token ∈ tokens, token.kind = .eof := ⟨Token.eofAt stop, by simp [hlast], rfl⟩
    obtain ⟨t, eof, rest, entries, rfl, -, -, hforms, hconsists, -⟩ := forms_of_ofTokens heof h
    have hwell := hforms.wellFormed.mono (List.subset_append_left t (eof :: rest))
    rw [← hconsists.contents] at hwell
    exact ⟨_, htokens, hwell.exprs, hwell.stmts⟩
  · cases h

private def nestedText : String :=
  "import \"m\"; struct P \x7b pub x: i32; priv static y: str; pub f(a: i32, b: []u8) -> i32; \x7d " ++
  "fn g(a: i32, b: i32) -> i32 \x7b const c := 128; let d: []i32 = [1, 2, 300]; a += c; b++; " ++
  "if a < b \x7b \x7b let q: P; \x7d \x7d els \x7b ret P \x7b x: 1, y: \"t\" \x7d.x; \x7d ret d[0]; \x7d"

/-- How many expressions and statements a program has. -/
private def sizesOf (source : String) : Option (Nat × Nat) :=
  match parse source "m" with
  | .ok p => some (p.program.exprs.length, (Stmt.listParts p.program.contents).length)
  | .error _ => none

private theorem parse_of_sizesOf {source : String} {m n : Nat} (h : sizesOf source = some (m, n)) :
    ∃ p, parse source "m" = .ok p ∧ p.program.exprs.length = m ∧ (Stmt.listParts p.program.contents).length = n := by
  unfold sizesOf at h
  split at h
  · rename_i p hparse
    cases h
    exact ⟨p, hparse, rfl, rfl⟩
  · cases h

/-- A program with a struct, a function and blocks in blocks. -/
theorem wellFormed_of_parse_nested :
    ∃ p tokens, parse nestedText "m" = .ok p ∧ p.program.exprs.length = 19 ∧
      (Stmt.listParts p.program.contents).length = 11 ∧ Token.tokenize nestedText = .ok tokens ∧
      (∀ e ∈ p.program.exprs, e.Proper tokens) ∧ ∀ s ∈ Stmt.listParts p.program.contents, s.Proper := by
  have hsizes : sizesOf nestedText = some (19, 11) := by decide +kernel
  obtain ⟨p, hparse, hexprs, hstmts⟩ := parse_of_sizesOf hsizes
  obtain ⟨tokens, htokens, hproper, hproper'⟩ := wellFormed_of_parse hparse
  exact ⟨p, tokens, hparse, hexprs, hstmts, htokens, hproper, hproper'⟩

end Program

end BraceScript
