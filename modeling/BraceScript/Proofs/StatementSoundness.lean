import BraceScript.Proofs.ExprSoundness
import BraceScript.Proofs.StatementGrammar

/-!
# What is read is formed

Everything that the readers of types, declarations, statements and programs accept is formed by the tokens that they
have passed: `Stmt.finds_read` for statements, `Program.forms_of_ofTokens` for whole programs.

`c.Moves t c'` is `Cursor.Passes` for phrases: the tokens may include semicolons and warnings may be given on the
way.  `r.Finds c R` says that the tokens that `r` passes from `c` and its result are in the relation `R`; it has a
rule for each way in which readers are put together.
-/

namespace BraceScript

/-! ### Moving over tokens -/

namespace Cursor

/-- The tokens from the next one on. -/
def tokens (c : Cursor) : List Token := c.next :: c.rest

/-- The text ends among the tokens from the next one on. -/
def Ended (c : Cursor) : Prop := ∃ token ∈ c.tokens, token.kind = .eof

/-- The cursor `c'` stands behind the tokens `t` of `c`, and the text does not end among these. -/
structure Moves (c : Cursor) (t : List Token) (c' : Cursor) : Prop where
  tokens : c.tokens = t ++ c'.tokens
  last : c'.last = (t.getLast?.map Token.span).or c.last
  inner : ∀ token ∈ t, token.kind ≠ .eof

variable {c c₁ c₂ c' : Cursor} {t u : List Token}

namespace Moves

private theorem refl (c : Cursor) : c.Moves [] c := ⟨rfl, rfl, by simp⟩

private theorem trans (h₁ : c.Moves t c₁) (h₂ : c₁.Moves u c₂) : c.Moves (t ++ u) c₂ where
  tokens := by rw [h₁.tokens, h₂.tokens, List.append_assoc]
  last := by
    rw [h₂.last, h₁.last, List.getLast?_append]
    cases u.getLast? <;> rfl
  inner := List.forall_mem_append.2 ⟨h₁.inner, h₂.inner⟩

end Moves

theorem Passes.moves (h : c.Passes t c') : c.Moves t c' where
  tokens := h.tokens
  last := h.last
  inner token hmem heof := by
    have hplain := h.plain token hmem
    rw [heof] at hplain
    cases hplain

namespace Ended

private theorem fenced (h : c.Ended) : c.Fenced := by
  obtain ⟨token, hmem, hk⟩ := h
  exact ⟨token, hmem, by rw [hk]; rfl⟩

private theorem moves (h : c.Ended) (hmoves : c.Moves t c') : c'.Ended := by
  obtain ⟨token, hmem, hk⟩ := h
  rw [hmoves.tokens] at hmem
  rcases List.mem_append.1 hmem with hmem | hmem
  · exact absurd hk (hmoves.inner token hmem)
  · exact ⟨token, hmem, hk⟩

/-- A token in front of the end of the text can be passed. -/
private theorem advance (h : c.Ended) (hne : c.next.kind ≠ .eof) : c.Moves [c.next] c.advance := by
  obtain ⟨next, rest, last, warnings⟩ := c
  obtain ⟨token, hmem, hk⟩ := h
  cases rest with
  | nil =>
    obtain rfl : token = next := by simpa [tokens] using hmem
    exact absurd hk hne
  | cons next' rest =>
    rw [advance_of_ne_eof last warnings hne]
    exact ⟨rfl, rfl, by simpa using hne⟩

end Ended

end Cursor

/-! ### What readers find -/

namespace Reader

variable {α β : Type} {c : Cursor} {R : List Token → α → Prop} {Q : List Token → β → Prop}

/-- From a cursor over a text that ends, the reader passes tokens that are in the relation `R` with its result. -/
def Finds (r : Reader α) (c : Cursor) (R : List Token → α → Prop) : Prop :=
  c.Ended → ∀ ⦃a : α⦄ ⦃c' : Cursor⦄, r c = .done a c' → ∃ t, c.Moves t c' ∧ R t a

namespace Finds

private theorem mono {r : Reader α} {R' : List Token → α → Prop} (h : r.Finds c R) (hR : ∀ t a, R t a → R' t a) :
    r.Finds c R' := by
  intro hc a c' ha
  obtain ⟨t, hmoves, ht⟩ := h hc ha
  exact ⟨t, hmoves, hR t a ht⟩

private theorem bind {r : Reader α} {f : α → Reader β} (h : r.Finds c R)
    (hf : ∀ t a c₁, R t a → (f a).Finds c₁ fun u b => Q (t ++ u) b) : (r >>= f).Finds c Q := by
  intro hc b c' hb
  obtain ⟨a, c₁, ha, hb⟩ := bind_eq_done_iff.1 hb
  obtain ⟨t, hmoves, ht⟩ := h hc ha
  obtain ⟨u, hmoves', hu⟩ := hf t a c₁ ht (hc.moves hmoves) hb
  exact ⟨t ++ u, hmoves.trans hmoves', hu⟩

private theorem ite {b : Prop} [Decidable b] {r₁ r₂ : Reader α} (h₁ : b → r₁.Finds c R) (h₂ : ¬ b → r₂.Finds c R) :
    (if b then r₁ else r₂).Finds c R := by
  split
  · exact h₁ ‹b›
  · exact h₂ ‹¬ b›

end Finds

private theorem finds_pure {a : α} (h : R [] a) : (pure a : Reader α).Finds c R := by
  rintro - _ _ ⟨⟩
  exact ⟨[], .refl c, h⟩

private theorem finds_exhausted : (exhausted : Reader α).Finds c R := by
  rintro - a c' ⟨⟩

private theorem finds_fail (cause : SyntaxError.Cause) (span : Span) : (fail cause span : Reader α).Finds c R := by
  rintro - a c' ⟨⟩

private theorem finds_failHere (cause : SyntaxError.Cause) : (failHere cause : Reader α).Finds c R := by
  rintro - a c' ⟨⟩

private theorem finds_warn (cause : SyntaxWarning.Cause) (span : Span) :
    (warn cause span).Finds c fun t _ => t = [] := by
  rintro - a c' ⟨⟩
  exact ⟨[], ⟨rfl, rfl, by simp⟩, rfl⟩

private theorem finds_advance (hne : c.next.kind ≠ .eof) :
    advance.Finds c fun t token => t = [token] ∧ token = c.next := by
  rintro hc _ _ ⟨⟩
  exact ⟨[c.next], hc.advance hne, rfl, rfl⟩

private theorem finds_expect {kind : Kind} (hne : kind ≠ .eof) :
    (expect kind).Finds c fun t token => t = [token] ∧ token.kind = kind := by
  intro hc token c' h
  unfold expect at h
  split at h
  · rename_i hk
    cases h
    exact ⟨[c.next], hc.advance (by rwa [hk]), rfl, hk⟩
  · cases h

private theorem finds_symbol (s : Symbol) :
    (expectSymbol s).Finds c fun t token => t = [token] ∧ token.kind = .symbol s :=
  finds_expect nofun

private theorem finds_keyword (k : Keyword) :
    (expectKeyword k).Finds c fun t token => t = [token] ∧ token.kind = .keyword k :=
  finds_expect nofun

private theorem finds_ident :
    ident.Finds c fun t id => ∃ token, t = [token] ∧ token.kind = .ident ∧ id = token.toIdent := by
  have hne : Kind.ident ≠ .eof := nofun
  refine (finds_expect hne).bind ?_
  rintro _ token c₁ ⟨rfl, hk⟩
  exact finds_pure ⟨token, rfl, hk, rfl⟩

private theorem finds_eat {kind : Kind} (hne : kind ≠ .eof) : (eat kind).Finds c fun t b =>
    (b = true ∧ ∃ token, t = [token] ∧ token.kind = kind) ∨ (b = false ∧ t = []) := by
  intro hc b c' h
  unfold eat at h
  split at h
  · rename_i hk
    cases h
    exact ⟨[c.next], hc.advance (by rwa [hk]), .inl ⟨rfl, c.next, rfl, hk⟩⟩
  · cases h
    exact ⟨[], .refl c, .inr ⟨rfl, rfl⟩⟩

/-! Readers that only look at the next token. -/

private theorem finds_current_bind {f : Token → Reader β} (h : (f c.next).Finds c Q) : (current >>= f).Finds c Q := h

private theorem finds_cursor_bind {f : Cursor → Reader β} (h : (f c).Finds c Q) : (cursor >>= f).Finds c Q := h

private theorem finds_at?_bind {kind : Kind} {f : Bool → Reader β} (h : (f (c.next.kind == kind)).Finds c Q) :
    (at? kind >>= f).Finds c Q := h

/-! Lists, with and without commas.  `I` is an invariant of the items so far, latest first. -/

private theorem finds_upTo {item : List α → Reader α} {I : List α → Prop}
    (hitem : ∀ before c, I before → (item before).Finds c fun t a => I (a :: before) ∧ R t a) (closer : Symbol)
    (fuel : Nat) {before : List α} (hbefore : I before) :
    (upTo closer item fuel before).Finds c fun t as => I as.reverse ∧ ∃ items : List (List Token × α),
      t = items.flatMap (·.1) ∧ as = before.reverse ++ items.map (·.2) ∧ ∀ i ∈ items, R i.1 i.2 := by
  induction fuel generalizing before c with
  | zero => exact finds_exhausted
  | succ fuel ih =>
    rw [upTo]
    refine finds_current_bind ?_
    split
    · exact finds_pure ⟨by simpa using hbefore, [], by simp⟩
    · refine (hitem before c hbefore).bind ?_
      rintro t a c₁ ⟨hI, ha⟩
      refine (ih hI).mono ?_
      rintro _ _ ⟨hI', items, rfl, rfl, hitems⟩
      exact ⟨hI', (t, a) :: items, by simp, by simp, List.forall_mem_cons.2 ⟨ha, hitems⟩⟩

private theorem moves_way : Way Cursor.Ended Cursor.Moves := by
  refine ⟨.refl, .trans, .moves, fun {c c' token} hc h => ?_⟩
  obtain ⟨t, hmoves, rfl, hk⟩ := finds_symbol .comma hc h
  exact ⟨hk, hmoves⟩

private theorem finds_list {item : List α → Reader α} {I : List α → Prop}
    (hitem : ∀ before c, I before → (item before).Finds c fun t a => I (a :: before) ∧ R t a) (closer : Symbol)
    (fuel : Nat) (hnil : I []) :
    (upTo closer (fun before => listed closer (item before)) fuel []).Finds c fun t as => I as.reverse ∧
      ∃ items : List (List Token × α), Listed (items.map (·.1)) t ∧ as = items.map (·.2) ∧
      ∀ i ∈ items, R i.1 i.2 := by
  intro hc as c' h
  obtain ⟨hI, items, tokens, rfl, hmoves, hlist, hitems⟩ := moves_way.upTo item I R (fun before c a c' hI hc ha => by
    obtain ⟨t, hmoves, hI', hR⟩ := hitem before c hI hc ha
    exact ⟨hI', t, hmoves, hR⟩) hnil hc h
  exact ⟨tokens, hmoves, hI, items, hlist, rfl, hitems⟩

end Reader

open Reader

private theorem Expr.finds_read {floor : Precedence} {l : Level} (hl : floor.level? = some l) (fuel : Nat)
    {c : Cursor} : (Expr.read fuel floor).Finds c (Derives l) := by
  intro hc e c' h
  obtain ⟨t, hpass, hderives, -⟩ := Expr.read_sound hl hc.fenced h
  exact ⟨t, hpass.moves, hderives⟩

/-! ### Types -/

private theorem Brackets.append {m n : Nat} {t u : List Token} (h : Brackets m t) (h' : Brackets n u) :
    Brackets (m + n) (t ++ u) := by
  induction h with
  | nil => simpa using h'
  | @cons m _ _ _ hopening hclosing _ ih =>
    have hcons := Brackets.cons hopening hclosing ih
    rwa [Nat.add_right_comm] at hcons

namespace Ty

variable {c : Cursor}

theorem nest_succ (n : Nat) (t : Ty) : t.nest (n + 1) = (array t).nest n := by
  induction n with
  | zero => rfl
  | succ n ih => exact congrArg array ih

private theorem nest_nest (m n : Nat) (t : Ty) : (t.nest m).nest n = t.nest (n + m) := by
  induction n with
  | zero => rw [Nat.zero_add, nest]
  | succ n ih => rw [nest, ih, Nat.add_right_comm, nest]

private theorem finds_readBrackets : readBrackets.Finds c fun t _ => Brackets 1 t := by
  refine (finds_symbol .lBracket).bind ?_
  rintro _ opening c₁ ⟨rfl, hopening⟩
  refine (finds_symbol .rBracket).bind ?_
  rintro _ closing c₂ ⟨rfl, hclosing⟩
  exact finds_pure (.cons hopening hclosing .nil)

private theorem finds_readBase : readBase.Finds c fun t type => ∃ token, t = [token] ∧ token.NamesType type := by
  refine finds_current_bind ?_
  split
  · refine finds_ident.bind ?_
    rintro _ _ c₁ ⟨token, rfl, hk, rfl⟩
    have hname := Token.NamesType.name hk
    cases htype : ofName? token.text with
    | some type =>
      rw [htype] at hname
      simp only [Token.toIdent, htype]
      exact finds_pure ⟨token, rfl, hname⟩
    | none =>
      rw [htype] at hname
      simp only [Token.toIdent, htype]
      refine (finds_warn _ _).bind ?_
      rintro _ _ c₂ rfl
      exact finds_pure ⟨token, rfl, hname⟩
  · rename_i hk
    refine (finds_advance (by simp [hk])).bind ?_
    rintro _ _ c₁ ⟨rfl, rfl⟩
    exact finds_pure ⟨c.next, rfl, .null hk⟩
  · exact finds_failHere _

private theorem finds_readSuffix (fuel : Nat) (type : Ty) :
    (readSuffix fuel type).Finds c fun t type' => ∃ n, Brackets n t ∧ type' = type.nest n := by
  induction fuel generalizing c type with
  | zero => exact finds_exhausted
  | succ fuel ih =>
    refine finds_at?_bind ?_
    split
    · refine finds_readBrackets.bind fun t _ c₁ ht => (ih _).mono ?_
      rintro u _ ⟨n, hu, rfl⟩
      have hboth := Brackets.append ht hu
      rw [Nat.add_comm] at hboth
      exact ⟨n + 1, hboth, (nest_succ n type).symm⟩
    · exact finds_pure ⟨0, .nil, rfl⟩

private theorem finds_read (fuel : Nat) : (read fuel).Finds c Forms := by
  induction fuel generalizing c with
  | zero => exact finds_exhausted
  | succ fuel ih =>
    refine finds_at?_bind ?_
    split
    · refine finds_readBrackets.bind fun t _ c₁ ht => ih.bind fun u type c₂ hu => (finds_readSuffix fuel _).mono ?_
      rintro more _ ⟨k, hmore, rfl⟩
      cases hu with
      | @mk m n before after base type hbefore hbase hafter =>
        have hforms := Forms.mk (ht.append hbefore) hbase (hafter.append hmore)
        have hdepth : k + 1 + (m + n) = 1 + m + (n + k) := by omega
        rw [← nest_succ, nest_nest, hdepth]
        simpa using hforms
    · refine finds_readBase.bind ?_
      rintro _ base c₁ ⟨token, rfl, hbase⟩
      refine (finds_readSuffix fuel base).mono ?_
      rintro t _ ⟨n, ht, rfl⟩
      have hforms := Forms.mk .nil hbase ht
      rwa [Nat.zero_add] at hforms

private theorem finds_readReturn (fuel : Nat) : (readReturn fuel).Finds c FormsReturn := by
  have hne : Kind.symbol .arrow ≠ .eof := nofun
  refine (finds_eat hne).bind ?_
  rintro _ _ c₁ (⟨rfl, arrow, rfl, harrow⟩ | ⟨rfl, rfl⟩)
  · exact (finds_read fuel).mono fun t type ht => .arrow harrow ht
  · exact finds_pure .nothing

end Ty

/-! ### Declarations -/

namespace Param

variable {c : Cursor}

private theorem finds_read (fuel : Nat) {before : List Param} (hbefore : (before.map (·.name.name)).Nodup) :
    (read fuel before).Finds c fun t p => ((p :: before).map (·.name.name)).Nodup ∧
      ∃ i : ParamItem, i.all = t ∧ i.param = p ∧ i.Proper := by
  refine finds_ident.bind ?_
  rintro _ _ c₁ ⟨name, rfl, hname, rfl⟩
  split
  · exact finds_fail _ _
  · rename_i hnew
    refine (finds_symbol .colon).bind ?_
    rintro _ colon c₂ ⟨rfl, hcolon⟩
    refine (Ty.finds_read fuel).bind fun t type c₃ htype => finds_pure ⟨?_, ?_⟩
    · exact List.nodup_cons.2 ⟨by simpa using hnew, hbefore⟩
    · exact ⟨⟨name, colon, t, type⟩, by simp [ParamItem.all], rfl, hname, hcolon, htype⟩

private theorem finds_readList (fuel : Nat) : (readList fuel).Finds c Forms := by
  have hnil : (([] : List Param).map (·.name.name)).Nodup := List.nodup_nil
  refine (finds_symbol .lParen).bind ?_
  rintro _ opening c₁ ⟨rfl, hopening⟩
  refine (finds_list (I := fun ps => (ps.map (·.name.name)).Nodup) (fun before c hbefore => finds_read fuel hbefore)
    .rParen fuel hnil).bind ?_
  rintro t _ c₂ ⟨hdistinct, pairs, hlist, rfl, hpairs⟩
  obtain ⟨items, hall, hparams, hitems⟩ := exists_items ParamItem.all ParamItem.param ParamItem.Proper hpairs
  refine (finds_symbol .rParen).bind ?_
  rintro _ closing c₃ ⟨rfl, hclosing⟩
  -- the parameters so far are kept latest first
  have hnames : (items.map (·.param.name.name)).Nodup := by
    rw [List.map_reverse, (List.reverse_perm _).nodup_iff, hparams, List.map_map] at hdistinct
    exact hdistinct
  rw [hall] at hlist
  rw [hparams]
  exact finds_pure (by simpa using Forms.mk hopening hlist hitems hnames hclosing)

end Param

namespace Member

variable {c : Cursor}

private theorem finds_flag (k : Keyword) : (Reader.eat (.keyword k)).Finds c fun t b => Flag k b t := by
  have hne : Kind.keyword k ≠ .eof := nofun
  refine (finds_eat hne).mono ?_
  rintro _ _ (⟨rfl, token, rfl, hk⟩ | ⟨rfl, rfl⟩)
  · exact .present hk
  · exact .absent

private theorem finds_readRest (fuel : Nat) {access name : Token} {static locked : List Token}
    {isStatic isReadonly : Bool} (haccess : access.kind = .keyword .access)
    (hstatic : Flag .staticKw isStatic static) (hreadonly : Flag .readonly isReadonly locked)
    (hname : name.kind = .ident) :
    (readRest fuel name.toIdent access.visibility isStatic isReadonly).Finds c fun t m =>
      m.name = name.text ∧ Forms (access :: (static ++ (locked ++ name :: t))) m := by
  refine finds_at?_bind ?_
  split
  · refine (Param.finds_readList fuel).bind fun t params c₁ hparams => ?_
    refine (Ty.finds_readReturn fuel).bind fun u type c₂ hreturn => (finds_symbol .semicolon).bind ?_
    rintro _ semicolon c₃ ⟨rfl, hsemicolon⟩
    exact finds_pure ⟨rfl, by simpa using Forms.method haccess hstatic hreadonly hname hparams hreturn hsemicolon⟩
  · refine (finds_symbol .colon).bind ?_
    rintro _ colon c₁ ⟨rfl, hcolon⟩
    refine (Ty.finds_read fuel).bind fun t type c₂ htype => (finds_symbol .semicolon).bind ?_
    rintro _ semicolon c₃ ⟨rfl, hsemicolon⟩
    exact finds_pure ⟨rfl, by simpa using Forms.property haccess hstatic hreadonly hname hcolon htype hsemicolon⟩

private theorem finds_read (fuel : Nat) (struct : String) {before : List Member}
    (hbefore : (before.map name).Nodup) :
    (read fuel struct before).Finds c fun t m => ((m :: before).map name).Nodup ∧ Forms t m := by
  refine finds_current_bind ?_
  split
  · rename_i hfirst
    refine (finds_advance (by rw [hfirst]; nofun)).bind ?_
    rintro _ _ c₁ ⟨rfl, rfl⟩
    refine (finds_flag .staticKw).bind fun static isStatic c₂ hstatic => ?_
    refine (finds_flag .readonly).bind fun locked isReadonly c₃ hreadonly => finds_ident.bind ?_
    rintro _ _ c₄ ⟨name, rfl, hname, rfl⟩
    split
    · exact finds_fail _ _
    · rename_i hnew
      refine (finds_readRest fuel hfirst hstatic hreadonly hname).mono fun t m hm => ?_
      refine ⟨List.nodup_cons.2 ⟨?_, hbefore⟩, by simpa using hm.2⟩
      rw [hm.1]
      simpa using hnew
  · exact finds_failHere _

end Member

private theorem StructDecl.finds_read (fuel : Nat) {c : Cursor} :
    (StructDecl.read fuel).Finds c StructDecl.Forms := by
  have hnil : (([] : List Member).map Member.name).Nodup := List.nodup_nil
  refine (finds_keyword .structKw).bind ?_
  rintro _ opening c₁ ⟨rfl, hopening⟩
  refine finds_ident.bind ?_
  rintro _ _ c₂ ⟨name, rfl, hname, rfl⟩
  refine (finds_symbol .lBrace).bind ?_
  rintro _ brace c₃ ⟨rfl, hbrace⟩
  refine (finds_upTo (I := fun ms => (ms.map Member.name).Nodup)
    (fun before c hbefore => Member.finds_read fuel name.text hbefore) .rBrace fuel hnil).bind ?_
  rintro _ _ c₄ ⟨hdistinct, items, rfl, rfl, hitems⟩
  refine (finds_symbol .rBrace).bind ?_
  rintro _ closing c₅ ⟨rfl, hclosing⟩
  have hnames : (items.map (·.2.name)).Nodup := by
    rw [List.map_reverse, (List.reverse_perm _).nodup_iff, List.reverse_nil, List.nil_append, List.map_map]
      at hdistinct
    exact hdistinct
  exact finds_pure (by simpa using StructDecl.Forms.mk hopening hname hbrace hitems hnames hclosing)

namespace Import

variable {c : Cursor}

private theorem finds_readNames (fuel : Nat) : (readNames fuel).Finds c FormsNames := by
  have hne : Kind.symbol .lBrace ≠ .eof := nofun
  have hitem : ∀ (before : List Ident) (c : Cursor), True → ident.Finds c fun t id => True ∧
      ∃ name, [name] = t ∧ name.toIdent = id ∧ name.kind = .ident := by
    intro before c _
    refine finds_ident.mono ?_
    rintro _ _ ⟨name, rfl, hname, rfl⟩
    exact ⟨trivial, name, rfl, rfl, hname⟩
  refine (finds_eat hne).bind ?_
  rintro _ _ c₁ (⟨rfl, opening, rfl, hopening⟩ | ⟨rfl, rfl⟩)
  · refine (finds_list hitem .rBrace fuel trivial).bind ?_
    rintro t _ c₂ ⟨-, pairs, hlist, rfl, hpairs⟩
    obtain ⟨names, htokens, hidents, hnames⟩ :=
      exists_items (fun name : Token => [name]) Token.toIdent (·.kind = .ident) hpairs
    refine (finds_symbol .rBrace).bind ?_
    rintro _ closing c₃ ⟨rfl, hclosing⟩
    refine (finds_keyword .fromKw).bind ?_
    rintro _ word c₄ ⟨rfl, hword⟩
    rw [htokens] at hlist
    rw [hidents]
    exact finds_pure (by simpa using FormsNames.names hopening hlist hnames hclosing hword)
  · exact finds_pure .nothing

private theorem finds_read (fuel : Nat) (nested : Bool) :
    (read fuel nested).Finds c fun t i => nested = false ∧ Forms t i := by
  refine (finds_keyword .importKw).bind ?_
  rintro _ opening c₁ ⟨rfl, hopening⟩
  split
  · exact finds_fail _ _
  · rename_i hnested
    have hne : Kind.string ≠ .eof := nofun
    refine (finds_readNames fuel).bind fun t names c₂ hnames => (finds_expect hne).bind ?_
    rintro _ path c₃ ⟨rfl, hpath⟩
    refine (finds_symbol .semicolon).bind ?_
    rintro _ semicolon c₄ ⟨rfl, hsemicolon⟩
    exact finds_pure ⟨by simpa using hnested, by simpa using Forms.mk hopening hnames hpath hsemicolon⟩

end Import

namespace VariableDecl

variable {c : Cursor}

private theorem finds_readContent (fuel : Nat) (name : Ident) :
    (readContent fuel name).Finds c fun t content => FormsContent t content.1 content.2 := by
  have hcolonNe : Kind.symbol .colon ≠ .eof := nofun
  have hassignNe : Kind.symbol .assign ≠ .eof := nofun
  refine (finds_eat hcolonNe).bind ?_
  rintro _ _ c₁ (⟨rfl, colon, rfl, hcolon⟩ | ⟨rfl, rfl⟩)
  · refine (Ty.finds_read fuel).bind fun t type c₂ htype => (finds_eat hassignNe).bind ?_
    rintro _ _ c₃ (⟨rfl, mark, rfl, hmark⟩ | ⟨rfl, rfl⟩)
    · refine (Expr.finds_read rfl fuel).bind fun u e c₄ hvalue => finds_pure ?_
      simpa using FormsContent.full hcolon htype hmark hvalue
    · exact finds_pure (by simpa using FormsContent.typed hcolon htype)
  · refine (finds_symbol .define).bind ?_
    rintro _ mark c₂ ⟨rfl, hmark⟩
    refine finds_at?_bind ?_
    split
    · exact finds_failHere _
    · refine (Expr.finds_read rfl fuel).bind fun t e c₃ hvalue => finds_pure ?_
      simpa using FormsContent.inferred hmark hvalue

private theorem finds_read (fuel : Nat) (hfirst : c.next.kind = .keyword .letKw ∨ c.next.kind = .keyword .constKw) :
    (read fuel).Finds c Forms := by
  have hne : c.next.kind ≠ .eof := by rcases hfirst with h | h <;> rw [h] <;> nofun
  refine (finds_advance hne).bind ?_
  rintro _ _ c₁ ⟨rfl, rfl⟩
  refine finds_ident.bind ?_
  rintro _ _ c₂ ⟨name, rfl, hname, rfl⟩
  refine (finds_readContent fuel name.toIdent).bind fun t content c₃ hcontent => ?_
  obtain ⟨type, value⟩ := content
  refine .ite (fun _ => finds_fail _ _) fun hconstant => (finds_symbol .semicolon).bind ?_
  rintro _ semicolon c₄ ⟨rfl, hsemicolon⟩
  have hsome : c.next.kind = .keyword .constKw → value.isSome = true := by
    intro hk
    rw [hk] at hconstant
    simpa [Option.isSome_iff_ne_none] using hconstant
  exact finds_pure (by simpa using Forms.mk hfirst hname hcontent hsome hsemicolon)

end VariableDecl

/-! ### Statements -/

/-- Statements one after another are a sequence. -/
private theorem Forms.sequence {items : List (List Token × Stmt)}
    (h : ∀ i ∈ items, Forms i.1 (.statement true i.2)) :
    Forms (items.flatMap (·.1)) (.sequence (items.map (·.2))) := by
  induction items with
  | nil => exact .nil
  | cons i items ih =>
    obtain ⟨hi, hitems⟩ := List.forall_mem_cons.1 h
    exact .cons hi (ih hitems)

namespace Stmt

variable {c : Cursor}

private theorem finds_readReturn (fuel : Nat) (nested : Bool) :
    (readReturn fuel).Finds c fun t s => Forms t (.statement nested s) := by
  refine (finds_keyword .ret).bind ?_
  rintro _ opening c₁ ⟨rfl, hopening⟩
  refine finds_at?_bind ?_
  split
  · rename_i hnext
    have hsemicolon : c₁.next.kind = .symbol .semicolon := eq_of_beq hnext
    refine (finds_advance (by rw [hsemicolon]; nofun)).bind ?_
    rintro _ _ c₂ ⟨rfl, rfl⟩
    exact finds_pure (.leave hopening hsemicolon)
  · refine (Expr.finds_read rfl fuel).bind fun t e c₂ he => (finds_symbol .semicolon).bind ?_
    rintro _ semicolon c₃ ⟨rfl, hsemicolon⟩
    exact finds_pure (by simpa using Forms.answer hopening he hsemicolon)

private theorem finds_readExpression (fuel : Nat) (nested : Bool) :
    (readExpression fuel).Finds c fun t s => Forms t (.statement nested s) := by
  refine (Expr.finds_read rfl fuel).bind fun t e c₁ he => (finds_symbol .semicolon).bind ?_
  rintro _ semicolon c₂ ⟨rfl, hsemicolon⟩
  exact finds_pure (by simpa using Forms.expression he hsemicolon)

/-- What the readers of phrases find with the given fuel. -/
structure Finders (fuel : Nat) : Prop where
  stmt : ∀ {c : Cursor} (nested : Bool), (Stmt.read fuel nested).Finds c fun t s => Forms t (.statement nested s)
  block : ∀ {c : Cursor}, (Block.read fuel).Finds c fun t b => Forms t (.block b)
  branch : ∀ {c : Cursor}, c.next.kind = .keyword .ifKw ∨ c.next.kind = .keyword .elfKw →
    (IfStmt.read fuel).Finds c fun t s => (∃ u, t = c.next :: u) ∧ Forms t (.conditional s)
  alternate : ∀ {c : Cursor}, (Alternate.read fuel).Finds c fun t a => Forms t (.alternate a)
  function : ∀ {c : Cursor} (nested : Bool),
    (FunctionDecl.read fuel).Finds c fun t d => Forms t (.statement nested (.function d))
  whileLoop : ∀ {c : Cursor} (nested : Bool), (readWhile fuel).Finds c fun t s => Forms t (.statement nested s)
  forLoop : ∀ {c : Cursor} (nested : Bool), (readFor fuel).Finds c fun t s => Forms t (.statement nested s)
  foreach : ∀ {c : Cursor} (nested : Bool), (readForeach fuel).Finds c fun t s => Forms t (.statement nested s)

namespace Finders

variable {fuel : Nat}

private theorem stmt_succ (h : Finders fuel) (nested : Bool) :
    (Stmt.read (fuel + 1) nested).Finds c fun t s => Forms t (.statement nested s) := by
  unfold Stmt.read
  refine finds_current_bind ?_
  split
  · rename_i hk
    exact (VariableDecl.finds_read fuel (.inl hk)).bind fun t d _ hd => finds_pure (by simpa using Forms.declare hd)
  · rename_i hk
    exact (VariableDecl.finds_read fuel (.inr hk)).bind fun t d _ hd => finds_pure (by simpa using Forms.declare hd)
  · exact h.block.bind fun t b _ hb => finds_pure (by simpa using Forms.inBlock hb)
  · rename_i hk
    refine (h.branch (.inl hk)).bind ?_
    rintro _ s _ ⟨⟨t, rfl⟩, hs⟩
    exact finds_pure (by simpa using Forms.branch hk hs)
  · exact (h.function nested).bind fun t d _ hd => finds_pure (by simpa using hd)
  · exact finds_readReturn fuel nested
  · exact (StructDecl.finds_read fuel).bind fun t d _ hd => finds_pure (by simpa using Forms.struct hd)
  · exact h.whileLoop nested
  · exact h.forLoop nested
  · exact h.foreach nested
  · refine (Import.finds_read fuel nested).bind ?_
    rintro t i _ ⟨rfl, hi⟩
    exact finds_pure (by simpa using Forms.imports hi)
  · exact finds_readExpression fuel nested

private theorem block_succ (h : Finders fuel) : (Block.read (fuel + 1)).Finds c fun t b => Forms t (.block b) := by
  unfold Block.read
  refine (finds_symbol .lBrace).bind ?_
  rintro _ opening c₁ ⟨rfl, hopening⟩
  refine (finds_upTo (I := fun _ => True) (R := fun t s => Forms t (.statement true s))
    (fun _ c _ => (h.stmt true).mono fun t s hs => ⟨trivial, hs⟩) .rBrace fuel trivial).bind ?_
  rintro _ _ c₂ ⟨-, items, rfl, rfl, hitems⟩
  refine (finds_symbol .rBrace).bind ?_
  rintro _ closing c₃ ⟨rfl, hclosing⟩
  exact finds_pure (by simpa using Forms.block hopening (.sequence hitems) hclosing)

private theorem branch_succ (h : Finders fuel) (hk : c.next.kind = .keyword .ifKw ∨ c.next.kind = .keyword .elfKw) :
    (IfStmt.read (fuel + 1)).Finds c fun t s => (∃ u, t = c.next :: u) ∧ Forms t (.conditional s) := by
  have hne : c.next.kind ≠ .eof := by rcases hk with h | h <;> rw [h] <;> nofun
  unfold IfStmt.read
  refine (finds_advance hne).bind ?_
  rintro _ _ c₁ ⟨rfl, rfl⟩
  refine (Expr.finds_read rfl fuel).bind fun t e c₂ he => h.block.bind fun u b c₃ hb => ?_
  refine h.alternate.bind fun v a c₄ ha => finds_pure ⟨⟨_, rfl⟩, ?_⟩
  simpa using Forms.conditional hk he hb ha

private theorem alternate_succ (h : Finders fuel) :
    (Alternate.read (fuel + 1)).Finds c fun t a => Forms t (.alternate a) := by
  unfold Alternate.read
  refine finds_current_bind ?_
  split
  · rename_i hk
    refine (finds_advance (by simp [hk])).bind ?_
    rintro _ _ c₁ ⟨rfl, rfl⟩
    exact h.block.bind fun t b _ hb => finds_pure (by simpa using Forms.otherwise hk hb)
  · rename_i hk
    refine (h.branch (.inr hk)).bind ?_
    rintro _ s _ ⟨⟨t, rfl⟩, hs⟩
    exact finds_pure (by simpa using Forms.elseIf hk hs)
  · exact finds_pure .nothing

private theorem function_succ (h : Finders fuel) (nested : Bool) :
    (FunctionDecl.read (fuel + 1)).Finds c fun t d => Forms t (.statement nested (.function d)) := by
  unfold FunctionDecl.read
  refine (finds_keyword .fnKw).bind ?_
  rintro _ opening c₁ ⟨rfl, hopening⟩
  refine finds_ident.bind ?_
  rintro _ _ c₂ ⟨name, rfl, hname, rfl⟩
  refine (Param.finds_readList fuel).bind fun t params c₃ hparams => ?_
  refine (Ty.finds_readReturn fuel).bind fun u type c₄ hreturn => h.block.bind fun v b c₅ hb => finds_pure ?_
  simpa using Forms.function hopening hname hparams hreturn hb

private theorem whileLoop_succ (h : Finders fuel) (nested : Bool) :
    (readWhile (fuel + 1)).Finds c fun t s => Forms t (.statement nested s) := by
  unfold readWhile
  refine (finds_keyword .whileKw).bind ?_
  rintro _ opening c₁ ⟨rfl, hopening⟩
  refine (Expr.finds_read rfl fuel).bind fun t e c₂ he => h.block.bind fun u b c₃ hb => finds_pure ?_
  simpa using Forms.whileLoop hopening he hb

private theorem forLoop_succ (h : Finders fuel) (nested : Bool) :
    (readFor (fuel + 1)).Finds c fun t s => Forms t (.statement nested s) := by
  unfold readFor
  refine (finds_keyword .forKw).bind ?_
  rintro _ opening c₁ ⟨rfl, hopening⟩
  refine finds_ident.bind ?_
  rintro _ _ c₂ ⟨name, rfl, hname, rfl⟩
  refine (finds_symbol .define).bind ?_
  rintro _ mark c₃ ⟨rfl, hmark⟩
  refine (Expr.finds_read rfl fuel).bind fun t₁ init c₄ hinit => (finds_symbol .semicolon).bind ?_
  rintro _ semicolon₁ c₅ ⟨rfl, hsemicolon₁⟩
  refine (Expr.finds_read rfl fuel).bind fun t₂ condition c₆ hcondition => (finds_symbol .semicolon).bind ?_
  rintro _ semicolon₂ c₇ ⟨rfl, hsemicolon₂⟩
  refine (Expr.finds_read rfl fuel).bind fun t₃ post c₈ hpost => h.block.bind fun u b c₉ hb => finds_pure ?_
  simpa using Forms.forLoop hopening hname hmark hinit hsemicolon₁ hcondition hsemicolon₂ hpost hb

private theorem foreach_succ (h : Finders fuel) (nested : Bool) :
    (readForeach (fuel + 1)).Finds c fun t s => Forms t (.statement nested s) := by
  unfold readForeach
  refine (finds_keyword .foreachKw).bind ?_
  rintro _ opening c₁ ⟨rfl, hopening⟩
  refine finds_ident.bind ?_
  rintro _ _ c₂ ⟨name, rfl, hname, rfl⟩
  -- what follows the names is read in the same way with and without a second name
  have hrest {c : Cursor} {t : List Token} {position : Option Ident} (hposition : FormsPosition t position) : (do
      let _ ← expectKeyword .inKw
      let iterable ← Expr.read fuel .assignment
      let body ← Block.read fuel
      return Stmt.foreach name.toIdent position iterable body (opening.span.merge body.span) : Reader Stmt).Finds c
        fun u s => Forms (opening :: name :: (t ++ u)) (.statement nested s) := by
    refine (finds_keyword .inKw).bind ?_
    rintro _ word c₁ ⟨rfl, hword⟩
    refine (Expr.finds_read rfl fuel).bind fun u e c₂ he => h.block.bind fun v b c₃ hb => finds_pure ?_
    simpa using Forms.foreach hopening hname hposition hword he hb
  have hne : Kind.symbol .comma ≠ .eof := nofun
  refine (finds_eat hne).bind ?_
  rintro _ _ c₃ (⟨rfl, comma, rfl, hcomma⟩ | ⟨rfl, rfl⟩)
  · refine (finds_ident.bind (Q := fun t p => ∃ second, t = [second] ∧ second.kind = .ident ∧
      p = some second.toIdent)
      ?_).bind ?_
    · rintro _ _ c₄ ⟨second, rfl, hsecond, rfl⟩
      exact finds_pure ⟨second, rfl, hsecond, rfl⟩
    · rintro _ _ c₄ ⟨second, rfl, hsecond, rfl⟩
      exact hrest (.name hcomma hsecond)
  · exact hrest .nothing

end Finders

/-- The readers call each other with less fuel. -/
theorem finders (fuel : Nat) : Finders fuel := by
  induction fuel with
  | zero =>
    constructor
    case branch => exact fun _ => finds_exhausted
    all_goals intros; exact finds_exhausted
  | succ fuel ih =>
    exact ⟨ih.stmt_succ, ih.block_succ, ih.branch_succ, ih.alternate_succ, ih.function_succ, ih.whileLoop_succ,
      ih.forLoop_succ, ih.foreach_succ⟩

/-- A statement that is read is formed by the tokens that were passed. -/
theorem finds_read (fuel : Nat) (nested : Bool) :
    (read fuel nested).Finds c fun t s => Forms t (.statement nested s) :=
  (finders fuel).stmt nested

end Stmt

/-! ### Programs -/

namespace Program

variable {c c' : Cursor}

/-- The draft `d'` is the draft `d` with the given entries, which are kept latest first.  A draft has at most one
name. -/
structure Draft.Extends (d : Draft) (entries : List Entry) (d' : Draft) : Prop where
  name : d'.name.toList = d.name.toList ++ entries.filterMap Entry.module?
  imports : d'.imports = (entries.filterMap Entry.import?).reverse ++ d.imports
  contents : d'.contents = (entries.filterMap Entry.content?).reverse ++ d.contents

namespace Draft.Extends

variable {d d₁ d₂ : Draft} {es fs : List Entry}

theorem refl (d : Draft) : d.Extends [] d := ⟨by simp, by simp, by simp⟩

theorem trans (h₁ : d.Extends es d₁) (h₂ : d₁.Extends fs d₂) : d.Extends (es ++ fs) d₂ where
  name := by rw [h₂.name, h₁.name, List.filterMap_append, List.append_assoc]
  imports := by rw [h₂.imports, h₁.imports, List.filterMap_append, List.reverse_append, List.append_assoc]
  contents := by rw [h₂.contents, h₁.contents, List.filterMap_append, List.reverse_append, List.append_assoc]

theorem add (d : Draft) (s : Stmt) : d.Extends [.statement s] (d.add s) := by
  cases s <;> exact ⟨by simp [Draft.add, Entry.module?],
    by simp [Draft.add, Entry.import?], by simp [Draft.add, Entry.content?]⟩

theorem named {name : Ident} (h : d.name = none) : d.Extends [.module name] { d with name := some name } :=
  ⟨by simp [h, Entry.module?], by simp [Entry.import?], by simp [Entry.content?]⟩

end Draft.Extends

theorem atModule_iff : atModule c = true ↔ c.next.text = "module" ∧ c.peek 0 = .ident ∧ c.peek 1 = .ident ∧
    c.peek 2 = .symbol .semicolon := by
  simp [atModule, Cursor.startsWith, moduleStart, List.range_succ]

private theorem finds_readModule {draft : Draft} (h : atModule c = true) : (readModule draft).Finds c fun t draft' =>
    ∃ word name semicolon : Token, t = [word, name, semicolon] ∧ word.kind = .ident ∧ word.text = "module" ∧
      name.kind = .ident ∧ semicolon.kind = .symbol .semicolon ∧ draft.Extends [.module name.toIdent] draft' := by
  obtain ⟨htext, hword, -⟩ := atModule_iff.1 h
  have hkind : c.next.kind = .ident := hword
  refine (finds_advance (by rw [hkind]; nofun)).bind ?_
  rintro _ _ c₁ ⟨rfl, rfl⟩
  refine finds_ident.bind ?_
  rintro _ _ c₂ ⟨name, rfl, hname, rfl⟩
  refine (finds_symbol .semicolon).bind ?_
  rintro _ semicolon c₃ ⟨rfl, hsemicolon⟩
  split
  · exact finds_fail _ _
  · rename_i hnone
    exact finds_pure ⟨c.next, name, semicolon, rfl, hkind, htext, hname, hsemicolon, .named hnone⟩

private theorem finds_readDraft (fuel : Nat) (draft : Draft) : (readDraft fuel draft).Finds c fun t draft' =>
    ∃ entries, Forms t entries ∧ draft.Extends entries draft' := by
  induction fuel generalizing c draft with
  | zero => exact finds_exhausted
  | succ fuel ih =>
    unfold readDraft
    refine finds_cursor_bind (.ite (fun _ => finds_pure ⟨[], .nil, .refl draft⟩) fun _ =>
      .ite (fun hmodule => ?_) fun _ => ?_)
    · refine (finds_readModule hmodule).bind ?_
      rintro _ draft₁ c₁ ⟨word, name, semicolon, rfl, hword, htext, hname, hsemicolon, hextends⟩
      refine (ih draft₁).mono ?_
      rintro t draft₂ ⟨entries, hforms, hextends'⟩
      exact ⟨_, .module hword htext hname hsemicolon hforms, hextends.trans hextends'⟩
    · refine (Stmt.finds_read fuel false).bind fun t s c₁ hs => (ih (draft.add s)).mono ?_
      rintro u draft₂ ⟨entries, hforms, hextends⟩
      exact ⟨_, .statement hs hforms, (Draft.Extends.add draft s).trans hextends⟩

/-- Reading goes on until the text ends. -/
private theorem readDraft_atEnd {fuel : Nat} {draft draft' : Draft} (h : readDraft fuel draft c = .done draft' c') :
    c'.next.kind = .eof := by
  induction fuel generalizing c draft with
  | zero => cases h
  | succ fuel ih =>
    rw [readDraft, cursor_bind] at h
    split at h
    · rename_i heof
      cases h
      exact heof
    · split at h
      · obtain ⟨_, _, -, hrest⟩ := bind_eq_done_iff.1 h
        exact ih hrest
      · obtain ⟨_, _, -, hrest⟩ := bind_eq_done_iff.1 h
        exact ih hrest

/-- The program consists of the given entries and is named by one of them or after the file. -/
structure Consists (p : Program) (file : String) (entries : List Entry) : Prop where
  modules : (entries.filterMap Entry.module?).length ≤ 1
  moduleName : p.moduleName = ((entries.filterMap Entry.module?).head?.map Ident.name).getD (Path.stem file)
  imports : p.imports = entries.filterMap Entry.import?
  contents : p.contents = entries.filterMap Entry.content?

/-- A program that is made of a draft consists of the entries of the draft. -/
theorem Draft.Extends.consists {d : Draft} {entries : List Entry} (h : Extends ⟨none, [], []⟩ entries d)
    (file : String) (span : Span) :
    Consists ⟨(d.name.map Ident.name).getD (Path.stem file), d.imports.reverse, d.contents.reverse, span⟩
      file entries := by
  have hname : d.name.toList = entries.filterMap Entry.module? := by simpa using h.name
  have hhead : d.name = (entries.filterMap Entry.module?).head? := by
    rw [← hname]
    cases d.name <;> rfl
  refine ⟨?_, by rw [hhead], ?_, ?_⟩
  · rw [← hname]
    cases d.name <;> simp
  · rw [h.imports]
    simp
  · rw [h.contents]
    simp

/-- The name that the tokens of a program declare for its module. -/
def declaredName? (tokens : List Token) : Option Ident :=
  match readDraft (fuelFor tokens.length) ⟨none, [], []⟩ (Cursor.ofTokens tokens) with
  | .done draft _ => draft.name
  | _ => none

/-- The span from the next token to the last one that was passed. -/
private theorem span_eq_of_moves {t : List Token} (h : c.Moves t c') (hlast : c.last = none) :
    c.next.span.merge c'.lastSpan = (t.head?.getD c'.next).span.merge (t.getLast?.getD c'.next).span := by
  have hfirst : c.next = t.head?.getD c'.next := by
    have htokens := h.tokens
    cases t with
    | nil => exact (List.cons.inj htokens).1
    | cons token t => exact (List.cons.inj htokens).1
  have hstop : c'.lastSpan = (t.getLast?.getD c'.next).span := by
    rw [Cursor.lastSpan, h.last, hlast]
    cases t.getLast? <;> rfl
  rw [← hfirst, hstop]

/-- A token sequence that is read as a program consists of entries up to the end of the text.  The span of the
program goes from its first to its last token; without any tokens it is the end of the text. -/
theorem forms_of_ofTokens {tokens : List Token} {file : String} {p : Parsed}
    (heof : ∃ token ∈ tokens, token.kind = .eof) (h : ofTokens tokens file = .ok p) :
    ∃ t eof rest entries, tokens = t ++ eof :: rest ∧ eof.kind = .eof ∧
      (∀ token ∈ t, token.kind ≠ .eof) ∧ Forms t entries ∧ p.program.Consists file entries ∧
      entries.filterMap Entry.module? = (declaredName? tokens).toList ∧
      p.program.span = (t.head?.getD eof).span.merge (t.getLast?.getD eof).span := by
  have htokens := Cursor.tokens_ofTokens tokens (by rintro rfl; simp at heof)
  have hended : (Cursor.ofTokens tokens).Ended := by
    rw [Cursor.Ended, Cursor.tokens, htokens]
    exact heof
  unfold ofTokens at h
  split at h
  · rename_i program c' hread
    cases h
    rw [Program.read, current_bind] at hread
    obtain ⟨draft, c₁, hdraft, hrest⟩ := bind_eq_done_iff.1 hread
    obtain ⟨t, hmoves, entries, hforms, hextends⟩ := finds_readDraft _ _ hended hdraft
    cases hrest
    refine ⟨t, c'.next, c'.rest, entries, htokens.symm.trans hmoves.tokens, readDraft_atEnd hdraft,
      hmoves.inner, hforms,
      hextends.consists file _, ?_, ?_⟩
    · rw [declaredName?, hdraft]
      exact hextends.name.symm
    · exact span_eq_of_moves hmoves (by cases tokens <;> rfl)
  · cases h
  · cases h

end Program

end BraceScript
