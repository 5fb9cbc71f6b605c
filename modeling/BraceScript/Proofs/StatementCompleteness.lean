import BraceScript.Proofs.ExprCompleteness
import BraceScript.Proofs.StatementSoundness

/-!
# What is formed is read

Every phrase of the grammar is found by its reader, if the fuel is proportional to the number of tokens
(`Forms.taken`), and every sequence of entries with at most one declaration of a name is read as a program
(`Program.ofTokens_of_forms`).

`r.Takes t rest a` says that the reader takes the tokens `t` in front of `rest`; like `Reader.Finds`, which goes the
other way, it has a rule for each way in which readers are put together.  What has to be known about `rest` are the
tokens with which it does not begin.
-/

namespace BraceScript

/-- The kind of the first token. -/
def Token.headKind? (tokens : List Token) : Option Kind := tokens.head?.map Token.kind

@[simp] theorem Token.headKind?_cons (token : Token) (tokens : List Token) :
    Token.headKind? (token :: tokens) = some token.kind := rfl

open Token (headKind?)

namespace Reader

variable {α β : Type} {r : Reader α} {f : α → Reader β} {t u rest : List Token} {token : Token} {a : α} {b : β}
  {kind : Kind}

/-- In front of the tokens `rest`, of which there has to be one, the reader takes the tokens `t` and answers `a`. -/
def Takes (r : Reader α) (t rest : List Token) (a : α) : Prop :=
  rest ≠ [] → ∀ ⦃c : Cursor⦄, c.tokens = t ++ rest → ∃ c', r c = .done a c' ∧ c'.tokens = rest

namespace Takes

private theorem bind (h : r.Takes t (u ++ rest) a) (h' : (f a).Takes u rest b) :
    (r >>= f).Takes (t ++ u) rest b := by
  intro hne c hc
  obtain ⟨c₁, hr, hc₁⟩ := h (by simp [hne]) (by rw [hc, List.append_assoc])
  obtain ⟨c₂, hf, hc₂⟩ := h' hne hc₁
  exact ⟨c₂, by rw [bind_of_done hr, hf], hc₂⟩

private theorem cons (h : r.Takes [token] (t ++ rest) a) (h' : (f a).Takes t rest b) :
    (r >>= f).Takes (token :: t) rest b :=
  h.bind h'

/-- A reader that takes nothing. -/
private theorem look (h : r.Takes [] (t ++ rest) a) (h' : (f a).Takes t rest b) : (r >>= f).Takes t rest b :=
  h.bind h'

private theorem map (h : r.Takes t rest a) (g : α → β) : (r >>= fun a => pure (g a)).Takes t rest (g a) := by
  intro hne c hc
  obtain ⟨c₁, hr, hc₁⟩ := h hne hc
  exact ⟨c₁, by rw [bind_of_done hr]; rfl, hc₁⟩

/-- Readers that do the same in front of the tokens. -/
private theorem of_eq {r' : Reader α} (h : r'.Takes t rest a)
    (hr : ∀ c : Cursor, c.tokens = t ++ rest → r c = r' c) : r.Takes t rest a := by
  intro hne c hc
  obtain ⟨c', hr', hc'⟩ := h hne hc
  exact ⟨c', by rw [hr c hc, hr'], hc'⟩

private theorem congr {r' : Reader α} (h : r'.Takes (token :: t) rest a)
    (hr : ∀ c : Cursor, c.next = token → r c = r' c) :
    r.Takes (token :: t) rest a := h.of_eq fun c hc => hr c (List.cons.inj hc).1

end Takes

private theorem takes_pure (a : α) : (pure a : Reader α).Takes [] rest a := fun _ c hc => ⟨c, rfl, hc⟩

private theorem takes_advance (hne : token.kind ≠ .eof) : advance.Takes [token] rest token := by
  intro hrest c hc
  obtain ⟨next, others, last, warnings⟩ := c
  obtain ⟨rfl, rfl⟩ := List.cons.inj hc
  obtain ⟨next', others, rfl⟩ := List.exists_cons_of_ne_nil hrest
  exact ⟨_, rfl, by rw [Cursor.advance_of_ne_eof last warnings hne]; rfl⟩

private theorem takes_expect (hk : token.kind = kind) (hne : kind ≠ .eof) :
    (expect kind).Takes [token] rest token := by
  refine (takes_advance (by rwa [hk])).congr fun c hc => ?_
  rw [expect, if_pos (by rw [hc, hk])]
  rfl

private theorem takes_symbol {s : Symbol} (hk : token.kind = .symbol s) :
    (expectSymbol s).Takes [token] rest token :=
  takes_expect hk nofun

private theorem takes_keyword {k : Keyword} (hk : token.kind = .keyword k) :
    (expectKeyword k).Takes [token] rest token :=
  takes_expect hk nofun

private theorem takes_ident (hk : token.kind = .ident) : ident.Takes [token] rest token.toIdent :=
  (takes_expect hk nofun).map _

private theorem takes_eat (hk : token.kind = kind) (hne : kind ≠ .eof) : (eat kind).Takes [token] rest true := by
  refine ((takes_advance (by rwa [hk])).map fun _ => true).congr fun c hc => ?_
  rw [eat, if_pos (by rw [hc, hk])]
  rfl

/-- The kind of the next token, if nothing is taken. -/
private theorem headKind?_eq {c : Cursor} (hc : c.tokens = [] ++ rest) : headKind? rest = some c.next.kind := by
  rw [← show c.tokens = rest from hc]
  rfl

private theorem takes_not_eat (hk : headKind? rest ≠ some kind) : (eat kind).Takes [] rest false := by
  intro _ c hc
  rw [headKind?_eq hc] at hk
  exact ⟨c, by rw [eat, if_neg fun h => hk (congrArg some h)], hc⟩

/-! Readers that only look at the next token. -/

private theorem takes_current {f : Token → Reader β} (h : (f token).Takes (token :: t) rest b) :
    (current >>= f).Takes (token :: t) rest b :=
  h.congr fun c hc => by rw [current_bind, hc]

private theorem takes_at? (hk : headKind? rest = some kind) : (at? kind).Takes [] rest true := by
  intro _ c hc
  rw [headKind?_eq hc] at hk
  exact ⟨c, by rw [at?, Option.some.inj hk, beq_self_eq_true], hc⟩

private theorem takes_not_at? (hk : headKind? rest ≠ some kind) : (at? kind).Takes [] rest false := by
  intro _ c hc
  rw [headKind?_eq hc] at hk
  exact ⟨c, by rw [at?, beq_eq_false_iff_ne.2 fun h => hk (congrArg some h)], hc⟩

/-! Lists, with and without commas. -/

/-- A list ends in front of its closing symbol. -/
private theorem takes_upTo_nil {closer : Symbol} {item : List α → Reader α} {n : Nat} (before : List α)
    (hrest : headKind? rest = some (.symbol closer)) (hn : 0 < n) :
    (upTo closer item n before).Takes [] rest before.reverse := by
  intro _ c hc
  obtain ⟨n, rfl⟩ : ∃ m, n = m + 1 := ⟨n - 1, by omega⟩
  rw [headKind?_eq hc] at hrest
  refine ⟨c, ?_, hc⟩
  rw [upTo, current_bind, if_pos (.inl (Option.some.inj hrest))]
  rfl

/-- A list goes on with an item. -/
private theorem takes_upTo_cons {closer : Symbol} {item : List α → Reader α} {n : Nat} {before as : List α}
    (hne : token.kind ≠ .symbol closer ∧ token.kind ≠ .eof) (hitem : (item before).Takes (token :: t) (u ++ rest) a)
    (hrest : (upTo closer item n (a :: before)).Takes u rest as) :
    (upTo closer item (n + 1) before).Takes (token :: t ++ u) rest as := by
  rw [upTo]
  refine takes_current ?_
  rw [if_neg (by simp [hne])]
  exact hitem.bind hrest

/-- The tokens do not begin with the closing symbol of a list, nor does the text end there. -/
private def Inside (closer : Symbol) (t : List Token) : Prop :=
  ∃ token more, t = token :: more ∧ token.kind ≠ .symbol closer ∧ token.kind ≠ .eof

/-- A list is read if each of its items is, in front of those that follow it. -/
private theorem takes_upTo {closer : Symbol} {item : List α → Reader α} (all : List (List Token × α))
    (hitem : ∀ pre i post, all = pre ++ i :: post → Inside closer i.1 ∧
      ∀ rest, (item (pre.map (·.2)).reverse).Takes i.1 rest i.2)
    (hrest : headKind? rest = some (.symbol closer)) {n : Nat} (hn : all.length < n) :
    (upTo closer item n []).Takes (all.flatMap (·.1)) rest (all.map (·.2)) := by
  -- the items that are still to come, after those that have been read
  have hgo (items done : List (List Token × α)) (hall : all = done ++ items) (n : Nat) (hn : items.length < n) :
      (upTo closer item n (done.map (·.2)).reverse).Takes (items.flatMap (·.1)) rest (all.map (·.2)) := by
    induction items generalizing done n with
    | nil =>
      have hend : (upTo closer item n (done.map (·.2)).reverse).Takes [] rest _ :=
        takes_upTo_nil _ hrest (Nat.zero_lt_of_lt hn)
      rw [List.reverse_reverse] at hend
      simpa [hall] using hend
    | cons i items ih =>
      obtain ⟨n, rfl⟩ : ∃ m, n = m + 1 := ⟨n - 1, by omega⟩
      obtain ⟨⟨token, more, htokens, hne⟩, htakes⟩ := hitem done i items hall
      have hnext := ih (done ++ [i]) (by simp [hall]) n (by simpa using hn)
      rw [List.map_append, List.reverse_append] at hnext
      have hfirst := htakes (items.flatMap (·.1) ++ rest)
      rw [htokens] at hfirst
      rw [List.flatMap_cons, htokens]
      exact takes_upTo_cons hne hfirst hnext
  exact hgo all [] rfl n hn

/-- The first item of a list with commas, together with its comma if there is one. -/
private theorem takes_listed {closer : Symbol} {item : Reader α} {ts : List (List Token)} {tokens : List Token}
    (hne : closer ≠ .comma) (hlist : Listed (t :: ts) tokens)
    (hitem : ∀ rest, headKind? rest = some (.symbol .comma) ∨ headKind? rest = some (.symbol closer) →
      item.Takes t rest a)
    (hrest : headKind? rest = some (.symbol closer)) : ∃ comma tokens', tokens = t ++ comma ++ tokens' ∧
      Listed ts tokens' ∧ (listed closer item).Takes (t ++ comma) (tokens' ++ rest) a := by
  cases hlist with
  | last =>
    refine ⟨[], [], by simp, .nil, (hitem _ (.inr hrest)).bind ?_⟩
    exact Takes.look (takes_at? hrest) (takes_pure a)
  | @cons _ comma _ tokens' hcomma hlist =>
    refine ⟨[comma], tokens', by simp, hlist, (hitem _ (.inl (by simp [hcomma]))).bind ?_⟩
    refine (takes_not_at? ?_).look ((takes_symbol hcomma).map _)
    simpa [hcomma] using Ne.symm hne

/-- A list with commas is read if each of its items is. -/
private theorem takes_list {closer : Symbol} {item : List α → Reader α} (hne : closer ≠ .comma)
    (all : List (List Token × α)) {tokens : List Token} (hlist : Listed (all.map (·.1)) tokens)
    (hitem : ∀ pre i post, all = pre ++ i :: post → Inside closer i.1 ∧ ∀ rest,
      headKind? rest = some (.symbol .comma) ∨ headKind? rest = some (.symbol closer) →
      (item (pre.map (·.2)).reverse).Takes i.1 rest i.2)
    (hrest : headKind? rest = some (.symbol closer)) {n : Nat} (hn : all.length < n) :
    (upTo closer (fun before => listed closer (item before)) n []).Takes tokens rest (all.map (·.2)) := by
  have hgo (items done : List (List Token × α)) (hall : all = done ++ items) (tokens : List Token)
      (hlist : Listed (items.map (·.1)) tokens) (n : Nat) (hn : items.length < n) :
      (upTo closer (fun before => listed closer (item before)) n (done.map (·.2)).reverse).Takes tokens rest
        (all.map (·.2)) := by
    induction items generalizing done tokens n with
    | nil =>
      have hend : (upTo closer (fun before => listed closer (item before)) n
          (done.map (·.2)).reverse).Takes [] rest _ :=
        takes_upTo_nil _ hrest (Nat.zero_lt_of_lt hn)
      rw [List.reverse_reverse] at hend
      cases hlist
      simpa [hall] using hend
    | cons i items ih =>
      obtain ⟨n, rfl⟩ : ∃ m, n = m + 1 := ⟨n - 1, by omega⟩
      obtain ⟨⟨token, more, htokens, hinside⟩, htakes⟩ := hitem done i items hall
      obtain ⟨comma, tokens', rfl, hlist', hfirst⟩ := takes_listed hne hlist htakes hrest
      have hnext := ih (done ++ [i]) (by simp [hall]) tokens' hlist' n (by simpa using hn)
      rw [List.map_append, List.reverse_append] at hnext
      simp only [htokens] at hfirst ⊢
      exact takes_upTo_cons hinside hfirst hnext
  exact hgo all [] rfl tokens hlist n hn

end Reader

open Reader

/-! ### Expressions -/

/-- The tokens after an expression: a symbol that ends it, or a block. -/
inductive EndsExpr : List Token → Prop where
  | symbol {token : Token} {more : List Token} {s : Symbol} (hk : token.kind = .symbol s) (hs : s.delimits = true) :
      EndsExpr (token :: more)
  | block {token : Token} {more : List Token} (hk : token.kind = .symbol .lBrace) (hmore : GoesOn more) :
      EndsExpr (token :: more)

namespace EndsExpr

variable {c : Cursor}

/-- Nothing that ends an expression goes on with it. -/
private theorem settled (h : EndsExpr c.tokens) (n : Nat) : c.Settled n := by
  refine Cursor.settled_of_none ?_
  generalize hc : c.tokens = tokens at h
  cases h with
  | @symbol token more s hk hs =>
    rw [(List.cons.inj hc).1, hk]
    cases s <;> first | rfl | cases hs
  | block hk =>
    rw [(List.cons.inj hc).1, hk]
    rfl

/-- A name in front of it is not taken as the name of a struct literal. -/
theorem not_startsFields (h : EndsExpr c.tokens) : ¬ c.StartsFields := by
  rintro ⟨hbrace, hname, hcolon⟩
  obtain ⟨next, rest, last, warnings⟩ := c
  cases h with
  | symbol hk hs =>
    obtain rfl := Kind.symbol.inj (hk.symm.trans hbrace)
    cases hs
  | block _ hmore =>
    obtain _ | ⟨a, _ | ⟨b, others⟩⟩ := rest
    · cases hname
    · cases hcolon
    · obtain ⟨s, hs, hne⟩ := hmore a b others rfl hname
      exact hne (Kind.symbol.inj (hs.symm.trans hcolon))

end EndsExpr

/-- Tokens that do not end an expression can be passed if others follow them. -/
theorem Cursor.exists_passes {c : Cursor} {t rest : List Token} (hc : c.tokens = t ++ rest) (ht : Plain t)
    (hne : rest ≠ []) : ∃ c', c.Passes t c' ∧ c'.tokens = rest := by
  obtain ⟨next, more, rfl⟩ := List.exists_cons_of_ne_nil hne
  exact ⟨⟨next, more, (t.getLast?.map Token.span).or c.last, c.warnings⟩, ⟨hc, rfl, rfl, ht⟩, rfl⟩

private theorem Expr.takes_read {l : Level} {t rest : List Token} {e : Expr} {floor : Precedence} {F : Nat}
    (h : Derives l t e) (hl : floor.level? = some l) (hF : 1 + 16 * t.length ≤ F) (hrest : EndsExpr rest) :
    (Expr.read F floor).Takes t rest e := by
  intro hne c hc
  obtain ⟨c', hpass, rfl⟩ := Cursor.exists_passes hc h.plain hne
  exact ⟨c', h.reads.done hl hpass (hrest.settled _) hrest.not_startsFields hF, rfl⟩

/-! ### Types -/

namespace Cursor

variable {c c' : Cursor} {t : List Token}

/-- The cursor with more warnings, latest first. -/
def warn (c : Cursor) (more : List SyntaxWarning) : Cursor := { c with warnings := more ++ c.warnings }

private theorem Passes.warn (h : c.Passes t c') (more : List SyntaxWarning) :
    (c.warn more).Passes t (c'.warn more) :=
  ⟨h.tokens, h.last, congrArg (more ++ ·) h.warnings, h.plain⟩

end Cursor

/-- The warnings about a token that stands for a type: one at its place if it is a name that no type has. -/
def Token.typeWarnings (token : Token) : List SyntaxWarning :=
  if token.kind = .ident ∧ Ty.ofName? token.text = none then [⟨.unknownType token.text, token.span⟩] else []

private theorem Brackets.plain {n : Nat} {t : List Token} (h : Brackets n t) : Plain t := by
  induction h with
  | nil => exact Plain.nil
  | cons hopening hclosing _ ih => simp [hopening, hclosing, ih, Kind.endsExpr]

theorem Brackets.length_eq {n : Nat} {t : List Token} (h : Brackets n t) : t.length = 2 * n := by
  induction h with
  | nil => rfl
  | cons _ _ _ ih =>
    rw [List.length_cons, List.length_cons]
    omega

private theorem Token.NamesType.kind {token : Token} {type : Ty} (h : token.NamesType type) :
    token.kind = .ident ∨ token.kind = .keyword .nullKw := by
  cases h with
  | name hk => exact .inl hk
  | null hk => exact .inr hk

namespace Ty

variable {c c' : Cursor} {t rest before after : List Token} {base : Token} {type : Ty} {m n F : Nat}

private theorem readBrackets_of_passes {opening closing : Token} (hopening : opening.kind = .symbol .lBracket)
    (hclosing : closing.kind = .symbol .rBracket) (hpass : c.Passes [opening, closing] c') :
    readBrackets c = .done () c' := by
  obtain ⟨c₁, hpass₁, hpass₂⟩ := hpass.cons
  rw [readBrackets, bind_of_done (expectSymbol_of_passes hpass₁ hopening),
    bind_of_done (expectSymbol_of_passes hpass₂ hclosing)]
  rfl

/-- A name gives its type, with a warning if there is none. -/
private theorem readBase_of_passes (h : base.NamesType type) (hpass : c.Passes [base] c') :
    readBase c = .done type (c'.warn base.typeWarnings) := by
  rw [readBase, current_bind, hpass.next_eq]
  cases h with
  | name hk =>
    simp only [hk]
    rw [bind_of_done (ident_of_passes hpass hk), Token.name_toIdent]
    cases htype : ofName? base.text with
    | some type =>
      rw [Token.typeWarnings, if_neg (by simp [htype])]
      rfl
    | none =>
      rw [Token.typeWarnings, if_pos ⟨hk, htype⟩]
      rfl
  | null hk =>
    simp only [hk]
    rw [advance_bind, hpass.advance_eq, Token.typeWarnings, if_neg (by simp [hk])]
    rfl

private theorem readSuffix_of_passes (h : Brackets n t) (hpass : c.Passes t c')
    (hend : c'.next.kind ≠ .symbol .lBracket) (hF : n < F) : readSuffix F type c = .done (type.nest n) c' := by
  induction h generalizing c type F with
  | nil =>
    obtain ⟨F, rfl⟩ : ∃ m, F = m + 1 := ⟨F - 1, by omega⟩
    obtain rfl := hpass.unique (.refl c)
    rw [readSuffix, at?_bind, if_neg (by simpa using hend)]
    rfl
  | @cons n opening closing t hopening hclosing _ ih =>
    obtain ⟨F, rfl⟩ : ∃ m, F = m + 1 := ⟨F - 1, by omega⟩
    obtain ⟨c₁, hpass₁, hpass₂⟩ := hpass.split (t := [opening, closing])
    rw [readSuffix, at?_bind, if_pos (by rw [hpass.next_eq, hopening]; exact beq_self_eq_true _),
      bind_of_done (readBrackets_of_passes hopening hclosing hpass₁), ih hpass₂ (by omega), nest_succ]

/-- Brackets, a name and brackets again are read as the type with that name, as many arrays deep as there are pairs
of brackets.  The pairs behind the name are all taken at the name, so none is left for the pairs in front of it. -/
private theorem read_of_passes (hbefore : Brackets m before) (hbase : base.NamesType type)
    (hafter : Brackets n after) (hpass : c.Passes (before ++ base :: after) c')
    (hend : c'.next.kind ≠ .symbol .lBracket) (hF : m + n + 1 < F) :
    read F c = .done (type.nest (m + n)) (c'.warn base.typeWarnings) := by
  induction hbefore generalizing c F with
  | nil =>
    obtain ⟨F, rfl⟩ : ∃ m, F = m + 1 := ⟨F - 1, by omega⟩
    obtain ⟨c₁, hpass₁, hpass₂⟩ := hpass.cons
    have hne : ¬ (c.next.kind == .symbol .lBracket) = true := by
      rw [hpass₁.next_eq]
      rcases hbase.kind with hk | hk <;> simp [hk]
    rw [read, at?_bind, if_neg hne, bind_of_done (readBase_of_passes hbase hpass₁), Nat.zero_add]
    exact readSuffix_of_passes hafter (hpass₂.warn _) hend (by omega)
  | @cons m opening closing before hopening hclosing _ ih =>
    obtain ⟨F, rfl⟩ : ∃ m, F = m + 1 := ⟨F - 1, by omega⟩
    obtain ⟨c₁, hpass₁, hpass₂⟩ := hpass.split (t := [opening, closing])
    rw [read, at?_bind, if_pos (by rw [hpass.next_eq, hopening]; exact beq_self_eq_true _),
      bind_of_done (readBrackets_of_passes hopening hclosing hpass₁), bind_of_done (ih hpass₂ (by omega)),
      Nat.add_right_comm]
    exact readSuffix_of_passes .nil (.refl _) hend (by omega)

private theorem plain_of_brackets (hbefore : Brackets m before) (hbase : base.NamesType type)
    (hafter : Brackets n after) : Plain (before ++ base :: after) := by
  rcases hbase.kind with hk | hk <;> simp [hbefore.plain, hafter.plain, hk, Kind.endsExpr]

/-- A whole annotation in front of other tokens is passed, and the name gives its warnings. -/
theorem read_of_tokens (hbefore : Brackets m before) (hbase : base.NamesType type) (hafter : Brackets n after)
    (hc : c.tokens = before ++ base :: after ++ rest) (hne : rest ≠ [])
    (hrest : headKind? rest ≠ some (.symbol .lBracket)) (hF : m + n + 1 < F) :
    ∃ c', read F c = .done (type.nest (m + n)) c' ∧ c.Moves (before ++ base :: after) c' ∧
      c'.tokens = rest ∧ c'.warnings = base.typeWarnings ++ c.warnings := by
  obtain ⟨c', hpass, hc'⟩ := Cursor.exists_passes hc (plain_of_brackets hbefore hbase hafter) hne
  have hend : c'.next.kind ≠ .symbol .lBracket := fun hk => hrest (by rw [headKind?_eq hc', hk])
  have hmoves := hpass.moves
  exact ⟨c'.warn base.typeWarnings, read_of_passes hbefore hbase hafter hpass hend hF,
    ⟨hmoves.tokens, hmoves.last, hmoves.inner⟩, hc', congrArg (base.typeWarnings ++ ·) hpass.warnings⟩

private theorem takes_read (h : Forms t type) (hrest : headKind? rest ≠ some (.symbol .lBracket))
    (hF : t.length < F) : (read F).Takes t rest type := by
  intro hne c hc
  cases h with
  | mk hbefore hbase hafter =>
    rw [List.length_append, List.length_cons, hbefore.length_eq, hafter.length_eq] at hF
    obtain ⟨c', hread, -, hc', -⟩ := read_of_tokens hbefore hbase hafter hc hne hrest (F := F) (by omega)
    exact ⟨c', hread, hc'⟩

private theorem takes_readReturn (h : FormsReturn t type) (hbracket : headKind? rest ≠ some (.symbol .lBracket))
    (harrow : headKind? rest ≠ some (.symbol .arrow)) (hF : t.length ≤ F) : (readReturn F).Takes t rest type := by
  cases h with
  | nothing => exact (takes_not_eat harrow).look (takes_pure _)
  | arrow harrow h => exact (takes_eat harrow nofun).cons (takes_read h hbracket hF)

end Ty

/-! ### Declarations -/

/-- A name of a list without repetitions is not among those before it. -/
private theorem not_mem_names {ι : Type} {name : ι → String} {pre post : List ι} {x : ι}
    (h : ((pre ++ x :: post).map name).Nodup) : name x ∉ pre.map name := by
  rw [List.map_append, List.map_cons] at h
  intro hmem
  exact (List.nodup_append.1 h).2.2 _ hmem _ (List.mem_cons_self ..) rfl

namespace Param

variable {t rest : List Token} {F : Nat}

private theorem takes_read {i : ParamItem} {before : List Param} (hi : i.Proper)
    (hnew : i.name.text ∉ before.map (·.name.name)) (hrest : headKind? rest ≠ some (.symbol .lBracket))
    (hF : i.tokens.length < F) : (read F before).Takes i.all rest i.param := by
  refine (takes_ident hi.name).cons ?_
  rw [if_neg (by simpa using hnew)]
  exact (takes_symbol hi.colon).cons ((Ty.takes_read hi.type hrest hF).map _)

private theorem Forms.headKind? {params : List Param} (h : Forms t params) (more : List Token) :
    Token.headKind? (t ++ more) = some (.symbol .lParen) := by
  cases h with
  | mk hopening => exact congrArg some hopening

private theorem takes_readList {params : List Param} (h : Forms t params) (hF : t.length ≤ F) :
    (readList F).Takes t rest params := by
  cases h with
  | @mk opening closing tokens items hopening hlist hitems hdistinct hclosing =>
    rw [List.length_cons, List.length_append, List.length_singleton] at hF
    let pairs := items.map fun i => (i.all, i.param)
    have hpairs : pairs.map (·.1) = items.map (·.all) ∧ pairs.map (·.2) = items.map (·.param) := by simp [pairs]
    have hlength : items.length ≤ tokens.length := by
      have := hlist.length_le fun item hi => by
        obtain ⟨i, -, rfl⟩ := List.mem_map.1 hi
        exact List.cons_ne_nil _ _
      simpa using this
    refine (takes_symbol hopening).cons (Takes.bind ?_ ((takes_symbol hclosing).map _))
    rw [← hpairs.2]
    refine takes_list (by decide) pairs (hpairs.1 ▸ hlist) ?_ (by simp [hclosing]) (by simp [pairs]; omega)
    intro pre p post hsplit
    obtain ⟨done, later, rfl, rfl, hlater⟩ := List.map_eq_append_iff.1 hsplit
    obtain ⟨i, later, rfl, rfl, rfl⟩ := List.map_eq_cons_iff.1 hlater
    have hi := hitems i (by simp)
    have hnew := not_mem_names hdistinct
    have hle := hlist.length_le_of_mem (List.mem_map_of_mem (a := i) (by simp))
    rw [ParamItem.all, List.length_cons, List.length_cons] at hle
    refine ⟨⟨i.name, _, rfl, by simp [hi.name]⟩, fun rest hrest => takes_read hi ?_ ?_ (by omega)⟩
    · simpa [ParamItem.param] using hnew
    · rcases hrest with h | h <;> simp [h]

end Param

namespace Member

variable {t rest : List Token} {F : Nat} {m : Member} {access name : Token} {static locked : List Token}
  {isStatic isReadonly : Bool}

private theorem takes_flag {k : Keyword} {b : Bool} (h : Flag k b t) (hrest : headKind? rest ≠ some (.keyword k)) :
    (eat (.keyword k)).Takes t rest b := by
  cases h with
  | absent => exact takes_not_eat hrest
  | present hk => exact takes_eat hk nofun

/-- A member is read if what follows its name is. -/
private theorem takes_named {struct : String} {before : List Member} (haccess : access.kind = .keyword .access)
    (hstatic : Flag .staticKw isStatic static) (hreadonly : Flag .readonly isReadonly locked)
    (hname : name.kind = .ident) (hnew : name.text ∉ before.map Member.name)
    (h : (readRest F name.toIdent access.visibility isStatic isReadonly).Takes t rest m) :
    (read F struct before).Takes (access :: (static ++ (locked ++ name :: t))) rest m := by
  have hlocked : headKind? (locked ++ name :: t ++ rest) ≠ some (.keyword .staticKw) := by
    cases hreadonly with
    | absent => simp [hname]
    | present hk => simp [hk]
  refine takes_current ?_
  rw [if_pos haccess]
  refine (takes_advance (by rw [haccess]; nofun)).cons ((takes_flag hstatic hlocked).bind ?_)
  refine (takes_flag hreadonly (by simp [hname])).bind ((takes_ident hname).cons ?_)
  rw [if_neg (by simpa using hnew)]
  exact h

private theorem takes_read {struct : String} {before : List Member} (h : Forms t m)
    (hnew : m.name ∉ before.map Member.name) (hF : t.length ≤ F) : (read F struct before).Takes t rest m := by
  cases h with
  | property haccess hstatic hreadonly hname hcolon htype hsemicolon =>
    simp only [List.length_cons, List.length_append] at hF
    refine takes_named haccess hstatic hreadonly hname hnew (Takes.look (takes_not_at? (by simp [hcolon])) ?_)
    refine (takes_symbol hcolon).cons (Takes.bind ?_ ((takes_symbol hsemicolon).map _))
    exact Ty.takes_read htype (by simp [hsemicolon]) (by omega)
  | method haccess hstatic hreadonly hname hparams hreturn hsemicolon =>
    simp only [List.length_cons, List.length_append] at hF
    refine takes_named haccess hstatic hreadonly hname hnew (Takes.look (takes_at? ?_) ?_)
    · rw [List.append_assoc]
      exact hparams.headKind? _
    · refine (Param.takes_readList hparams (by omega)).bind (Takes.bind ?_ ((takes_symbol hsemicolon).map _))
      exact Ty.takes_readReturn hreturn (by simp [hsemicolon]) (by simp [hsemicolon]) (by omega)

/-- A member starts with its access modifier. -/
private theorem Forms.inside (h : Forms t m) : Inside .rBrace t := by
  cases h with
  | property haccess | method haccess => exact ⟨_, _, rfl, by simp [haccess]⟩

end Member

private theorem StructDecl.takes_read {t rest : List Token} {d : StructDecl} {F : Nat} (h : StructDecl.Forms t d)
    (hF : t.length ≤ F) : (StructDecl.read F).Takes t rest d := by
  cases h with
  | @mk opening name brace closing items hopening hname hbrace hitems hdistinct hclosing =>
    simp only [List.length_cons, List.length_append] at hF
    have hlength : items.length ≤ (items.flatMap (·.1)).length := by
      clear hdistinct hF
      induction items with
      | nil => simp
      | cons i items ih =>
        obtain ⟨hi, hitems⟩ := List.forall_mem_cons.1 hitems
        obtain ⟨token, more, htokens, -⟩ := hi.inside
        have := ih hitems
        simp only [List.flatMap_cons, List.length_append, List.length_cons, htokens]
        omega
    refine (takes_keyword hopening).cons ((takes_ident hname).cons ((takes_symbol hbrace).cons ?_))
    refine (takes_upTo items ?_ (by simp [hclosing]) (by omega)).bind ((takes_symbol hclosing).map _)
    intro pre i post hsplit
    have hi := hitems i (by simp [hsplit])
    have hle : i.1.length ≤ (items.flatMap (·.1)).length := by
      rw [hsplit, List.flatMap_append, List.flatMap_cons, List.length_append, List.length_append]
      omega
    rw [hsplit] at hdistinct
    refine ⟨hi.inside, fun rest => Member.takes_read hi ?_ (by omega)⟩
    simpa using not_mem_names hdistinct

namespace Import

variable {t rest : List Token} {F : Nat}

private theorem takes_readNames {names : List Ident} (h : FormsNames t names)
    (hrest : headKind? rest ≠ some (.symbol .lBrace)) (hF : t.length ≤ F) : (readNames F).Takes t rest names := by
  cases h with
  | nothing => exact Takes.look (takes_not_eat hrest) (takes_pure _)
  | @names opening closing word tokens names hopening hlist hnames hclosing hword =>
    simp only [List.length_cons, List.length_append] at hF
    let pairs := names.map fun name => ([name], name.toIdent)
    have hpairs : pairs.map (·.1) = names.map ([·]) ∧ pairs.map (·.2) = names.map Token.toIdent := by simp [pairs]
    have hlength : names.length ≤ tokens.length := by
      have := hlist.length_le fun item hi => by
        obtain ⟨i, -, rfl⟩ := List.mem_map.1 hi
        exact List.cons_ne_nil _ _
      simpa using this
    refine (takes_eat hopening nofun).cons
      (Takes.bind ?_ ((takes_symbol hclosing).cons ((takes_keyword hword).map _)))
    rw [← hpairs.2]
    refine takes_list (by decide) pairs (hpairs.1 ▸ hlist) ?_ (by simp [hclosing]) (by simp [pairs]; omega)
    intro pre p post hsplit
    have hmem : p ∈ pairs := by simp [hsplit]
    obtain ⟨name, hname, rfl⟩ := List.mem_map.1 hmem
    have hk := hnames name hname
    exact ⟨⟨name, [], rfl, by simp [hk]⟩, fun rest _ => takes_ident hk⟩

private theorem takes_read {i : Import} (h : Forms t i) (hF : t.length ≤ F) : (read F false).Takes t rest i := by
  cases h with
  | mk hopening hnames hpath hsemicolon =>
    simp only [List.length_cons, List.length_append] at hF
    refine (takes_keyword hopening).cons (Takes.bind (takes_readNames hnames (by simp [hpath]) (by omega)) ?_)
    exact (takes_expect hpath nofun).cons ((takes_symbol hsemicolon).map _)

end Import

namespace VariableDecl

variable {t rest : List Token} {F : Nat}

private theorem takes_readContent {name : Ident} {type : Option Ty} {value : Option Expr} {semicolon : Token}
    (h : FormsContent t type value) (hsemicolon : semicolon.kind = .symbol .semicolon) (hF : 16 * t.length ≤ F) :
    (readContent F name).Takes t (semicolon :: rest) (type, value) := by
  cases h with
  | @typed colon t type hcolon htype =>
    rw [List.length_cons] at hF
    refine (takes_eat hcolon nofun).cons ?_
    rw [← List.append_nil t]
    refine Takes.bind (Ty.takes_read htype (by simp [hsemicolon]) (by omega)) ?_
    exact Takes.look (takes_not_eat (by simp [hsemicolon])) (takes_pure _)
  | full hcolon htype hmark hvalue =>
    simp only [List.length_cons, List.length_append] at hF
    refine (takes_eat hcolon nofun).cons (Takes.bind (Ty.takes_read htype (by simp [hmark]) (by omega)) ?_)
    exact (takes_eat hmark nofun).cons ((Expr.takes_read hvalue rfl (by omega) (.symbol hsemicolon rfl)).map _)
  | inferred hmark hvalue =>
    rw [List.length_cons] at hF
    refine Takes.look (takes_not_eat (by simp [hmark])) ((takes_symbol hmark).cons ?_)
    refine Takes.look (takes_not_at? ?_) ((Expr.takes_read hvalue rfl (by omega) (.symbol hsemicolon rfl)).map _)
    -- an expression does not start with a semicolon
    obtain ⟨token, more, rfl, hstart⟩ := hvalue.starts
    intro hk
    rw [Option.some.inj hk] at hstart
    cases hstart

private theorem takes_read {d : VariableDecl} (h : Forms t d) (hF : 16 * t.length ≤ F + 1) :
    (read F).Takes t rest d := by
  cases h with
  | @mk opening name semicolon t type value hopening hname hcontent hconstant hsemicolon =>
    simp only [List.length_cons, List.length_append] at hF
    have hne : opening.kind ≠ .eof := by rcases hopening with h | h <;> rw [h] <;> nofun
    refine (takes_advance hne).cons ((takes_ident hname).cons ?_)
    refine (takes_readContent hcontent hsemicolon (by omega)).bind ?_
    have hvalue : ¬ (opening.kind == .keyword .constKw && value.isNone) = true := by
      simpa [← Option.isSome_iff_ne_none] using hconstant
    change (if (opening.kind == .keyword .constKw && value.isNone) = true then _ else _ :
      Reader VariableDecl).Takes _ _ _
    rw [if_neg hvalue]
    exact (takes_symbol hsemicolon).map _

end VariableDecl

/-! ### Statements -/

/-- The tokens do not go on an `if`. -/
structure NoElse (rest : List Token) : Prop where
  otherwise : headKind? rest ≠ some (.keyword .elsKw)
  elseIf : headKind? rest ≠ some (.keyword .elfKw)

private theorem NoElse.of_starts {token : Token} (h : token.kind.startsStmt = true) (more : List Token) :
    NoElse (token :: more) := by
  constructor <;> intro hk <;> rw [Option.some.inj hk] at h <;> cases h

private theorem NoElse.of_symbol {rest : List Token} {s : Symbol} (h : headKind? rest = some (.symbol s)) :
    NoElse rest :=
  ⟨by rw [h]; nofun, by rw [h]; nofun⟩

/-- A block ends the expression in front of it, since no statement starts like a field. -/
theorem Forms.endsExpr {t : List Token} {b : Block} (h : Forms t (.block b)) (rest : List Token) :
    EndsExpr (t ++ rest) := by
  cases h with
  | @block opening closing t ss hopening h hclosing =>
    refine .block hopening ?_
    cases h with
    | nil => exact .of_ne (by rw [hclosing]; nofun)
    | @cons t u s ss h _ =>
      have hgoes := h.starts.1 (u ++ [closing] ++ rest)
      rwa [← List.append_assoc, ← List.append_assoc] at hgoes

private theorem Forms.headKind?_block {t : List Token} {b : Block} (h : Forms t (.block b)) (rest : List Token) :
    headKind? (t ++ rest) = some (.symbol .lBrace) := by
  cases h with
  | block hopening => exact congrArg some hopening

namespace Phrase

/-- The reader of the phrase takes the tokens `t` in front of any tokens that do not go on the phrase, if it has
sixteen units of fuel for each of them.  The readers that are called by others get along with a little less. -/
def Taken (t : List Token) : Phrase → Prop
  | statement nested s => ∀ ⦃F : Nat⦄ ⦃rest : List Token⦄, 16 * t.length ≤ F → NoElse rest →
      (Stmt.read F nested).Takes t rest s
  | sequence ss => ss.length ≤ t.length ∧ ∀ ⦃F n : Nat⦄ ⦃before : List Stmt⦄ ⦃rest : List Token⦄, 16 * t.length ≤ F →
      ss.length < n → headKind? rest = some (.symbol .rBrace) →
        (upTo .rBrace (fun _ => Stmt.read F true) n before).Takes t rest (before.reverse ++ ss)
  | block b => ∀ ⦃F : Nat⦄ ⦃rest : List Token⦄, 16 * t.length ≤ F + 8 → (Block.read F).Takes t rest b
  | conditional s =>
    ∀ ⦃F : Nat⦄ ⦃rest : List Token⦄, 16 * t.length ≤ F + 8 → NoElse rest → (IfStmt.read F).Takes t rest s
  | alternate a =>
    ∀ ⦃F : Nat⦄ ⦃rest : List Token⦄, 16 * t.length < F → NoElse rest → (Alternate.read F).Takes t rest a

namespace Taken

variable {nested : Bool} {opening name semicolon : Token} {t u v : List Token} {e : Expr} {b : Block}

private theorem expression (h : Derives .assignment t e) (hsemicolon : semicolon.kind = .symbol .semicolon) :
    (statement nested (.expression e (e.span.merge semicolon.span))).Taken (t ++ [semicolon]) := by
  intro F rest hF _
  rw [List.length_append, List.length_singleton] at hF
  obtain ⟨F, rfl⟩ : ∃ m, F = m + 1 := ⟨F - 1, by omega⟩
  have hread : (Stmt.readExpression F).Takes (t ++ [semicolon]) rest (.expression e (e.span.merge semicolon.span)) :=
    Takes.bind (Expr.takes_read h rfl (by omega) (.symbol hsemicolon rfl)) ((takes_symbol hsemicolon).map _)
  obtain ⟨token, more, rfl, hstart⟩ := h.starts
  exact hread.congr fun c hc => Stmt.read_of_startsExpr (by rw [hc]; exact hstart) F nested

/-- The first token of a statement decides which reader takes it. -/
private theorem of_reader {kind : Kind} {s : Stmt} {r : Nat → Reader Stmt} (hk : opening.kind = kind)
    (hr : ∀ (F : Nat) (c : Cursor), c.next.kind = kind → Stmt.read (F + 1) nested c = r F c)
    (h : ∀ ⦃F : Nat⦄ ⦃rest : List Token⦄, 16 * (t.length + 1) ≤ F + 1 → NoElse rest →
      (r F).Takes (opening :: t) rest s) : (statement nested s).Taken (opening :: t) := by
  intro F rest hF hrest
  rw [List.length_cons] at hF
  obtain ⟨F, rfl⟩ : ∃ m, F = m + 1 := ⟨F - 1, by omega⟩
  exact (h hF hrest).congr fun c hc => hr F c (by rw [hc, hk])

private theorem declare {d : VariableDecl} (h : VariableDecl.Forms t d) :
    (statement nested (.declare d)).Taken t := by
  obtain ⟨opening, t, rfl, hopening⟩ : ∃ opening u, t = opening :: u ∧
      (opening.kind = .keyword .letKw ∨ opening.kind = .keyword .constKw) := by
    cases h with
    | mk hopening => exact ⟨_, _, rfl, hopening⟩
  have hread {F : Nat} {rest : List Token} (hF : 16 * (t.length + 1) ≤ F + 1) :
      (do return .declare (← VariableDecl.read F) : Reader Stmt).Takes (opening :: t) rest (.declare d) :=
    (VariableDecl.takes_read h hF).map _
  rcases hopening with hopening | hopening
  · exact of_reader hopening (fun F c hc => by simp only [Stmt.read, current_bind, hc]) fun F rest hF _ => hread hF
  · exact of_reader hopening (fun F c hc => by simp only [Stmt.read, current_bind, hc]) fun F rest hF _ => hread hF

private theorem struct {d : StructDecl} (h : StructDecl.Forms t d) : (statement nested (.struct d)).Taken t := by
  obtain ⟨opening, t, rfl, hopening⟩ : ∃ opening u, t = opening :: u ∧ opening.kind = .keyword .structKw := by
    cases h with
    | mk hopening => exact ⟨_, _, rfl, hopening⟩
  refine of_reader hopening (r := fun F => do return .struct (← StructDecl.read F))
    (fun F c hc => by simp only [Stmt.read, current_bind, hc]) fun F rest hF _ => ?_
  exact (StructDecl.takes_read h (by rw [List.length_cons]; omega)).map _

private theorem imports {i : Import} (h : Import.Forms t i) : (statement false (.imports i)).Taken t := by
  obtain ⟨opening, t, rfl, hopening⟩ : ∃ opening u, t = opening :: u ∧ opening.kind = .keyword .importKw := by
    cases h with
    | mk hopening => exact ⟨_, _, rfl, hopening⟩
  refine of_reader hopening (r := fun F => do return .imports (← Import.read F false))
    (fun F c hc => by simp only [Stmt.read, current_bind, hc]) fun F rest hF _ => ?_
  exact (Import.takes_read h (by rw [List.length_cons]; omega)).map _

private theorem leave (hopening : opening.kind = .keyword .ret) (hsemicolon : semicolon.kind = .symbol .semicolon) :
    (statement nested (.ret none (opening.span.merge semicolon.span))).Taken [opening, semicolon] := by
  refine of_reader hopening (r := Stmt.readReturn) (fun F c hc => by simp only [Stmt.read, current_bind, hc]) ?_
  intro F rest _ _
  refine (takes_keyword hopening).cons (Takes.look (takes_at? (by simp [hsemicolon])) ?_)
  exact (takes_advance (by simp [hsemicolon])).map _

private theorem answer (hopening : opening.kind = .keyword .ret) (h : Derives .assignment t e)
    (hsemicolon : semicolon.kind = .symbol .semicolon) :
    (statement nested (.ret (some e) (opening.span.merge semicolon.span))).Taken
      (opening :: (t ++ [semicolon])) := by
  refine of_reader hopening (r := Stmt.readReturn) (fun F c hc => by simp only [Stmt.read, current_bind, hc]) ?_
  intro F rest hF _
  rw [List.length_append] at hF
  obtain ⟨token, more, rfl, hstart⟩ := h.starts
  have hne : token.kind ≠ .symbol .semicolon := by
    intro hk
    rw [hk] at hstart
    cases hstart
  refine (takes_keyword hopening).cons (Takes.look (takes_not_at? (by simpa using hne)) ?_)
  exact Takes.bind (Expr.takes_read h rfl (by omega) (.symbol hsemicolon rfl)) ((takes_symbol hsemicolon).map _)

private theorem inBlock (hopening : opening.kind = .symbol .lBrace) (h : (block b).Taken (opening :: t)) :
    (statement nested (.block b)).Taken (opening :: t) := by
  refine of_reader hopening (r := fun F => do return .block (← Block.read F))
    (fun F c hc => by simp only [Stmt.read, current_bind, hc]) fun F rest hF _ => ?_
  exact (h (by rw [List.length_cons]; omega)).map _

private theorem branch {s : IfStmt} (hopening : opening.kind = .keyword .ifKw)
    (h : (conditional s).Taken (opening :: t)) : (statement nested (.branch s)).Taken (opening :: t) := by
  refine of_reader hopening (r := fun F => do return .branch (← IfStmt.read F))
    (fun F c hc => by simp only [Stmt.read, current_bind, hc]) fun F rest hF hrest => ?_
  exact (h (by rw [List.length_cons]; omega) hrest).map _

private theorem function {params : List Param} {type : Ty} (hopening : opening.kind = .keyword .fnKw)
    (hname : name.kind = .ident) (hparams : Param.Forms t params) (hreturn : Ty.FormsReturn u type)
    (hb : Forms v (.block b)) (h : (block b).Taken v) :
    (statement nested (.function ⟨name.toIdent, params, type, b, opening.span.merge b.span⟩)).Taken
      (opening :: name :: (t ++ (u ++ v))) := by
  refine of_reader hopening (r := fun F => do return .function (← FunctionDecl.read F))
    (fun F c hc => by simp only [Stmt.read, current_bind, hc]) fun F rest hF _ => ?_
  simp only [List.length_cons, List.length_append] at hF
  obtain ⟨F, rfl⟩ : ∃ m, F = m + 1 := ⟨F - 1, by omega⟩
  have hbrace := hb.headKind?_block rest
  refine Takes.map (r := FunctionDecl.read (F + 1)) ?_ Stmt.function
  rw [FunctionDecl.read]
  refine (takes_keyword hopening).cons ((takes_ident hname).cons ?_)
  refine Takes.bind (Param.takes_readList hparams (by omega)) (Takes.bind ?_ ((h (by omega)).map _))
  exact Ty.takes_readReturn hreturn (by simp [hbrace]) (by simp [hbrace]) (by omega)

/-- A `while` is taken whatever follows it. -/
theorem takes_whileLoop (hopening : opening.kind = .keyword .whileKw) (hcondition : Derives .logical t e)
    (hb : Forms u (.block b)) (h : (block b).Taken u) {F : Nat} (hF : 16 * (t.length + u.length + 1) ≤ F)
    (rest : List Token) :
    (Stmt.read F nested).Takes (opening :: (t ++ u)) rest (.whileLoop e b (opening.span.merge b.span)) := by
  obtain ⟨F, rfl⟩ : ∃ m, F = m + 2 := ⟨F - 2, by omega⟩
  have hread : (Stmt.readWhile (F + 1)).Takes (opening :: (t ++ u)) rest
      (.whileLoop e b (opening.span.merge b.span)) := by
    rw [Stmt.readWhile]
    refine (takes_keyword hopening).cons (Takes.bind ?_ ((h (by omega)).map _))
    exact Expr.takes_read hcondition rfl (by omega) (hb.endsExpr rest)
  exact hread.congr fun c hc => by simp only [Stmt.read, current_bind, hc, hopening]

private theorem whileLoop (hopening : opening.kind = .keyword .whileKw) (hcondition : Derives .logical t e)
    (hb : Forms u (.block b)) (h : (block b).Taken u) :
    (statement nested (.whileLoop e b (opening.span.merge b.span))).Taken (opening :: (t ++ u)) := by
  intro F rest hF _
  rw [List.length_cons, List.length_append] at hF
  exact takes_whileLoop hopening hcondition hb h hF rest

private theorem forLoop {mark semicolon₁ semicolon₂ : Token} {t₁ t₂ t₃ : List Token} {e₁ e₂ e₃ : Expr}
    (hopening : opening.kind = .keyword .forKw) (hname : name.kind = .ident) (hmark : mark.kind = .symbol .define)
    (hinit : Derives .logical t₁ e₁) (hsemicolon₁ : semicolon₁.kind = .symbol .semicolon)
    (hcondition : Derives .assignment t₂ e₂) (hsemicolon₂ : semicolon₂.kind = .symbol .semicolon)
    (hpost : Derives .assignment t₃ e₃) (hb : Forms u (.block b)) (h : (block b).Taken u) :
    (statement nested (.forLoop name.toIdent e₁ e₂ e₃ b (opening.span.merge b.span))).Taken
      (opening :: name :: mark :: (t₁ ++ semicolon₁ :: (t₂ ++ semicolon₂ :: (t₃ ++ u)))) := by
  refine of_reader hopening (r := Stmt.readFor) (fun F c hc => by simp only [Stmt.read, current_bind, hc]) ?_
  intro F rest hF _
  simp only [List.length_cons, List.length_append] at hF
  obtain ⟨F, rfl⟩ : ∃ m, F = m + 1 := ⟨F - 1, by omega⟩
  rw [Stmt.readFor]
  refine (takes_keyword hopening).cons ((takes_ident hname).cons ((takes_symbol hmark).cons ?_))
  refine Takes.bind (Expr.takes_read hinit rfl (by omega) (.symbol hsemicolon₁ rfl))
    ((takes_symbol hsemicolon₁).cons ?_)
  refine Takes.bind (Expr.takes_read hcondition rfl (by omega) (.symbol hsemicolon₂ rfl))
    ((takes_symbol hsemicolon₂).cons ?_)
  exact Takes.bind (Expr.takes_read hpost rfl (by omega) (hb.endsExpr rest)) ((h (by omega)).map _)

/-- A `foreach` is taken whatever follows it. -/
theorem takes_foreach {word : Token} {position : Option Ident} (hopening : opening.kind = .keyword .foreachKw)
    (hname : name.kind = .ident) (hposition : FormsPosition t position) (hword : word.kind = .keyword .inKw)
    (hiterable : Derives .logical u e) (hb : Forms v (.block b)) (h : (block b).Taken v) {F : Nat}
    (hF : 16 * (t.length + u.length + v.length + 3) ≤ F) (rest : List Token) :
    (Stmt.read F nested).Takes (opening :: name :: (t ++ word :: (u ++ v))) rest
      (.foreach name.toIdent position e b (opening.span.merge b.span)) := by
  obtain ⟨F, rfl⟩ : ∃ m, F = m + 2 := ⟨F - 2, by omega⟩
  -- what follows the names is read in the same way with and without a second name
  have hrest : (do
      let _ ← expectKeyword .inKw
      let iterable ← Expr.read F .assignment
      let body ← Block.read F
      return Stmt.foreach name.toIdent position iterable body (opening.span.merge body.span) : Reader Stmt).Takes
        (word :: (u ++ v)) rest (.foreach name.toIdent position e b (opening.span.merge b.span)) := by
    refine (takes_keyword hword).cons (Takes.bind ?_ ((h (by omega)).map _))
    exact Expr.takes_read hiterable rfl (by omega) (hb.endsExpr rest)
  have hread : (Stmt.readForeach (F + 1)).Takes (opening :: name :: (t ++ word :: (u ++ v))) rest
      (.foreach name.toIdent position e b (opening.span.merge b.span)) := by
    rw [Stmt.readForeach]
    refine (takes_keyword hopening).cons ((takes_ident hname).cons ?_)
    cases hposition with
    | nothing => exact Takes.look (takes_not_eat (by simp [hword])) hrest
    | name hcomma hsecond =>
      exact (takes_eat hcomma (by decide)).cons (Takes.cons ((takes_ident hsecond).map some) hrest)
  exact hread.congr fun c hc => by simp only [Stmt.read, current_bind, hc, hopening]

private theorem foreach {word : Token} {position : Option Ident} (hopening : opening.kind = .keyword .foreachKw)
    (hname : name.kind = .ident) (hposition : FormsPosition t position) (hword : word.kind = .keyword .inKw)
    (hiterable : Derives .logical u e) (hb : Forms v (.block b)) (h : (block b).Taken v) :
    (statement nested (.foreach name.toIdent position e b (opening.span.merge b.span))).Taken
      (opening :: name :: (t ++ word :: (u ++ v))) := by
  intro F rest hF _
  simp only [List.length_cons, List.length_append] at hF
  exact takes_foreach hopening hname hposition hword hiterable hb h (by omega) rest

private theorem nil : (sequence []).Taken [] := by
  refine ⟨Nat.le_refl _, fun F n before rest _ hn hrest => ?_⟩
  rw [List.append_nil]
  exact takes_upTo_nil _ hrest hn

private theorem cons {s : Stmt} {ss : List Stmt} (hs : Forms t (.statement true s)) (h : (statement true s).Taken t)
    (hss : Forms u (.sequence ss)) (h' : (sequence ss).Taken u) : (sequence (s :: ss)).Taken (t ++ u) := by
  obtain ⟨-, token, more, rfl, hstart⟩ := hs.starts
  simp only [Taken, List.length_append, List.length_cons]
  refine ⟨by have := h'.1; omega, fun F n before rest hF hn hrest => ?_⟩
  obtain ⟨n, rfl⟩ : ∃ m, n = m + 1 := ⟨n - 1, by omega⟩
  have hne : token.kind ≠ .symbol .rBrace ∧ token.kind ≠ .eof := by
    constructor <;> intro hk <;> rw [hk] at hstart <;> cases hstart
  -- the next statement or the closing brace does not go on an `if`
  have hnext : NoElse (u ++ rest) := by
    cases hss with
    | nil => exact .of_symbol hrest
    | cons h =>
      obtain ⟨-, token, more, rfl, hstart⟩ := h.starts
      exact .of_starts hstart _
  have hlast : (upTo .rBrace (fun _ => Stmt.read F true) n (s :: before)).Takes u rest _ :=
    h'.2 (by omega) (by omega) hrest
  rw [List.reverse_cons, List.append_assoc] at hlast
  exact takes_upTo_cons hne (h (by rw [List.length_cons]; omega) hnext) hlast

private theorem block {closing : Token} {ss : List Stmt} (hopening : opening.kind = .symbol .lBrace)
    (h : (sequence ss).Taken t) (hclosing : closing.kind = .symbol .rBrace) :
    (Phrase.block ⟨ss, opening.span.merge closing.span⟩).Taken (opening :: (t ++ [closing])) := by
  intro F rest hF
  simp only [List.length_cons, List.length_append] at hF
  obtain ⟨F, rfl⟩ : ∃ m, F = m + 1 := ⟨F - 1, by omega⟩
  have hlength := h.1
  rw [Block.read]
  refine (takes_symbol hopening).cons (Takes.bind (h.2 (by omega) (by omega) (by simp [hclosing])) ?_)
  exact (takes_symbol hclosing).map _

private theorem conditional {a : Alternate}
    (hopening : opening.kind = .keyword .ifKw ∨ opening.kind = .keyword .elfKw) (hcondition : Derives .logical t e)
    (hb : Forms u (.block b)) (h : (Phrase.block b).Taken u) (h' : (alternate a).Taken v) :
    (Phrase.conditional ⟨e, b, a, opening.span.merge (a.spanAfter b)⟩).Taken (opening :: (t ++ (u ++ v))) := by
  intro F rest hF hrest
  simp only [List.length_cons, List.length_append] at hF
  obtain ⟨F, rfl⟩ : ∃ m, F = m + 1 := ⟨F - 1, by omega⟩
  have hne : opening.kind ≠ .eof := by rcases hopening with h | h <;> rw [h] <;> nofun
  rw [IfStmt.read]
  refine (takes_advance hne).cons (Takes.bind ?_ (Takes.bind (h (by omega)) ((h' (by omega) hrest).map _)))
  rw [List.append_assoc]
  exact Expr.takes_read hcondition rfl (by omega) (hb.endsExpr _)

private theorem nothing : (alternate .nothing).Taken [] := by
  intro F rest hF hrest _ c hc
  obtain ⟨F, rfl⟩ : ∃ m, F = m + 1 := ⟨F - 1, by omega⟩
  refine ⟨c, ?_, hc⟩
  have hels : c.next.kind ≠ .keyword .elsKw := fun hk => hrest.otherwise (by rw [headKind?_eq hc, hk])
  have helf : c.next.kind ≠ .keyword .elfKw := fun hk => hrest.elseIf (by rw [headKind?_eq hc, hk])
  rw [Alternate.read, current_bind]
  generalize c.next.kind = kind at hels helf ⊢
  cases kind with
  | keyword k => cases k <;> first | rfl | exact absurd rfl hels | exact absurd rfl helf
  | _ => rfl

private theorem elseIf {s : IfStmt} (hopening : opening.kind = .keyword .elfKw)
    (h : (Phrase.conditional s).Taken (opening :: t)) : (alternate (.elseIf s)).Taken (opening :: t) := by
  intro F rest hF hrest
  obtain ⟨F, rfl⟩ : ∃ m, F = m + 1 := ⟨F - 1, by omega⟩
  rw [Alternate.read]
  refine takes_current ?_
  simp only [hopening]
  exact (h (by omega) hrest).map _

private theorem otherwise (hopening : opening.kind = .keyword .elsKw) (h : (Phrase.block b).Taken t) :
    (alternate (.otherwise b)).Taken (opening :: t) := by
  intro F rest hF _
  rw [List.length_cons] at hF
  obtain ⟨F, rfl⟩ : ∃ m, F = m + 1 := ⟨F - 1, by omega⟩
  rw [Alternate.read]
  refine takes_current ?_
  simp only [hopening]
  exact (takes_advance (by rw [hopening]; nofun)).cons ((h (by omega)).map _)

end Taken

end Phrase

/-- Every phrase is read. -/
theorem Forms.taken {t : List Token} {p : Phrase} (h : Forms t p) : p.Taken t := by
  induction h with
  | expression h hsemicolon => exact .expression h hsemicolon
  | declare h => exact .declare h
  | struct h => exact .struct h
  | imports h => exact .imports h
  | leave hopening hsemicolon => exact .leave hopening hsemicolon
  | answer hopening h hsemicolon => exact .answer hopening h hsemicolon
  | inBlock h ih =>
    cases h with
    | block hopening => exact .inBlock hopening ih
  | branch hopening _ ih => exact .branch hopening ih
  | function hopening hname hparams hreturn h ih => exact .function hopening hname hparams hreturn h ih
  | whileLoop hopening hcondition h ih => exact .whileLoop hopening hcondition h ih
  | forLoop hopening hname hmark hinit hsemicolon₁ hcondition hsemicolon₂ hpost h ih =>
    exact .forLoop hopening hname hmark hinit hsemicolon₁ hcondition hsemicolon₂ hpost h ih
  | foreach hopening hname hposition hword hiterable h ih =>
    exact .foreach hopening hname hposition hword hiterable h ih
  | nil => exact .nil
  | cons h h' ih ih' => exact .cons h ih h' ih'
  | block hopening _ hclosing ih => exact .block hopening ih hclosing
  | conditional hopening hcondition h _ ih ih' => exact .conditional hopening hcondition h ih ih'
  | nothing => exact .nothing
  | elseIf hopening _ ih => exact .elseIf hopening ih
  | otherwise hopening _ ih => exact .otherwise hopening ih

/-! ### Programs -/

namespace Program

variable {t u rest : List Token} {eof : Token} {entries : List Entry} {F : Nat}

/-- What follows a statement of a program does not go on an `if`. -/
private theorem Forms.noElse (h : Forms t entries) (heof : eof.kind = .eof) (rest : List Token) :
    NoElse (t ++ eof :: rest) := by
  cases h with
  | nil => exact ⟨by simp [heof], by simp [heof]⟩
  | module hword => exact ⟨by simp [hword], by simp [hword]⟩
  | statement h _ =>
    obtain ⟨-, token, more, rfl, hstart⟩ := h.starts
    exact .of_starts hstart _

private theorem takes_readModule {word name semicolon : Token} {draft : Draft} (hword : word.kind = .ident)
    (hname : name.kind = .ident) (hsemicolon : semicolon.kind = .symbol .semicolon) (hnone : draft.name = none) :
    (readModule draft).Takes [word, name, semicolon] rest { draft with name := some name.toIdent } := by
  refine (takes_advance (by rw [hword]; nofun)).cons ((takes_ident hname).cons ((takes_symbol hsemicolon).cons ?_))
  rw [hnone]
  exact takes_pure _

/-- No module is declared where a statement begins. -/
theorem atModule_of_forms {s : Stmt} {c : Cursor} (h : BraceScript.Forms t (.statement false s))
    (hc : c.tokens = t ++ rest) : ¬ (c.next.kind = .eof) ∧ ¬ atModule c = true := by
  obtain ⟨hgoes, token, more, rfl, hstart⟩ := h.starts
  obtain ⟨hnext, hrest⟩ := List.cons.inj hc
  constructor
  · intro hk
    rw [← hnext, hk] at hstart
    cases hstart
  · intro hmodule
    obtain ⟨-, hword, hname, -⟩ := atModule_iff.1 hmodule
    have hkind : c.next.kind = .ident := hword
    cases hmore : c.rest with
    | nil =>
      rw [Cursor.peek, hmore] at hname
      cases hname
    | cons second others =>
      rw [Cursor.peek, hmore] at hname
      obtain ⟨s, hs, -⟩ := hgoes rest c.next second others (by rw [← hc, Cursor.tokens, hmore]) hkind
      exact absurd (hs.symm.trans hname) (by simp)

/-! One step of the reader of programs, by the entry that comes next. -/

private theorem takes_readDraft_module {word name semicolon : Token} {draft draft' : Draft}
    (htext : word.text = "module") (hword : word.kind = .ident) (hname : name.kind = .ident)
    (hsemicolon : semicolon.kind = .symbol .semicolon) (hnone : draft.name = none)
    (h : (readDraft F { draft with name := some name.toIdent }).Takes t rest draft') :
    (readDraft (F + 1) draft).Takes (word :: name :: semicolon :: t) rest draft' := by
  refine ((takes_readModule hword hname hsemicolon hnone).bind h).of_eq fun c hc => ?_
  have hmodule : atModule c = true := by
    obtain ⟨next, more, last, warnings⟩ := c
    obtain ⟨rfl, rfl⟩ := List.cons.inj hc
    exact atModule_iff.2 ⟨htext, hword, hname, hsemicolon⟩
  have hne : ¬ c.next.kind = .eof := by
    rw [(List.cons.inj hc).1, hword]
    nofun
  rw [readDraft, cursor_bind, if_neg hne, if_pos hmodule]

private theorem takes_readDraft_statement {s : Stmt} {draft draft' : Draft}
    (h : BraceScript.Forms t (.statement false s)) (hread : (Stmt.read F false).Takes t (u ++ rest) s)
    (h' : (readDraft F (draft.add s)).Takes u rest draft') :
    (readDraft (F + 1) draft).Takes (t ++ u) rest draft' := by
  have hboth : (do readDraft F (draft.add (← Stmt.read F false))).Takes (t ++ u) rest draft' := hread.bind h'
  refine hboth.of_eq fun c hc => ?_
  rw [List.append_assoc] at hc
  obtain ⟨hne, hmodule⟩ := atModule_of_forms h hc
  rw [readDraft, cursor_bind, if_neg hne, if_neg hmodule]

private theorem takes_readDraft (h : Forms t entries) (heof : eof.kind = .eof) (draft : Draft)
    (hmodules : (draft.name.toList ++ entries.filterMap Entry.module?).length ≤ 1) (hF : 16 * t.length < F) :
    ∃ draft', (readDraft F draft).Takes t (eof :: rest) draft' ∧ draft.Extends entries draft' := by
  induction h generalizing draft F with
  | nil =>
    obtain ⟨F, rfl⟩ : ∃ m, F = m + 1 := ⟨F - 1, by omega⟩
    refine ⟨draft, (takes_pure draft).of_eq fun c hc => ?_, .refl draft⟩
    rw [readDraft, cursor_bind, if_pos]
    rw [(List.cons.inj hc).1, heof]
  | @module word name semicolon t entries hword htext hname hsemicolon _ ih =>
    simp only [List.length_cons] at hF
    obtain ⟨F, rfl⟩ : ∃ m, F = m + 1 := ⟨F - 1, by omega⟩
    have hnone : draft.name = none := by
      cases hd : draft.name with
      | none => rfl
      | some previous => simp [hd, Entry.module?] at hmodules
    have hextends : draft.Extends [.module name.toIdent] { draft with name := some name.toIdent } := .named hnone
    rw [hnone] at hmodules
    obtain ⟨draft', htakes, hextends'⟩ := ih { draft with name := some name.toIdent } hmodules (F := F) (by omega)
    exact ⟨draft', takes_readDraft_module htext hword hname hsemicolon hnone htakes, hextends.trans hextends'⟩
  | @statement t u s entries h h' ih =>
    have hlength : 0 < t.length := by
      obtain ⟨-, token, more, rfl, -⟩ := h.starts
      simp
    rw [List.length_append] at hF
    obtain ⟨F, rfl⟩ : ∃ m, F = m + 1 := ⟨F - 1, by omega⟩
    have hextends := Draft.Extends.add draft s
    have hname : (draft.add s).name = draft.name := by cases s <;> rfl
    obtain ⟨draft', htakes, hextends'⟩ := ih (draft.add s) (by rw [hname]; exact hmodules) (F := F) (by omega)
    have hread : (Stmt.read F false).Takes t (u ++ eof :: rest) s := h.taken (by omega) (h'.noElse heof rest)
    exact ⟨draft', takes_readDraft_statement h hread htakes, hextends.trans hextends'⟩

/-- Entries with at most one name for the module, up to the end of the text, are read as a program. -/
theorem ofTokens_of_forms (h : Forms t entries) (hmodules : (entries.filterMap Entry.module?).length ≤ 1)
    (heof : eof.kind = .eof) (rest : List Token) (file : String) :
    ∃ p, ofTokens (t ++ eof :: rest) file = .ok p ∧ p.program.Consists file entries := by
  have hfuel : 16 * t.length < fuelFor (t ++ eof :: rest).length := by
    rw [fuelFor, List.length_append]
    omega
  obtain ⟨draft, htakes, hextends⟩ := takes_readDraft h heof ⟨none, [], []⟩ hmodules hfuel
  have htokens := Cursor.tokens_ofTokens (t ++ eof :: rest) (by simp)
  obtain ⟨c', hdraft, -⟩ := htakes (List.cons_ne_nil _ _) htokens
  have hread : Program.read (fuelFor (t ++ eof :: rest).length) file (Cursor.ofTokens (t ++ eof :: rest)) =
      .done ⟨(draft.name.map Ident.name).getD (Path.stem file), draft.imports.reverse, draft.contents.reverse,
        (Cursor.ofTokens (t ++ eof :: rest)).next.span.merge c'.lastSpan⟩ c' := by
    rw [Program.read, current_bind, bind_of_done hdraft]
    rfl
  exact ⟨⟨_, c'.warnings.reverse⟩, by rw [ofTokens, hread], hextends.consists file _⟩

end Program

end BraceScript
