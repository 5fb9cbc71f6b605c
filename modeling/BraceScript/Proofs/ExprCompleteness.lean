import BraceScript.Proofs.ExprSoundness
import BraceScript.Syntax.Program

/-!
# What is derived is read

Every derivation of the grammar is found by the reader of expressions, if the fuel is proportional to the number of
tokens (`Derives.read`).  Together with `Expr.read_sound` this says that the reader accepts exactly the expressions
of the grammar (`Expr.read_eq_done_iff`).

The induction on derivations speaks about all readers that begin with an expression: after its tokens, reading goes
on with the loop over continuations (`Reads`).  So the two halves of a binary expression, of which the first is read
by the same call as the whole, need no case of their own.
-/

namespace BraceScript

namespace Cursor

variable {c : Cursor} {m n : Nat}

private theorem Settled.mono (h : c.Settled m) (hle : m ≤ n) : c.Settled n := fun k hk => Nat.le_trans (h k hk) hle

private theorem settled_of_ofKind? {k : Continuation} (hk : Continuation.ofKind? c.next.kind = some k)
    (hle : k.precedence.rank ≤ n) : c.Settled n := by
  intro k' hk'
  obtain rfl : k = k' := Option.some.inj (hk.symm.trans hk')
  exact hle

theorem settled_of_none (h : Continuation.ofKind? c.next.kind = none) : c.Settled n := by
  intro k hk
  rw [h] at hk
  cases hk

/-- The tokens from here on make a name in front of them the name of a struct literal. -/
def StartsFields (c : Cursor) : Prop :=
  c.peek 0 = .symbol .lBrace ∧ c.peek 1 = .ident ∧ c.peek 2 = .symbol .colon

private theorem not_startsFields (h : c.next.kind ≠ .symbol .lBrace) : ¬ c.StartsFields := fun hstart => h hstart.1

end Cursor

namespace Expr

variable {c c' : Cursor} {e left : Expr} {F : Nat} {floor : Precedence}

/-! ### Steps of the loop -/

private theorem readTail_of_settled (h : c.Settled floor.rank) : readTail (F + 1) floor e c = .done e c := by
  rw [readTail, Reader.current_bind]
  cases hk : Continuation.ofKind? c.next.kind with
  | none => rfl
  | some k =>
    have hle := h k hk
    change (if floor.rank < k.precedence.rank then _ else _ : Reader Expr) c = _
    rw [if_neg (by omega)]
    rfl

private theorem readTail_of_continuation {k : Continuation} {longer : Expr}
    (hk : Continuation.ofKind? c.next.kind = some k) (hrank : floor.rank < k.precedence.rank)
    (h : readContinuation F left k c = .done longer c') :
    readTail (F + 1) floor left c = readTail F floor longer c' := by
  rw [readTail, Reader.current_bind]
  simp only [hk]
  rw [if_pos hrank, Reader.bind_of_done h]

end Expr

/-! ### Reading a derived expression -/

/-- The symbols with which no expression starts or goes on. -/
def Symbol.delimits : Symbol → Bool
  | .comma | .semicolon | .rParen | .rBracket | .rBrace => true
  | _ => false

/-- Reading the tokens `t` of an expression of the level `l` amounts to going on after them with the tree `e`. -/
def Reads (l : Level) (t : List Token) (e : Expr) : Prop :=
  ∀ ⦃floor : Precedence⦄ ⦃l₀ : Level⦄ ⦃c c' : Cursor⦄ ⦃f : Nat⦄ ⦃r : Reply Expr⦄, floor.level? = some l₀ →
    l₀.depth ≤ l.depth → c.Passes t c' → c'.Settled l.bar → ¬ c'.StartsFields →
    (∀ F, f ≤ F → Expr.readTail F floor e c' = r) → ∀ F, f + 16 * t.length ≤ F → Expr.read F floor c = r

namespace Reads

variable {l m : Level} {t u : List Token} {e left : Expr} {c c' : Cursor} {F : Nat}

/-- The whole expression is read if no continuation follows. -/
theorem done (h : Reads l t e) {floor : Precedence} (hl : floor.level? = some l) (hpass : c.Passes t c')
    (hsettled : c'.Settled floor.rank) (hfields : ¬ c'.StartsFields) (hF : 1 + 16 * t.length ≤ F) :
    Expr.read F floor c = .done e c' := by
  have hbar : floor.rank ≤ l.bar := by cases floor <;> cases hl <;> decide
  -- one unit of fuel is enough to see that nothing follows
  refine h hl (Nat.le_refl _) hpass (hsettled.mono hbar) hfields (f := 1) (fun F hF => ?_) F hF
  obtain ⟨F, rfl⟩ : ∃ n, F = n + 1 := ⟨F - 1, by omega⟩
  exact Expr.readTail_of_settled hsettled

/-- In front of a symbol that cannot go on an expression, the whole expression is read. -/
theorem done_before (h : Reads l t e) {floor : Precedence} (hl : floor.level? = some l) (hpass : c.Passes t c')
    {s : Symbol} (hnext : c'.next.kind = .symbol s) (hs : s.delimits = true) (hF : 1 + 16 * t.length ≤ F) :
    Expr.read F floor c = .done e c' := by
  refine h.done hl hpass (Cursor.settled_of_none ?_) (Cursor.not_startsFields ?_) hF
  · rw [hnext]
    cases s <;> first | rfl | cases hs
  · rw [hnext]
    rintro ⟨⟩
    cases hs

private theorem inner (h : Reads m t e) (hm : l.inner? = some m) : Reads l t e := by
  intro floor l₀ c c' f r hl hle hpass hsettled hfields htail F hF
  have hdepth := Level.inner?_depth hm
  have hbar : l.bar ≤ m.bar := by
    cases l <;> first | cases hm <;> decide
  exact h hl (by omega) hpass (hsettled.mono hbar) hfields htail F hF

/-- An expression that is read as a head. -/
private theorem of_head (hne : t ≠ []) (h : ∀ {c c' : Cursor} {F : Nat}, c.Passes t c' → c'.Settled l.bar →
      ¬ c'.StartsFields → 16 * t.length ≤ F + 1 → Expr.readHead F c = .done e c') : Reads l t e := by
  intro floor l₀ c c' f r _ _ hpass hsettled hfields htail F hF
  have hpos := List.length_pos_iff.2 hne
  obtain ⟨F, rfl⟩ : ∃ n, F = n + 1 := ⟨F - 1, by omega⟩
  rw [Expr.read, Reader.bind_of_done (h hpass hsettled hfields (by omega))]
  exact htail F (by omega)

/-- An expression followed by a continuation, which starts with `token`. -/
private theorem extend {k : Continuation} {token : Token} (hleft : Reads k.leftLevel t left)
    (hk : Continuation.ofKind? token.kind = some k)
    (h : ∀ {c c' : Cursor} {F : Nat}, c.Passes (token :: u) c' → c'.Settled k.level.bar →
      ¬ c'.StartsFields → 16 * u.length + 15 ≤ F → Expr.readContinuation F left k c = .done e c') :
    Reads k.level (t ++ token :: u) e := by
  intro floor l₀ c c' f r hl hle hpass hsettled hfields htail F hF
  obtain ⟨c₁, hpass₁, hpass₂⟩ := hpass.split
  have hk₁ : Continuation.ofKind? c₁.next.kind = some k := by rw [hpass₂.next_eq, hk]
  have hdepth : k.level.depth ≤ k.leftLevel.depth := by
    cases k with
    | assign => exact Nat.zero_le _
    | _ => exact Nat.le_refl _
  have hbar : k.precedence.rank ≤ k.leftLevel.bar := by
    cases k with
    | binary op => exact Nat.le_of_eq (BinaryOp.level_bar op).symm
    | _ => exact Nat.le_of_ble_eq_true rfl
  have hfields₁ : ¬ c₁.StartsFields := Cursor.not_startsFields <| by
    intro hbr
    rw [hbr] at hk₁
    cases hk₁
  rw [List.length_append, List.length_cons] at hF
  -- reading the left operand comes down to going on behind it, where the continuation takes its share of the fuel
  refine hleft hl (by omega) hpass₁ (Cursor.settled_of_ofKind? hk₁ hbar) hfields₁ (f := f + 16 * (u.length + 1))
    (fun F hF => ?_) F (by omega)
  obtain ⟨F, rfl⟩ : ∃ n, F = n + 1 := ⟨F - 1, by omega⟩
  rw [Expr.readTail_of_continuation hk₁ ((Continuation.rank_lt_iff hl).2 hle) (h hpass₂ hsettled hfields (by omega))]
  exact htail F (by omega)

end Reads

/-! ### Heads and continuations -/

private theorem Token.Denotes.ofNumber? {token : Token} {value : Literal} (h : token.Denotes value)
    (hk : token.kind = .number) : Literal.ofNumber? token.text = some value := by
  unfold Literal.ofNumber?
  cases h with
  | integer _ hpoint hn hmax =>
    rw [if_neg (by simpa using hpoint), hn, Option.bind_some, if_pos]
    exact IntType.holds_iff.2 ⟨Int.le_trans (by decide) (Int.natCast_nonneg _), Int.ofNat_le.2 hmax⟩
  | float _ hpoint hx =>
    rw [if_pos (by simpa using hpoint), hx]
    rfl
  | _ =>
    rename_i hk'
    rw [hk] at hk'
    cases hk'

namespace Expr

variable {c c' : Cursor} {e : Expr} {F : Nat} {token : Token}

private theorem readHead_of_denotes {value : Literal} (hpass : c.Passes [token] c') (h : token.Denotes value) :
    readHead (F + 1) c = .done (literal value token.span) c' := by
  have hliteral : readLiteral value c = .done (literal value token.span) c' := by
    unfold readLiteral
    rw [Reader.advance_bind, hpass.next_eq, hpass.advance_eq]
    rfl
  have hnumber : token.kind = .number → readNumber c = .done (literal value token.span) c' := by
    intro hk
    unfold readNumber
    rw [Reader.advance_bind, hpass.next_eq, hpass.advance_eq, h.ofNumber? hk]
    rfl
  rw [readHead, Reader.current_bind, hpass.next_eq]
  cases h with
  | integer hk | float hk =>
    simp only [hk]
    exact hnumber hk
  | string hk | character hk | isTrue hk | isFalse hk | null hk =>
    simp only [hk]
    exact hliteral

theorem readHead_of_name (hpass : c.Passes [token] c') (hk : token.kind = .ident)
    (hfields : ¬ c'.StartsFields) : readHead (F + 1) c = .done (ident token.toIdent) c' := by
  have hstart : ¬ c.startsWith buildStart = true := by
    intro h
    obtain ⟨-, hbrace, hname, hcolon⟩ := startsWith_buildStart.1 h
    have hpeek (n : Nat) := (hpass.peek n).symm
    exact hfields ⟨(hpeek 0).trans hbrace, (hpeek 1).trans hname, (hpeek 2).trans hcolon⟩
  rw [readHead, Reader.current_bind, hpass.next_eq]
  simp only [hk, Reader.cursor_bind]
  rw [Reader.bind_of_done (Reader.ident_of_passes hpass hk), if_neg hstart]
  rfl

/-- The items of a list are read one after the other. -/
private theorem upTo_of_reads {items : List ListItem} {tokens : List Token} {closer : Symbol} {n : Nat}
    (hcloser : closer = .rParen ∨ closer = .rBracket) (hpass : c.Passes tokens c')
    (hend : c'.next.kind = .symbol closer) (hlist : Listed (items.map (·.tokens)) tokens)
    (hitems : ∀ a ∈ items, Derives .assignment a.tokens a.tree)
    (hreads : ∀ a ∈ items, Reads .assignment a.tokens a.tree) (hF : 16 * tokens.length + 1 ≤ F)
    (hn : tokens.length < n) :
    Reader.upTo closer (fun _ => Reader.listed closer (read F .comma)) n [] c = .done (items.map (·.tree)) c' := by
  have hlength : items.length ≤ tokens.length := by
    have := hlist.length_le fun item hi => by
      obtain ⟨a, ha, rfl⟩ := List.mem_map.1 hi
      exact (hitems a ha).ne_nil
    simpa using this
  let pairs := items.map fun a => (a.tokens, a.tree)
  have hpairs : pairs.map (·.1) = items.map (·.tokens) ∧ pairs.map (·.2) = items.map (·.tree) := by
    simp [pairs]
  rw [← hpairs.2]
  refine Reader.upTo_of_passes (fun _ => read F .comma) (fun _ rest => ∀ i ∈ rest, i ∈ pairs) ?_ ?_ ?_
    (fun i hi => hi) (hpairs.1 ▸ hlist) hpass hend ?_
  · intro before i rest h i' hi'
    exact h i' (List.mem_cons_of_mem _ hi')
  · intro before i rest c c' h hpass hafter
    obtain ⟨a, ha, rfl⟩ := List.mem_map.1 (h i (by simp))
    obtain ⟨token, rest, htokens, hstart⟩ := (hitems a ha).starts
    obtain ⟨s, hnext, hs⟩ : ∃ s, c'.next.kind = .symbol s ∧ s.delimits = true := by
      rcases hafter with h | h
      · exact ⟨_, h, rfl⟩
      · exact ⟨_, h, by rcases hcloser with rfl | rfl <;> rfl⟩
    have hle := hlist.length_le_of_mem (List.mem_map_of_mem ha)
    refine ⟨⟨token, rest, htokens, ?_⟩, (hreads a ha).done_before rfl hpass hnext hs (by omega)⟩
    intro hk
    rw [hk] at hstart
    rcases hcloser with rfl | rfl <;> cases hstart
  · rcases hcloser with rfl | rfl <;> decide
  · simpa [pairs] using Nat.lt_of_le_of_lt hlength hn

private theorem readField_of_passes {f : FieldItem} {before : List (Ident × Expr)} (hpass : c.Passes f.tokens c')
    (hname : f.name.kind = .ident) (hcolon : f.colon.kind = .symbol .colon)
    (hvalue : Reads .assignment f.value f.tree) (hnew : f.name.text ∉ before.map (·.1.name)) {s : Symbol}
    (hnext : c'.next.kind = .symbol s) (hs : s.delimits = true) (hF : 1 + 16 * f.value.length ≤ F) :
    readField (F + 1) before c = .done f.field c' := by
  obtain ⟨c₁, hpass₁, hrest⟩ := hpass.cons
  obtain ⟨c₂, hpass₂, hpass₃⟩ := hrest.cons
  have hany : ¬ before.any (·.1.name == f.name.toIdent.name) = true := by
    intro hany
    obtain ⟨g, hg, hgname⟩ := List.any_eq_true.1 hany
    exact hnew (List.mem_map.2 ⟨g, hg, eq_of_beq hgname⟩)
  have hread : read F .comma c₂ = .done f.tree c' := hvalue.done_before rfl hpass₃ hnext hs hF
  rw [readField, Reader.bind_of_done (Reader.ident_of_passes hpass₁ hname), if_neg hany,
    Reader.bind_of_done (Reader.expectSymbol_of_passes hpass₂ hcolon), Reader.bind_of_done hread]
  rfl

/-- Fields with different names are read one after the other. -/
private theorem upTo_of_fields {fields : List FieldItem} {tokens : List Token} {n : Nat} (hpass : c.Passes tokens c')
    (hend : c'.next.kind = .symbol .rBrace) (hlist : Listed (fields.map (·.tokens)) tokens)
    (hdistinct : (fields.map (·.name.text)).Nodup)
    (hkinds : ∀ f ∈ fields, f.name.kind = .ident ∧ f.colon.kind = .symbol .colon)
    (hreads : ∀ f ∈ fields, Reads .assignment f.value f.tree) (hF : 16 * tokens.length + 1 ≤ F)
    (hn : tokens.length < n) :
    Reader.upTo .rBrace (fun before => Reader.listed .rBrace (readField (F + 1) before)) n [] c =
      .done (fields.map (·.field)) c' := by
  have hlength : fields.length ≤ tokens.length := by
    have := hlist.length_le fun item hi => by
      obtain ⟨f, -, rfl⟩ := List.mem_map.1 hi
      exact List.cons_ne_nil _ _
    simpa using this
  let pairs := fields.map fun f => (f.tokens, f.field)
  have hpairs : pairs.map (·.1) = fields.map (·.tokens) ∧ pairs.map (·.2) = fields.map (·.field) := by
    simp [pairs]
  rw [← hpairs.2]
  -- the names of the fields still to come and of those before them are all different
  refine Reader.upTo_of_passes (readField (F + 1)) (fun before rest => (∀ i ∈ rest, i ∈ pairs) ∧
      (rest.map (·.2.1.name) ++ before.map (·.1.name)).Nodup) ?_ ?_ (by decide) ⟨fun i hi => hi, ?_⟩
    (hpairs.1 ▸ hlist) hpass hend ?_
  · rintro before i rest ⟨hmem, hnodup⟩
    exact ⟨fun i' hi' => hmem i' (List.mem_cons_of_mem _ hi'), List.perm_middle.nodup_iff.2 hnodup⟩
  · rintro before i rest c c' ⟨hmem, hnodup⟩ hpass hafter
    obtain ⟨f, hf, rfl⟩ := List.mem_map.1 (hmem i (by simp))
    obtain ⟨hname, hcolon⟩ := hkinds f hf
    have hnew : f.name.text ∉ before.map (·.1.name) := by
      intro h
      exact (List.nodup_cons.1 hnodup).1 (List.mem_append_right _ h)
    obtain ⟨s, hnext, hs⟩ : ∃ s, c'.next.kind = .symbol s ∧ s.delimits = true := by
      rcases hafter with h | h <;> exact ⟨_, h, rfl⟩
    have hle := hlist.length_le_of_mem (List.mem_map_of_mem hf)
    rw [FieldItem.tokens, List.length_cons, List.length_cons] at hle
    refine ⟨⟨f.name, _, rfl, by rw [hname]; decide⟩, ?_⟩
    exact readField_of_passes hpass hname hcolon (hreads f hf) hnew hnext hs (by omega)
  · have hmap : pairs.map (·.2.1.name) = fields.map (·.name.text) := by simp [pairs, FieldItem.field, Token.toIdent]
    simpa [hmap] using hdistinct
  · simpa [pairs] using Nat.lt_of_le_of_lt hlength hn

end Expr

namespace Reads

variable {t tokens : List Token} {e : Expr} {opening closing : Token}

private theorem literal {token : Token} {value : Literal} (h : token.Denotes value) :
    Reads .primary [token] (.literal value token.span) := by
  refine of_head (List.cons_ne_nil _ _) fun {c c' F} hpass _ _ hF => ?_
  rw [List.length_singleton] at hF
  obtain ⟨F, rfl⟩ : ∃ n, F = n + 1 := ⟨F - 1, by omega⟩
  exact Expr.readHead_of_denotes hpass h

private theorem name {token : Token} (hk : token.kind = .ident) : Reads .primary [token] (.ident token.toIdent) := by
  refine of_head (List.cons_ne_nil _ _) fun {c c' F} hpass _ hfields hF => ?_
  rw [List.length_singleton] at hF
  obtain ⟨F, rfl⟩ : ∃ n, F = n + 1 := ⟨F - 1, by omega⟩
  exact Expr.readHead_of_name hpass hk hfields

private theorem before {op : UnaryOp} {mark : Token} (hmark : mark.kind = .symbol op.mark)
    (h : Reads .prefixed t e) :
    Reads .prefixed (mark :: t) (.unary ⟨op, mark.span⟩ e .before (mark.span.merge e.span)) := by
  refine of_head (List.cons_ne_nil _ _) fun {c c' F} hpass hsettled hfields hF => ?_
  rw [List.length_cons] at hF
  obtain ⟨F, rfl⟩ : ∃ n, F = n + 1 := ⟨F - 1, by omega⟩
  obtain ⟨c₁, hpass₁, hpass₂⟩ := hpass.cons
  have hread : Expr.read F .unary c₁ = .done e c' := h.done rfl hpass₂ hsettled hfields (by omega)
  rw [Expr.readHead_mark (by rw [hpass.next_eq, hmark]), Reader.advance_bind, hpass₁.next_eq, hpass₁.advance_eq,
    Reader.bind_of_done hread]
  rfl

private theorem paren (hopening : opening.kind = .symbol .lParen) (h : Reads .assignment t e)
    (hclosing : closing.kind = .symbol .rParen) : Reads .primary (opening :: t ++ [closing]) e := by
  refine of_head (List.cons_ne_nil _ _) fun {c c' F} hpass _ _ hF => ?_
  rw [List.length_append, List.length_cons] at hF
  obtain ⟨F, rfl⟩ : ∃ n, F = n + 1 := ⟨F - 1, by omega⟩
  obtain ⟨c₁, hpass₁, hrest⟩ := hpass.cons
  obtain ⟨c₂, hpass₂, hpass₃⟩ := hrest.split
  have hnext : c₂.next.kind = .symbol .rParen := by rw [hpass₃.next_eq, hclosing]
  have hread : Expr.read F .lowest c₁ = .done e c₂ := h.done_before rfl hpass₂ hnext rfl (by omega)
  rw [Expr.readHead, Reader.current_bind, hpass₁.next_eq]
  simp only [hopening, Reader.advance_bind]
  rw [hpass₁.advance_eq, Reader.bind_of_done hread,
    Reader.bind_of_done (Reader.expectSymbol_of_passes hpass₃ hclosing)]
  rfl

private theorem array {elements : List ListItem} (hopening : opening.kind = .symbol .lBracket)
    (hlist : Listed (elements.map (·.tokens)) tokens) (hitems : ∀ a ∈ elements, Derives .assignment a.tokens a.tree)
    (hreads : ∀ a ∈ elements, Reads .assignment a.tokens a.tree) (hclosing : closing.kind = .symbol .rBracket) :
    Reads .primary (opening :: tokens ++ [closing])
      (.array (elements.map (·.tree)) elements.length (opening.span.merge closing.span)) := by
  refine of_head (List.cons_ne_nil _ _) fun {c c' F} hpass _ _ hF => ?_
  rw [List.length_append, List.length_cons] at hF
  obtain ⟨F, rfl⟩ : ∃ n, F = n + 1 := ⟨F - 1, by omega⟩
  obtain ⟨c₁, hpass₁, hrest⟩ := hpass.cons
  obtain ⟨c₂, hpass₂, hpass₃⟩ := hrest.split
  have hnext : c₂.next.kind = .symbol .rBracket := by rw [hpass₃.next_eq, hclosing]
  have hread :=
    Expr.upTo_of_reads (F := F) (n := F) (.inr rfl) hpass₂ hnext hlist hitems hreads (by omega) (by omega)
  rw [Expr.readHead, Reader.current_bind, hpass₁.next_eq]
  simp only [hopening, Reader.advance_bind]
  rw [hpass₁.advance_eq, hpass₁.next_eq, Reader.bind_of_done hread,
    Reader.bind_of_done (Reader.expectSymbol_of_passes hpass₃ hclosing), List.length_map]
  rfl

private theorem build {fields : List FieldItem} {name : Token} (hname : name.kind = .ident)
    (hopening : opening.kind = .symbol .lBrace) (hlist : Listed (fields.map (·.tokens)) tokens) (hsome : fields ≠ [])
    (hdistinct : (fields.map (·.name.text)).Nodup)
    (hkinds : ∀ f ∈ fields, f.name.kind = .ident ∧ f.colon.kind = .symbol .colon)
    (hreads : ∀ f ∈ fields, Reads .assignment f.value f.tree) (hclosing : closing.kind = .symbol .rBrace) :
    Reads .primary (name :: opening :: tokens ++ [closing])
      (.build name.toIdent (fields.map (·.field)) (name.span.merge closing.span)) := by
  refine of_head (List.cons_ne_nil _ _) fun {c c' F} hpass _ _ hF => ?_
  rw [List.length_append, List.length_cons, List.length_cons] at hF
  obtain ⟨F, rfl⟩ : ∃ n, F = n + 3 := ⟨F - 3, by omega⟩
  obtain ⟨c₁, hpass₁, hrest⟩ := hpass.cons
  obtain ⟨c₂, hpass₂, hrest'⟩ := hrest.cons
  obtain ⟨c₃, hpass₃, hpass₄⟩ := hrest'.split
  have hnext : c₃.next.kind = .symbol .rBrace := by rw [hpass₄.next_eq, hclosing]
  -- the first field makes the name one of a struct literal
  have hstart : c.startsWith Expr.buildStart = true := by
    obtain ⟨f, rest, rfl⟩ := List.exists_cons_of_ne_nil hsome
    obtain ⟨more, rfl⟩ := hlist.exists_append
    obtain ⟨c₄, hfirst, hsecond⟩ := hpass₃.cons
    have hpeek₁ := hpass₁.peek 0
    have hpeek₂ := (hpass₁.trans hpass₂).peek 0
    have hpeek₃ := (hpass₁.trans (hpass₂.trans hfirst)).peek 0
    obtain ⟨hfname, hfcolon⟩ := hkinds f (by simp)
    refine Expr.startsWith_buildStart.2 ⟨?_, hpeek₁.trans ?_, hpeek₂.trans ?_, hpeek₃.trans ?_⟩
    · change c.next.kind = _
      rw [hpass₁.next_eq, hname]
    · change c₁.next.kind = _
      rw [hpass₂.next_eq, hopening]
    · change c₂.next.kind = _
      rw [hfirst.next_eq, hfname]
    · change c₄.next.kind = _
      rw [hsecond.next_eq, hfcolon]
  have hread := Expr.upTo_of_fields (F := F) (n := F + 1) hpass₃ hnext hlist hdistinct hkinds hreads
    (by omega) (by omega)
  have hbuild : Expr.readBuild (F + 2) name.toIdent c₁ =
      .done (.build name.toIdent (fields.map (·.field)) (name.span.merge closing.span)) c' := by
    rw [Expr.readBuild, Reader.bind_of_done (Reader.expectSymbol_of_passes hpass₂ hopening),
      Reader.bind_of_done hread,
      Reader.bind_of_done (Reader.expectSymbol_of_passes hpass₄ hclosing)]
    rfl
  rw [Expr.readHead, Reader.current_bind, hpass₁.next_eq]
  simp only [hname, Reader.cursor_bind]
  rw [Reader.bind_of_done (Reader.ident_of_passes hpass₁ hname), if_pos hstart, hbuild]

private theorem binary {l m : Level} {right : List Token} {mark : Token} {op : BinaryOp} {e₁ e₂ : Expr}
    (hl : op.level = l) (hm : l.inner? = some m) (h₁ : Reads l t e₁) (hmark : mark.kind = .symbol op.mark)
    (h₂ : Reads m right e₂) :
    Reads l (t ++ mark :: right) (.binary ⟨op, mark.span⟩ e₁ e₂ (e₁.span.merge e₂.span)) := by
  subst hl
  have hk : Continuation.ofKind? mark.kind = some (.binary op) := Continuation.ofKind?_eq_some_iff.2 ⟨_, hmark, rfl⟩
  refine extend (k := .binary op) h₁ hk fun {c c' F} hpass hsettled hfields hF => ?_
  obtain ⟨F, rfl⟩ : ∃ n, F = n + 1 := ⟨F - 1, by omega⟩
  obtain ⟨c₁, hpass₁, hpass₂⟩ := hpass.cons
  have hread : Expr.read F (Continuation.binaryPrecedence op) c₁ = .done e₂ c' :=
    h₂.done ((BinaryOp.level?_eq op).trans hm) hpass₂ (BinaryOp.level_bar op ▸ hsettled) hfields (by omega)
  rw [Expr.readContinuation, Reader.advance_bind, hpass₁.next_eq, hpass₁.advance_eq, Reader.bind_of_done hread]
  rfl

private theorem assign {value : List Token} {mark : Token} {op : AssignOp} {e₁ e₂ : Expr} (h₁ : Reads .logical t e₁)
    (ht : e₁.isAssignable = true) (hmark : mark.kind = .symbol op.mark) (h₂ : Reads .assignment value e₂) :
    Reads .assignment (t ++ mark :: value) (.assign e₁ ⟨op, mark.span⟩ e₂ (e₁.span.merge e₂.span)) := by
  have hk : Continuation.ofKind? mark.kind = some (.assign op) := Continuation.ofKind?_eq_some_iff.2 ⟨_, hmark, rfl⟩
  refine extend (k := .assign op) h₁ hk fun {c c' F} hpass hsettled hfields hF => ?_
  obtain ⟨F, rfl⟩ : ∃ n, F = n + 1 := ⟨F - 1, by omega⟩
  obtain ⟨c₁, hpass₁, hpass₂⟩ := hpass.cons
  have hread : Expr.read F Precedence.assignment.lower c₁ = .done e₂ c' :=
    h₂.done rfl hpass₂ hsettled hfields (by omega)
  rw [Expr.readContinuation, if_pos ht, Reader.advance_bind, hpass₁.next_eq, hpass₁.advance_eq,
    Reader.bind_of_done hread]
  rfl

private theorem property {dot name : Token} (h : Reads .suffixed t e) (hdot : dot.kind = .symbol .dot)
    (hname : name.kind = .ident) :
    Reads .suffixed (t ++ [dot, name]) (.property e name.toIdent (e.span.merge name.span)) := by
  refine extend (k := .property) h (by rw [hdot]; rfl) fun {c c' F} hpass _ _ hF => ?_
  obtain ⟨F, rfl⟩ : ∃ n, F = n + 1 := ⟨F - 1, by omega⟩
  obtain ⟨c₁, hpass₁, hpass₂⟩ := hpass.cons
  rw [Expr.readContinuation, Reader.bind_of_done (Reader.expectSymbol_of_passes hpass₁ hdot),
    Reader.bind_of_done (Reader.ident_of_passes hpass₂ hname)]
  rfl

private theorem call {id : Ident} {arguments : List ListItem} (h : Reads .suffixed t (.ident id))
    (hopening : opening.kind = .symbol .lParen) (hlist : Listed (arguments.map (·.tokens)) tokens)
    (hitems : ∀ a ∈ arguments, Derives .assignment a.tokens a.tree)
    (hreads : ∀ a ∈ arguments, Reads .assignment a.tokens a.tree) (hclosing : closing.kind = .symbol .rParen) :
    Reads .suffixed (t ++ opening :: tokens ++ [closing])
      (.call id (arguments.map (·.tree)) (id.span.merge closing.span)) := by
  rw [List.append_assoc, List.cons_append]
  refine extend (k := .call) h (by rw [hopening]; rfl) fun {c c' F} hpass _ _ hF => ?_
  rw [List.length_append] at hF
  obtain ⟨F, rfl⟩ : ∃ n, F = n + 1 := ⟨F - 1, by omega⟩
  obtain ⟨c₁, hpass₁, hrest⟩ := hpass.cons
  obtain ⟨c₂, hpass₂, hpass₃⟩ := hrest.split
  have hnext : c₂.next.kind = .symbol .rParen := by rw [hpass₃.next_eq, hclosing]
  have hread :=
    Expr.upTo_of_reads (F := F) (n := F) (.inl rfl) hpass₂ hnext hlist hitems hreads (by omega) (by omega)
  rw [Expr.readContinuation, Reader.bind_of_done (Reader.expectSymbol_of_passes hpass₁ hopening),
    Reader.bind_of_done hread, Reader.bind_of_done (Reader.expectSymbol_of_passes hpass₃ hclosing)]
  rfl

private theorem after {op : UnaryOp} {mark : Token} {id : Ident} (h : Reads .suffixed t (.ident id))
    (hop : op = .increment ∨ op = .decrement) (hmark : mark.kind = .symbol op.mark) :
    Reads .suffixed (t ++ [mark]) (.unary ⟨op, mark.span⟩ (.ident id) .after (id.span.merge mark.span)) := by
  have hk : Continuation.ofKind? mark.kind = some (.step op) :=
    Continuation.ofKind?_eq_some_iff.2 ⟨_, hmark, by rcases hop with rfl | rfl <;> rfl⟩
  refine extend (k := .step op) h hk fun {c c' F} hpass _ _ hF => ?_
  obtain ⟨F, rfl⟩ : ∃ n, F = n + 1 := ⟨F - 1, by omega⟩
  rw [Expr.readContinuation, Reader.advance_bind, hpass.next_eq, hpass.advance_eq]
  rfl

private theorem index {id : Ident} {position : List Token} (h : Reads .suffixed t (.ident id))
    (hopening : opening.kind = .symbol .lBracket) (hposition : Reads .assignment position e)
    (hclosing : closing.kind = .symbol .rBracket) :
    Reads .suffixed (t ++ opening :: position ++ [closing]) (.index id e (id.span.merge closing.span)) := by
  rw [List.append_assoc, List.cons_append]
  refine extend (k := .index) h (by rw [hopening]; rfl) fun {c c' F} hpass _ _ hF => ?_
  rw [List.length_append] at hF
  obtain ⟨F, rfl⟩ : ∃ n, F = n + 1 := ⟨F - 1, by omega⟩
  obtain ⟨c₁, hpass₁, hrest⟩ := hpass.cons
  obtain ⟨c₂, hpass₂, hpass₃⟩ := hrest.split
  have hnext : c₂.next.kind = .symbol .rBracket := by rw [hpass₃.next_eq, hclosing]
  have hread : Expr.read F .lowest c₁ = .done e c₂ := hposition.done_before rfl hpass₂ hnext rfl (by omega)
  rw [Expr.readContinuation, Reader.bind_of_done (Reader.expectSymbol_of_passes hpass₁ hopening),
    Reader.bind_of_done hread, Reader.bind_of_done (Reader.expectSymbol_of_passes hpass₃ hclosing)]
  rfl

end Reads

/-- Every derived expression is read. -/
theorem Derives.reads {l : Level} {t : List Token} {e : Expr} (h : Derives l t e) : Reads l t e := by
  induction h with
  | inner hm _ ih => exact ih.inner hm
  | assign _ ht hmark _ ih₁ ih₂ => exact ih₁.assign ht hmark ih₂
  | binary hl hm _ hmark _ ih₁ ih₂ => exact .binary hl hm ih₁ hmark ih₂
  | before hmark _ ih => exact .before hmark ih
  | property _ hdot hname ih => exact ih.property hdot hname
  | call _ hopening hlist hitems hclosing ih ihitems => exact ih.call hopening hlist hitems ihitems hclosing
  | after _ hop hmark ih => exact ih.after hop hmark
  | index _ hopening _ hclosing ih ihposition => exact ih.index hopening ihposition hclosing
  | literal hv => exact .literal hv
  | name hk => exact .name hk
  | paren hopening _ hclosing ih => exact .paren hopening ih hclosing
  | array hopening hlist hitems hclosing ih => exact .array hopening hlist hitems ih hclosing
  | build hname hopening hlist hsome hdistinct hkinds _ hclosing ih =>
    exact .build hname hopening hlist hsome hdistinct hkinds ih hclosing

/-! ### Reading up to a semicolon -/

/-- A token that can start an expression starts no other statement. -/
theorem Stmt.read_of_startsExpr {c : Cursor} (h : c.next.kind.startsExpr = true) (F : Nat) (nested : Bool) :
    Stmt.read (F + 1) nested c = Stmt.readExpression F c := by
  rw [Stmt.read, Reader.current_bind]
  generalize c.next.kind = kind at h ⊢
  cases kind with
  | keyword k => cases k <;> first | rfl | cases h
  | symbol s => cases s <;> first | rfl | cases h
  | _ => rfl

/-- In front of a semicolon, reading an expression stops exactly before the semicolon and gives the tree `e` if and
only if the grammar derives the tokens up to there with the tree `e`. -/
theorem Expr.read_eq_done_iff (t rest : List Token) (text : String) (span : Span) (last : Option Span)
    (warnings : List SyntaxWarning) (extra : Nat) (e : Expr) :
    (∃ stop : Cursor, Expr.read (Program.fuelFor t.length + extra) .lowest
        { Cursor.ofTokens (t ++ ⟨.symbol .semicolon, text, span⟩ :: rest) with last, warnings } = .done e stop ∧
      stop.next :: stop.rest = ⟨.symbol .semicolon, text, span⟩ :: rest) ↔ Derives .assignment t e := by
  have htokens := Cursor.tokens_ofTokens (t ++ ⟨.symbol .semicolon, text, span⟩ :: rest) (by simp)
  constructor
  · rintro ⟨stop, hread, hstop⟩
    have hfenced : Cursor.Fenced { Cursor.ofTokens (t ++ ⟨.symbol .semicolon, text, span⟩ :: rest) with
        last, warnings } :=
      ⟨⟨.symbol .semicolon, text, span⟩, by rw [htokens]; simp, rfl⟩
    obtain ⟨t', hpass, hderives, -⟩ := Expr.read_sound rfl hfenced hread
    have hsame := hpass.tokens
    rw [hstop] at hsame
    obtain rfl := List.append_cancel_right (htokens.symm.trans hsame)
    exact hderives
  · intro h
    refine ⟨⟨⟨.symbol .semicolon, text, span⟩, rest, (t.getLast?.map Token.span).or last, warnings⟩, ?_, rfl⟩
    have hfuel : 1 + 16 * t.length ≤ Program.fuelFor t.length + extra := by
      unfold Program.fuelFor
      omega
    exact h.reads.done_before rfl ⟨htokens, rfl, rfl, h.plain⟩ rfl rfl hfuel

end BraceScript
