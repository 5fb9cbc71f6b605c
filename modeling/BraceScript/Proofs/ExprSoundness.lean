import BraceScript.Proofs.Passage

/-!
# What is read is derived

Whatever the reader of expressions accepts has a derivation in the grammar, with the tree that was read
(`Expr.read_sound`).  The invariant of the loop over continuations relates the two ways of stating precedence: the
expression read so far has some level, and no continuation that starts at the cursor binds tighter than that level
allows (`Level.bar`).
-/

namespace BraceScript

/-! ### Symbols and continuations -/

private theorem UnaryOp.ofSymbol?_eq_some_iff {s : Symbol} {op : UnaryOp} : ofSymbol? s = some op ↔ s = op.mark := by
  constructor
  · intro h
    cases s <;> cases h <;> rfl
  · rintro rfl
    cases op <;> rfl

namespace Continuation

variable {s : Symbol}

/-- The symbol that starts the continuation. -/
def mark? : Continuation → Option Symbol
  | binary op => some op.mark
  | assign op => some op.mark
  | call => some .lParen
  | step .increment => some .plusPlus
  | step .decrement => some .minusMinus
  | step _ => none
  | property => some .dot
  | index => some .lBracket

private theorem ofSymbol?_eq_some_iff {k : Continuation} : ofSymbol? s = some k ↔ k.mark? = some s := by
  constructor
  · intro h
    cases s <;> cases h <;> rfl
  · intro h
    rcases k with op | op | _ | op | _ | _
    · obtain rfl := Option.some.inj h
      rcases op with op | op | _ | _ | _ | _ | _ <;> first | rfl | (cases op <;> rfl)
    · obtain rfl := Option.some.inj h
      rcases op with _ | op <;> first | rfl | (cases op <;> rfl)
    · cases h
      rfl
    · cases op <;> cases h <;> rfl
    · cases h
      rfl
    · cases h
      rfl

theorem ofKind?_eq_some_iff {kind : Kind} {k : Continuation} :
    ofKind? kind = some k ↔ ∃ s, kind = .symbol s ∧ k.mark? = some s := by
  constructor
  · intro h
    cases kind with
    | symbol s => exact ⟨s, rfl, ofSymbol?_eq_some_iff.1 h⟩
    | _ => cases h
  · rintro ⟨s, rfl, h⟩
    exact ofSymbol?_eq_some_iff.2 h

private theorem endsExpr_of_ofKind? {kind : Kind} {k : Continuation} (h : ofKind? kind = some k) :
    kind.endsExpr = false := by
  cases kind with
  | symbol s =>
    cases s with
    | semicolon => cases h
    | _ => rfl
  | _ => cases h

/-- The level of an expression that ends with the continuation. -/
def level : Continuation → Level
  | binary op => op.level
  | assign _ => .assignment
  | call | step _ | property | index => .suffixed

/-- The level that the expression before the continuation has to have. -/
def leftLevel : Continuation → Level
  | binary op => op.level
  | assign _ => .logical
  | call | step _ | property | index => .suffixed

end Continuation

/-! ### Levels and ranks -/

/-- The greatest rank of a continuation that can follow an expression of the level. -/
def Level.bar : Level → Nat
  | assignment => 1
  | logical => 3
  | relational => 4
  | additive => 5
  | multiplicative => 6
  | prefixed => 7
  | suffixed | primary => 10

/-- The level that is read if this is the floor. -/
def Precedence.level? : Precedence → Option Level
  | lowest | comma => some .assignment
  | assignment => some .logical
  | logical => some .relational
  | relational => some .additive
  | additive => some .multiplicative
  | multiplicative | unary => some .prefixed
  | call | member | primary => none

private theorem BinaryOp.rank_eq (op : BinaryOp) :
    (Continuation.binaryPrecedence op).rank = op.level.depth + 2 ∧ 1 ≤ op.level.depth ∧ op.level.depth ≤ 4 := by
  rcases op with op | op | _ | _ | _ | _ | _ <;> first | decide | (cases op <;> decide)

private theorem Precedence.level?_depth {floor : Precedence} {l : Level} (h : floor.level? = some l) :
    l.depth ≤ floor.rank - 1 ∧ floor.rank ≤ l.depth + 2 ∧ floor.rank ≤ 7 ∧
      (l.depth < 5 → floor.rank ≤ l.depth + 1) ∧ l.depth ≤ 5 := by
  cases floor <;> cases h <;> decide

private theorem Level.bar_le (m : Level) :
    (m.bar ≤ m.depth + 2 ∨ 6 ≤ m.depth) ∧ (2 ≤ m.bar → 1 ≤ m.depth) := by
  cases m <;> decide

namespace Continuation

variable {floor : Precedence} {l m : Level} {k : Continuation}

/-- A continuation is read at those levels that its result has. -/
theorem rank_lt_iff (h : floor.level? = some l) : floor.rank < k.precedence.rank ↔ l.depth ≤ k.level.depth := by
  have hfloor := Precedence.level?_depth h
  cases k with
  | binary op =>
    have hop := op.rank_eq
    simp only [precedence, level]
    omega
  | assign op =>
    change floor.rank < 2 ↔ l.depth ≤ 0
    omega
  | call | step _ =>
    change floor.rank < 8 ↔ l.depth ≤ 6
    omega
  | property | index =>
    change floor.rank < 9 ↔ l.depth ≤ 6
    omega

private theorem leftLevel_le (h : k.precedence.rank ≤ m.bar) : k.leftLevel.depth ≤ m.depth := by
  have hbar := m.bar_le
  cases k with
  | binary op =>
    have hop := op.rank_eq
    simp only [precedence, leftLevel] at h ⊢
    omega
  | assign op =>
    change 2 ≤ m.bar at h
    change 1 ≤ m.depth
    omega
  | call | step _ =>
    change 8 ≤ m.bar at h
    change 6 ≤ m.depth
    omega
  | property | index =>
    change 9 ≤ m.bar at h
    change 6 ≤ m.depth
    omega

end Continuation

/-- No continuation that binds tighter than `rank` starts at the cursor. -/
def Cursor.Settled (c : Cursor) (rank : Nat) : Prop :=
  ∀ k, Continuation.ofKind? c.next.kind = some k → k.precedence.rank ≤ rank

private theorem Cursor.settled_ten (c : Cursor) : c.Settled 10 := by
  intro k _
  cases k.precedence <;> decide

theorem BinaryOp.level_bar (op : BinaryOp) : op.level.bar = (Continuation.binaryPrecedence op).rank := by
  rcases op with op | op | _ | _ | _ | _ | _ <;> first | rfl | (cases op <;> rfl)

/-- The right operand of a binary operator is of the next tighter level. -/
theorem BinaryOp.level?_eq (op : BinaryOp) : (Continuation.binaryPrecedence op).level? = op.level.inner? := by
  rcases op with op | op | _ | _ | _ | _ | _ <;> first | rfl | (cases op <;> rfl)

/-! ### Heads -/

private theorem Token.denotes_of_ofNumber? {token : Token} {value : Literal} (hk : token.kind = .number)
    (h : Literal.ofNumber? token.text = some value) : token.Denotes value := by
  unfold Literal.ofNumber? at h
  split at h
  · rename_i hpoint
    obtain ⟨x, hx, rfl⟩ := Option.map_eq_some_iff.1 h
    exact .float hk (by simpa using hpoint) hx
  · rename_i hpoint
    obtain ⟨n, hn, hfits⟩ := Option.bind_eq_some_iff.1 h
    split at hfits
    · rename_i hholds
      obtain rfl := Option.some.inj hfits
      obtain ⟨-, hmax⟩ := IntType.holds_iff.1 hholds
      exact .integer hk (by simpa using hpoint) hn (Int.ofNat_le.1 hmax)
    · cases hfits

namespace Expr

theorem startsWith_buildStart {c : Cursor} :
    c.startsWith buildStart = true ↔
      c.peek 0 = .ident ∧ c.peek 1 = .symbol .lBrace ∧ c.peek 2 = .ident ∧ c.peek 3 = .symbol .colon := by
  simp [Cursor.startsWith, buildStart, List.range_succ]

variable {c c' : Cursor} {e left : Expr} {fuel : Nat}

private theorem readLiteral_sound {value : Literal} (hf : c.Fenced) (hv : c.next.Denotes value)
    (h : readLiteral value c = .done e c') : ∃ t, c.Passes t c' ∧ Derives .primary t e := by
  have hpass := hf.advance (Plain.cons.1 (Derives.literal hv).plain).1
  unfold readLiteral at h
  rw [Reader.advance_bind] at h
  obtain ⟨rfl, rfl⟩ := Reply.done.inj h
  exact ⟨[c.next], hpass, .literal hv⟩

private theorem readNumber_sound (hf : c.Fenced) (hk : c.next.kind = .number) (h : readNumber c = .done e c') :
    ∃ t, c.Passes t c' ∧ Derives .primary t e := by
  unfold readNumber at h
  rw [Reader.advance_bind] at h
  cases hvalue : Literal.ofNumber? c.next.text with
  | none =>
    rw [hvalue] at h
    cases h
  | some value =>
    rw [hvalue] at h
    obtain ⟨rfl, rfl⟩ := Reply.done.inj h
    exact ⟨[c.next], hf.advance (by rw [hk]; rfl), .literal (Token.denotes_of_ofNumber? hk hvalue)⟩

/-! ### The induction on fuel -/

/-- What the readers of expressions accept with the given fuel is derived. -/
structure Sound (fuel : Nat) : Prop where
  read : ∀ {floor : Precedence} {l : Level} {c c' : Cursor} {e : Expr}, floor.level? = some l → c.Fenced →
    read fuel floor c = .done e c' → ∃ t, c.Passes t c' ∧ Derives l t e ∧ c'.Settled floor.rank
  head : ∀ {c c' : Cursor} {e : Expr}, c.Fenced → readHead fuel c = .done e c' →
    ∃ t m, c.Passes t c' ∧ Derives m t e ∧ Level.prefixed.depth ≤ m.depth ∧ c'.Settled m.bar
  build : ∀ {name : Token} {c c' : Cursor} {e : Expr}, name.kind = .ident → c.Fenced → c.peek 1 = .ident →
    readBuild fuel name.toIdent c = .done e c' → ∃ t, c.Passes t c' ∧ Derives .primary (name :: t) e
  field : ∀ {before : List (Ident × Expr)} {c c' : Cursor} {f : Ident × Expr}, c.Fenced →
    readField fuel before c = .done f c' → f.1.name ∉ before.map (·.1.name) ∧
      ∃ item : FieldItem, c.Passes item.tokens c' ∧ item.field = f ∧ item.name.kind = .ident ∧
        item.colon.kind = .symbol .colon ∧ Derives .assignment item.value item.tree
  tail : ∀ {floor : Precedence} {l m : Level} {c c' : Cursor} {left e : Expr} {t₀ : List Token},
    floor.level? = some l → c.Fenced → Derives m t₀ left → l.depth ≤ m.depth → c.Settled m.bar →
    readTail fuel floor left c = .done e c' → ∃ t, c.Passes t c' ∧ Derives l (t₀ ++ t) e ∧ c'.Settled floor.rank
  continuation : ∀ {k : Continuation} {c c' : Cursor} {left e : Expr} {t₀ : List Token}, c.Fenced →
    Continuation.ofKind? c.next.kind = some k → Derives k.leftLevel t₀ left →
    readContinuation fuel left k c = .done e c' →
    ∃ t, c.Passes t c' ∧ Derives k.level (t₀ ++ t) e ∧ c'.Settled k.level.bar

/-- The elements of an array or the arguments of a call. -/
private theorem Sound.list (hs : Sound fuel) {closer : Symbol} {n : Nat} {es : List Expr} (hf : c.Fenced)
    (h : Reader.upTo closer (fun _ => Reader.listed closer (Expr.read fuel .comma)) n [] c = .done es c') :
    ∃ (items : List ListItem) (tokens : List Token), es = items.map (·.tree) ∧ c.Passes tokens c' ∧
      Listed (items.map (·.tokens)) tokens ∧ ∀ a ∈ items, Derives .assignment a.tokens a.tree := by
  obtain ⟨-, items, tokens, hes, hpass, hlist, hitems⟩ :=
    Reader.passes_way.upTo (fun _ => Expr.read fuel .comma) (fun _ => True) (Derives .assignment)
      (fun _ c a c' _ hf ha => by
        obtain ⟨t, hpass, hderives, -⟩ := hs.read rfl hf ha
        exact ⟨trivial, t, hpass, hderives⟩) trivial hf h
  refine ⟨items.map fun i => ⟨i.1, i.2⟩, tokens, by rw [List.map_map]; exact hes, hpass,
    by rw [List.map_map]; exact hlist, ?_⟩
  intro a ha
  obtain ⟨i, hi, rfl⟩ := List.mem_map.1 ha
  exact hitems i hi

private theorem Sound.read_succ (hs : Sound fuel) {floor : Precedence} {l : Level} (hl : floor.level? = some l)
    (hf : c.Fenced) (h : Expr.read (fuel + 1) floor c = .done e c') :
    ∃ t, c.Passes t c' ∧ Derives l t e ∧ c'.Settled floor.rank := by
  rw [Expr.read] at h
  obtain ⟨head, c₁, hhead, htail⟩ := Reader.bind_eq_done_iff.1 h
  obtain ⟨t, m, hpass, hderives, hm, hsettled⟩ := hs.head hf hhead
  -- no floor is tighter than the operand of a prefix operator
  have hle : l.depth ≤ m.depth := Nat.le_trans (by cases floor <;> cases hl <;> decide) hm
  obtain ⟨t', hpass', hderives', hsettled'⟩ := hs.tail hl (hf.passes hpass) hderives hle hsettled htail
  exact ⟨t ++ t', hpass.trans hpass', hderives', hsettled'⟩

private theorem Sound.tail_succ (hs : Sound fuel) {floor : Precedence} {l m : Level} {t₀ : List Token}
    (hl : floor.level? = some l) (hf : c.Fenced) (hleft : Derives m t₀ left) (hle : l.depth ≤ m.depth)
    (hsettled : c.Settled m.bar) (h : readTail (fuel + 1) floor left c = .done e c') :
    ∃ t, c.Passes t c' ∧ Derives l (t₀ ++ t) e ∧ c'.Settled floor.rank := by
  rw [readTail, Reader.current_bind] at h
  cases hk : Continuation.ofKind? c.next.kind with
  | none =>
    simp only [hk] at h
    obtain ⟨rfl, rfl⟩ := Reply.done.inj h
    refine ⟨[], .refl _, by simpa using hleft.loosen hle, fun k hk' => ?_⟩
    rw [hk] at hk'
    cases hk'
  | some k =>
    simp only [hk] at h
    split at h
    · rename_i hrank
      obtain ⟨longer, c₁, hlonger, hrest⟩ := Reader.bind_eq_done_iff.1 h
      -- `left` stopped before this continuation, so it is at least as tight as its left operand has to be
      have hleft' := hleft.loosen (Continuation.leftLevel_le (hsettled k hk))
      obtain ⟨t, hpass, hderives, hsettled'⟩ := hs.continuation hf hk hleft' hlonger
      have hle' := (Continuation.rank_lt_iff hl).1 hrank
      obtain ⟨t', hpass', hderives', hend⟩ := hs.tail hl (hf.passes hpass) hderives hle' hsettled' hrest
      exact ⟨t ++ t', hpass.trans hpass', by rwa [List.append_assoc] at hderives', hend⟩
    · rename_i hrank
      -- the continuation is too weak for the floor and is left to a caller
      obtain ⟨rfl, rfl⟩ := Reply.done.inj h
      refine ⟨[], .refl _, by simpa using hleft.loosen hle, fun k' hk' => ?_⟩
      obtain rfl : k = k' := Option.some.inj (hk.symm.trans hk')
      omega

private theorem Sound.field_succ (hs : Sound fuel) {before : List (Ident × Expr)} {f : Ident × Expr} (hf : c.Fenced)
    (h : readField (fuel + 1) before c = .done f c') : f.1.name ∉ before.map (·.1.name) ∧
      ∃ item : FieldItem, c.Passes item.tokens c' ∧ item.field = f ∧ item.name.kind = .ident ∧
        item.colon.kind = .symbol .colon ∧ Derives .assignment item.value item.tree := by
  rw [readField] at h
  obtain ⟨id, c₁, hid, hrest⟩ := Reader.bind_eq_done_iff.1 h
  obtain ⟨name, hname, rfl, hpass₁⟩ := Reader.ident_passes hf hid
  have hf₁ := hf.passes hpass₁
  split at hrest
  · cases hrest
  · rename_i hnew
    obtain ⟨colon, c₂, hcolon, hrest⟩ := Reader.bind_eq_done_iff.1 hrest
    obtain ⟨hcolonKind, hpass₂⟩ := Reader.expectSymbol_passes hf₁ (by decide) hcolon
    obtain ⟨value, c₃, hvalue, hpure⟩ := Reader.bind_eq_done_iff.1 hrest
    obtain ⟨t, hpass₃, hderives, -⟩ := hs.read rfl (hf₁.passes hpass₂) hvalue
    obtain ⟨rfl, rfl⟩ := Reply.done.inj hpure
    refine ⟨?_, ⟨name, colon, t, value⟩, hpass₁.trans (hpass₂.trans hpass₃), rfl, hname, hcolonKind, hderives⟩
    intro hmem
    obtain ⟨g, hg, hgname⟩ := List.mem_map.1 hmem
    exact hnew (List.any_eq_true.2 ⟨g, hg, beq_iff_eq.2 hgname⟩)

private theorem Sound.build_succ (hs : Sound fuel) {name : Token} (hname : name.kind = .ident) (hf : c.Fenced)
    (hfirst : c.peek 1 = .ident) (h : readBuild (fuel + 1) name.toIdent c = .done e c') :
    ∃ t, c.Passes t c' ∧ Derives .primary (name :: t) e := by
  rw [readBuild] at h
  obtain ⟨opening, c₁, hopening, hrest⟩ := Reader.bind_eq_done_iff.1 h
  obtain ⟨hopeningKind, hpass₁⟩ := Reader.expectSymbol_passes hf (by decide) hopening
  have hf₁ := hf.passes hpass₁
  obtain ⟨es, c₂, hes, hrest⟩ := Reader.bind_eq_done_iff.1 hrest
  obtain ⟨hdistinct, items, tokens, rfl, hpass₂, hlist, hitems⟩ :=
    Reader.passes_way.upTo (readField fuel) (fun before => (before.map (·.1.name)).Nodup)
      (fun t f => ∃ item : FieldItem, item.tokens = t ∧ item.field = f ∧ (item.name.kind = .ident ∧
        item.colon.kind = .symbol .colon) ∧ Derives .assignment item.value item.tree)
      (fun before c f c' hbefore hf ha => by
        obtain ⟨hnew, item, hpass, hfield, hident, hcolon, hvalue⟩ := hs.field hf ha
        exact ⟨List.nodup_cons.2 ⟨hnew, hbefore⟩, _, hpass, item, rfl, hfield, ⟨hident, hcolon⟩, hvalue⟩)
      (by simp) hf₁ hes
  obtain ⟨fields, htokens, hfields, hforms⟩ := exists_items FieldItem.tokens FieldItem.field
    (fun f => (f.name.kind = .ident ∧ f.colon.kind = .symbol .colon) ∧ Derives .assignment f.value f.tree) hitems
  obtain ⟨closing, hclosing, hpass₃, rfl⟩ := Reader.closing_passes (hf₁.passes hpass₂) (by decide) hrest
  -- a name was seen behind the brace, and not the closing brace
  have hsome : fields ≠ [] := by
    rintro rfl
    rw [htokens] at hlist
    cases hlist
    obtain rfl := hpass₂.unique (.refl _)
    have hnext := hpass₁.peek 0
    rw [List.length_singleton, hfirst] at hnext
    rw [← hpass₃.next_eq] at hclosing
    exact absurd (hnext.trans hclosing) (by decide)
  -- each name differs from those before it, which are kept latest first
  have hnames : (fields.map (·.name.text)).Nodup := by
    have hmap : fields.map (·.name.text) = (fields.map (·.field)).map (·.1.name) := by
      simp [FieldItem.field, Token.toIdent]
    rw [hmap, ← hfields, ← (List.reverse_perm _).nodup_iff]
    simpa using hdistinct
  refine ⟨opening :: tokens ++ [closing], hpass₁.trans (hpass₂.trans hpass₃), ?_⟩
  rw [htokens] at hlist
  have := Derives.build hname hopeningKind hlist hsome hnames (fun f hf => (hforms f hf).1)
    (fun f hf => (hforms f hf).2)
    hclosing
  rw [← hfields] at this
  exact this

/-- The head of an expression that starts with a unary operator. -/
theorem readHead_mark {op : UnaryOp} (hk : c.next.kind = .symbol op.mark) :
    readHead (fuel + 1) c = (do
      let opening ← Reader.advance
      let operand ← read fuel .unary
      return unary ⟨op, opening.span⟩ operand .before (opening.span.merge operand.span) : Reader Expr) c := by
  rw [readHead, Reader.current_bind]
  simp only [hk]
  cases op <;> rfl

private theorem Sound.mark_succ (hs : Sound fuel) {op : UnaryOp} (hf : c.Fenced) (hk : c.next.kind = .symbol op.mark)
    (h : readHead (fuel + 1) c = .done e c') :
    ∃ t, c.Passes t c' ∧ Derives .prefixed t e ∧ c'.Settled Level.prefixed.bar := by
  rw [readHead_mark hk, Reader.advance_bind] at h
  have hpass := hf.advance (by rw [hk]; cases op <;> rfl)
  obtain ⟨operand, c₁, hoperand, hpure⟩ := Reader.bind_eq_done_iff.1 h
  obtain ⟨t, hpass', hderives, hsettled⟩ := hs.read rfl (hf.passes hpass) hoperand
  obtain ⟨rfl, rfl⟩ := Reply.done.inj hpure
  exact ⟨c.next :: t, hpass.trans hpass', .before hk hderives, hsettled⟩

private theorem Sound.name_succ (hs : Sound fuel) (hf : c.Fenced) (hk : c.next.kind = .ident)
    (h : readHead (fuel + 1) c = .done e c') : ∃ t, c.Passes t c' ∧ Derives .primary t e := by
  rw [readHead, Reader.current_bind] at h
  simp only [hk, Reader.cursor_bind] at h
  obtain ⟨id, c₁, hid, hrest⟩ := Reader.bind_eq_done_iff.1 h
  obtain ⟨name, hname, rfl, hpass⟩ := Reader.ident_passes hf hid
  split at hrest
  · rename_i hstart
    obtain ⟨-, -, hfirst, -⟩ := startsWith_buildStart.1 hstart
    have hpeek := hpass.peek 1
    rw [List.length_singleton, hfirst] at hpeek
    obtain ⟨t, hpass', hderives⟩ := hs.build hname (hf.passes hpass) hpeek.symm hrest
    exact ⟨name :: t, hpass.trans hpass', hderives⟩
  · obtain ⟨rfl, rfl⟩ := Reply.done.inj hrest
    exact ⟨[name], hpass, .name hname⟩

private theorem Sound.paren_succ (hs : Sound fuel) (hf : c.Fenced) (hk : c.next.kind = .symbol .lParen)
    (h : readHead (fuel + 1) c = .done e c') : ∃ t, c.Passes t c' ∧ Derives .primary t e := by
  rw [readHead, Reader.current_bind] at h
  simp only [hk, Reader.advance_bind] at h
  have hpass := hf.advance (by rw [hk]; rfl)
  have hf₁ := hf.passes hpass
  obtain ⟨inner, c₁, hinner, hrest⟩ := Reader.bind_eq_done_iff.1 h
  obtain ⟨t, hpass₁, hderives, -⟩ := hs.read rfl hf₁ hinner
  obtain ⟨closing, hclosing, hpass₂, rfl⟩ := Reader.closing_passes (hf₁.passes hpass₁) (by decide) hrest
  exact ⟨c.next :: t ++ [closing], hpass.trans (hpass₁.trans hpass₂), .paren hk hderives hclosing⟩

private theorem Sound.array_succ (hs : Sound fuel) (hf : c.Fenced) (hk : c.next.kind = .symbol .lBracket)
    (h : readHead (fuel + 1) c = .done e c') : ∃ t, c.Passes t c' ∧ Derives .primary t e := by
  rw [readHead, Reader.current_bind] at h
  simp only [hk, Reader.advance_bind] at h
  have hpass := hf.advance (by rw [hk]; rfl)
  have hf₁ := hf.passes hpass
  obtain ⟨es, c₁, hes, hrest⟩ := Reader.bind_eq_done_iff.1 h
  obtain ⟨items, tokens, rfl, hpass₁, hlist, hitems⟩ := hs.list hf₁ hes
  obtain ⟨closing, hclosing, hpass₂, rfl⟩ := Reader.closing_passes (hf₁.passes hpass₁) (by decide) hrest
  rw [List.length_map]
  exact ⟨c.next :: tokens ++ [closing], hpass.trans (hpass₁.trans hpass₂), .array hk hlist hitems hclosing⟩

private theorem Sound.head_succ (hs : Sound fuel) (hf : c.Fenced) (h : readHead (fuel + 1) c = .done e c') :
    ∃ t m, c.Passes t c' ∧ Derives m t e ∧ Level.prefixed.depth ≤ m.depth ∧ c'.Settled m.bar := by
  -- every head but a prefixed operand is primary, and anything can follow it
  have hprimary : (∃ t, c.Passes t c' ∧ Derives .primary t e) →
      ∃ t m, c.Passes t c' ∧ Derives m t e ∧ Level.prefixed.depth ≤ m.depth ∧ c'.Settled m.bar := by
    rintro ⟨t, hpass, hderives⟩
    exact ⟨t, .primary, hpass, hderives, by decide, c'.settled_ten⟩
  cases hk : c.next.kind with
  | ident => exact hprimary (hs.name_succ hf hk h)
  | symbol s =>
    by_cases hparen : s = .lParen
    · exact hprimary (hs.paren_succ hf (hparen ▸ hk) h)
    by_cases hbracket : s = .lBracket
    · exact hprimary (hs.array_succ hf (hbracket ▸ hk) h)
    cases hop : UnaryOp.ofSymbol? s with
    | some op =>
      obtain rfl := UnaryOp.ofSymbol?_eq_some_iff.1 hop
      obtain ⟨t, hpass, hderives, hsettled⟩ := hs.mark_succ hf hk h
      exact ⟨t, .prefixed, hpass, hderives, Nat.le_refl _, hsettled⟩
    | none =>
      rw [readHead, Reader.current_bind] at h
      simp only [hk] at h
      cases s <;> contradiction
  | number =>
    rw [readHead, Reader.current_bind] at h
    simp only [hk] at h
    exact hprimary (readNumber_sound hf hk h)
  | string =>
    rw [readHead, Reader.current_bind] at h
    simp only [hk] at h
    exact hprimary (readLiteral_sound hf (.string hk) h)
  | char =>
    rw [readHead, Reader.current_bind] at h
    simp only [hk] at h
    exact hprimary (readLiteral_sound hf (.character hk) h)
  | keyword word =>
    rw [readHead, Reader.current_bind] at h
    simp only [hk] at h
    cases word with
    | trueKw => exact hprimary (readLiteral_sound hf (.isTrue hk) h)
    | falseKw => exact hprimary (readLiteral_sound hf (.isFalse hk) h)
    | nullKw => exact hprimary (readLiteral_sound hf (.null hk) h)
    | _ => cases h
  | eof =>
    rw [readHead, Reader.current_bind] at h
    simp only [hk] at h
    cases h

private theorem Sound.call_succ (hs : Sound fuel) {callee : Ident} {t₀ : List Token} (hf : c.Fenced)
    (hleft : Derives .suffixed t₀ (.ident callee))
    (h : readContinuation (fuel + 1) (.ident callee) .call c = .done e c') :
    ∃ t, c.Passes t c' ∧ Derives .suffixed (t₀ ++ t) e := by
  rw [readContinuation] at h
  obtain ⟨opening, c₁, hopening, hrest⟩ := Reader.bind_eq_done_iff.1 h
  obtain ⟨hopeningKind, hpass₁⟩ := Reader.expectSymbol_passes hf (by decide) hopening
  have hf₁ := hf.passes hpass₁
  obtain ⟨es, c₂, hes, hrest⟩ := Reader.bind_eq_done_iff.1 hrest
  obtain ⟨items, tokens, rfl, hpass₂, hlist, hitems⟩ := hs.list hf₁ hes
  obtain ⟨closing, hclosing, hpass₃, rfl⟩ := Reader.closing_passes (hf₁.passes hpass₂) (by decide) hrest
  refine ⟨opening :: tokens ++ [closing], hpass₁.trans (hpass₂.trans hpass₃), ?_⟩
  have := Derives.call hleft hopeningKind hlist hitems hclosing
  rwa [List.append_assoc] at this

private theorem Sound.index_succ (hs : Sound fuel) {base : Ident} {t₀ : List Token} (hf : c.Fenced)
    (hleft : Derives .suffixed t₀ (.ident base))
    (h : readContinuation (fuel + 1) (.ident base) .index c = .done e c') :
    ∃ t, c.Passes t c' ∧ Derives .suffixed (t₀ ++ t) e := by
  rw [readContinuation] at h
  obtain ⟨opening, c₁, hopening, hrest⟩ := Reader.bind_eq_done_iff.1 h
  obtain ⟨hopeningKind, hpass₁⟩ := Reader.expectSymbol_passes hf (by decide) hopening
  have hf₁ := hf.passes hpass₁
  obtain ⟨position, c₂, hposition, hrest⟩ := Reader.bind_eq_done_iff.1 hrest
  obtain ⟨t, hpass₂, hderives, -⟩ := hs.read rfl hf₁ hposition
  obtain ⟨closing, hclosing, hpass₃, rfl⟩ := Reader.closing_passes (hf₁.passes hpass₂) (by decide) hrest
  refine ⟨opening :: t ++ [closing], hpass₁.trans (hpass₂.trans hpass₃), ?_⟩
  have := Derives.index hleft hopeningKind hderives hclosing
  rwa [List.append_assoc] at this

/-- What each continuation adds to an expression of the level it needs. -/
private theorem Sound.continuation_succ (hs : Sound fuel) {k : Continuation} {t₀ : List Token} (hf : c.Fenced)
    (hk : Continuation.ofKind? c.next.kind = some k) (hleft : Derives k.leftLevel t₀ left)
    (h : readContinuation (fuel + 1) left k c = .done e c') :
    ∃ t, c.Passes t c' ∧ Derives k.level (t₀ ++ t) e ∧ c'.Settled k.level.bar := by
  have hpass := hf.advance (Continuation.endsExpr_of_ofKind? hk)
  have hf₁ := hf.passes hpass
  obtain ⟨s, hmark, hs'⟩ := Continuation.ofKind?_eq_some_iff.1 hk
  cases k with
  | binary op =>
    obtain rfl := Option.some.inj hs'
    rw [readContinuation, Reader.advance_bind] at h
    obtain ⟨right, c₁, hright, hpure⟩ := Reader.bind_eq_done_iff.1 h
    obtain ⟨m, hm⟩ : ∃ m, op.level.inner? = some m := op.exists_inner
    obtain ⟨t, hpass₁, hderives, hsettled⟩ := hs.read ((BinaryOp.level?_eq op).trans hm) hf₁ hright
    obtain ⟨rfl, rfl⟩ := Reply.done.inj hpure
    refine ⟨c.next :: t, hpass.trans hpass₁, .binary rfl hm hleft hmark hderives, ?_⟩
    exact (BinaryOp.level_bar op).symm ▸ hsettled
  | assign op =>
    obtain rfl := Option.some.inj hs'
    rw [readContinuation] at h
    split at h
    · rename_i hassignable
      rw [Reader.advance_bind] at h
      obtain ⟨value, c₁, hvalue, hpure⟩ := Reader.bind_eq_done_iff.1 h
      obtain ⟨t, hpass₁, hderives, hsettled⟩ := hs.read rfl hf₁ hvalue
      obtain ⟨rfl, rfl⟩ := Reply.done.inj hpure
      exact ⟨c.next :: t, hpass.trans hpass₁, .assign hleft hassignable hmark hderives, hsettled⟩
    · cases h
  | call =>
    cases left with
    | ident callee =>
      obtain ⟨t, hpass, hderives⟩ := hs.call_succ hf hleft h
      exact ⟨t, hpass, hderives, Cursor.settled_ten _⟩
    | _ =>
      rw [readContinuation] at h
      · cases h
      · nofun
  | step op =>
    rw [readContinuation, Reader.advance_bind] at h
    cases left with
    | ident id =>
      obtain ⟨rfl, rfl⟩ := Reply.done.inj h
      refine ⟨[c.next], hpass, ?_, Cursor.settled_ten _⟩
      cases op <;> cases hs'
      · exact .after hleft (.inl rfl) hmark
      · exact .after hleft (.inr rfl) hmark
    | _ => cases h
  | property =>
    rw [readContinuation] at h
    obtain ⟨dot, c₁, hdot, hrest⟩ := Reader.bind_eq_done_iff.1 h
    obtain ⟨hdotKind, hpass₁⟩ := Reader.expectSymbol_passes hf (by decide) hdot
    obtain ⟨id, c₂, hid, hpure⟩ := Reader.bind_eq_done_iff.1 hrest
    obtain ⟨name, hname, rfl, hpass₂⟩ := Reader.ident_passes (hf.passes hpass₁) hid
    obtain ⟨rfl, rfl⟩ := Reply.done.inj hpure
    exact ⟨[dot, name], hpass₁.trans hpass₂, .property hleft hdotKind hname, Cursor.settled_ten _⟩
  | index =>
    cases left with
    | ident base =>
      obtain ⟨t, hpass, hderives⟩ := hs.index_succ hf hleft h
      exact ⟨t, hpass, hderives, Cursor.settled_ten _⟩
    | _ =>
      rw [readContinuation] at h
      · cases h
      · nofun

private theorem sound (fuel : Nat) : Sound fuel := by
  induction fuel with
  | zero => constructor <;> intros <;> contradiction
  | succ fuel ih =>
    exact ⟨ih.read_succ, ih.head_succ, ih.build_succ, ih.field_succ, ih.tail_succ, ih.continuation_succ⟩

/-- An expression that is read is derived, and is as long as the floor allows. -/
theorem read_sound {floor : Precedence} {l : Level} (hl : floor.level? = some l) (hf : c.Fenced)
    (h : read fuel floor c = .done e c') : ∃ t, c.Passes t c' ∧ Derives l t e ∧ c'.Settled floor.rank :=
  (sound fuel).read hl hf h

end Expr

end BraceScript
