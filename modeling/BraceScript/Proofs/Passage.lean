import BraceScript.Proofs.Grammar

/-!
# Passing tokens

`c.Passes t c'` says that `c'` is the cursor after the tokens `t` of `c`.  For each reader from which the reader of
expressions is made there are two lemmas: what it passed if it succeeds (`Reader.expect_passes`, `Reader.Way.upTo`),
and that it succeeds if the tokens are there (`Reader.expect_of_passes`, `Reader.upTo_of_passes`).

A cursor moves past a token only if another one follows.  So reading is described at cursors that have a token ahead
which no expression goes past (`Cursor.Fenced`).
-/

namespace BraceScript

namespace Cursor

/-- The cursor `c'` stands behind the tokens `t` of `c`, and none of these ends an expression. -/
structure Passes (c : Cursor) (t : List Token) (c' : Cursor) : Prop where
  tokens : c.next :: c.rest = t ++ c'.next :: c'.rest
  last : c'.last = (t.getLast?.map Token.span).or c.last
  warnings : c'.warnings = c.warnings
  plain : Plain t

/-- Some token from the next one on ends every expression. -/
def Fenced (c : Cursor) : Prop := ∃ token ∈ c.next :: c.rest, token.kind.endsExpr = true

variable {c c₁ c₂ c' : Cursor} {t u : List Token} {token : Token}

theorem tokens_ofTokens (tokens : List Token) (h : tokens ≠ []) :
    (ofTokens tokens).next :: (ofTokens tokens).rest = tokens := by
  cases tokens with
  | nil => contradiction
  | cons token tokens => rfl

theorem advance_of_ne_eof {next next' : Token} {rest : List Token} (last : Option Span)
    (warnings : List SyntaxWarning) (hne : next.kind ≠ .eof) :
    advance ⟨next, next' :: rest, last, warnings⟩ = ⟨next', rest, some next.span, warnings⟩ := by
  unfold advance
  cases hk : next.kind with
  | eof => exact absurd hk hne
  | _ => rfl

namespace Passes

theorem refl (c : Cursor) : c.Passes [] c := ⟨rfl, rfl, rfl, Plain.nil⟩

theorem trans (h₁ : c.Passes t c₁) (h₂ : c₁.Passes u c₂) : c.Passes (t ++ u) c₂ where
  tokens := by rw [h₁.tokens, h₂.tokens, List.append_assoc]
  last := by
    rw [h₂.last, h₁.last, List.getLast?_append]
    cases u.getLast? <;> rfl
  warnings := h₂.warnings.trans h₁.warnings
  plain := Plain.append.2 ⟨h₁.plain, h₂.plain⟩

/-- The cursor behind given tokens is determined. -/
theorem unique (h₁ : c.Passes t c₁) (h₂ : c.Passes t c₂) : c₁ = c₂ := by
  have htokens := List.append_cancel_left (h₁.tokens.symm.trans h₂.tokens)
  obtain ⟨next₁, rest₁, last₁, warnings₁⟩ := c₁
  obtain ⟨next₂, rest₂, last₂, warnings₂⟩ := c₂
  obtain ⟨rfl, rfl⟩ := List.cons.inj htokens
  obtain rfl : last₁ = last₂ := h₁.last.trans h₂.last.symm
  obtain rfl : warnings₁ = warnings₂ := h₁.warnings.trans h₂.warnings.symm
  rfl

/-- A passage over two stretches goes through a cursor between them. -/
theorem split (h : c.Passes (t ++ u) c₂) : ∃ c₁, c.Passes t c₁ ∧ c₁.Passes u c₂ := by
  obtain ⟨ht, hu⟩ := Plain.append.1 h.plain
  obtain ⟨next, rest, hrest⟩ : ∃ next rest, u ++ c₂.next :: c₂.rest = next :: rest := by
    cases u with
    | nil => exact ⟨_, _, rfl⟩
    | cons a u => exact ⟨_, _, rfl⟩
  refine ⟨⟨next, rest, (t.getLast?.map Token.span).or c.last, c.warnings⟩, ⟨?_, rfl, rfl, ht⟩,
    ⟨hrest.symm, ?_, ?_, hu⟩⟩
  · rw [h.tokens, List.append_assoc, hrest]
  · rw [h.last, List.getLast?_append]
    cases u.getLast? <;> rfl
  · exact h.warnings

theorem cons (h : c.Passes (token :: t) c₂) : ∃ c₁, c.Passes [token] c₁ ∧ c₁.Passes t c₂ := split (t := [token]) h

theorem next_eq (h : c.Passes (token :: t) c') : c.next = token := (List.cons.inj h.tokens).1

private theorem ne_eof (h : c.Passes (token :: t) c') : token.kind ≠ .eof := by
  intro heof
  have := (Plain.cons.1 h.plain).1
  rw [heof] at this
  cases this

/-- Passing a single token is what `Cursor.advance` does. -/
theorem advance_eq (h : c.Passes [token] c') : c.advance = c' := by
  have hne := h.ne_eof
  obtain ⟨next, rest, last, warnings⟩ := c
  obtain rfl : next = token := h.next_eq
  obtain rfl : rest = c'.next :: c'.rest := (List.cons.inj h.tokens).2
  have hlast : c'.last = some next.span := h.last
  have hwarnings : c'.warnings = warnings := h.warnings
  rw [advance_of_ne_eof last warnings hne, ← hlast, ← hwarnings]

end Passes

theorem peek_eq (c : Cursor) (n : Nat) : c.peek n = (((c.next :: c.rest)[n]?).map Token.kind).getD .eof := by
  cases n <;> rfl

theorem Passes.peek (h : c.Passes t c') (n : Nat) : c.peek (t.length + n) = c'.peek n := by
  rw [peek_eq, peek_eq, h.tokens, List.getElem?_append_right (Nat.le_add_right _ _), Nat.add_sub_cancel_left]

theorem Fenced.passes (hf : c.Fenced) (h : c.Passes t c') : c'.Fenced := by
  obtain ⟨token, hmem, hends⟩ := hf
  rw [h.tokens] at hmem
  rcases List.mem_append.1 hmem with hmem | hmem
  · rw [h.plain token hmem] at hends
    cases hends
  · exact ⟨token, hmem, hends⟩

/-- A token that does not end an expression can be passed. -/
theorem Fenced.advance (hf : c.Fenced) (hnext : c.next.kind.endsExpr = false) : c.Passes [c.next] c.advance := by
  obtain ⟨next, rest, last, warnings⟩ := c
  obtain ⟨token, hmem, hends⟩ := hf
  have hne : next.kind ≠ .eof := by
    intro heof
    rw [heof] at hnext
    cases hnext
  cases rest with
  | nil =>
    obtain rfl : token = next := by simpa using hmem
    rw [hnext] at hends
    cases hends
  | cons next' rest =>
    rw [advance_of_ne_eof last warnings hne]
    exact ⟨rfl, rfl, rfl, by simpa using hnext⟩

end Cursor

namespace Reader

variable {α : Type} {c c' : Cursor} {t : List Token} {token : Token} {kind : Kind}

/-! ### Single tokens -/

@[simp] theorem current_bind (f : Token → Reader α) (c : Cursor) : (current >>= f) c = f c.next c := rfl

@[simp] theorem cursor_bind (f : Cursor → Reader α) (c : Cursor) : (cursor >>= f) c = f c c := rfl

@[simp] theorem advance_bind (f : Token → Reader α) (c : Cursor) : (advance >>= f) c = f c.next c.advance := rfl

@[simp] theorem at?_bind (kind : Kind) (f : Bool → Reader α) (c : Cursor) :
    (at? kind >>= f) c = f (c.next.kind == kind) c := rfl

theorem expect_passes (hf : c.Fenced) (hk : kind.endsExpr = false) (h : expect kind c = .done token c') :
    token.kind = kind ∧ c.Passes [token] c' := by
  unfold expect at h
  split at h
  · rename_i hnext
    obtain ⟨rfl, rfl⟩ := Reply.done.inj h
    exact ⟨hnext, hf.advance (by rw [hnext]; exact hk)⟩
  · cases h

theorem expect_of_passes (h : c.Passes [token] c') (hk : token.kind = kind) : expect kind c = .done token c' := by
  unfold expect
  rw [h.next_eq, h.advance_eq, if_pos hk]

theorem expectSymbol_passes {s : Symbol} (hf : c.Fenced) (hs : s ≠ .semicolon)
    (h : expectSymbol s c = .done token c') : token.kind = .symbol s ∧ c.Passes [token] c' := by
  apply expect_passes hf _ h
  cases s with
  | semicolon => exact absurd rfl hs
  | _ => rfl

/-- A reader that ends with a closing symbol. -/
theorem closing_passes {s : Symbol} {f : Token → α} {a : α} (hf : c.Fenced) (hs : s ≠ .semicolon)
    (h : (do let closing ← expectSymbol s; return f closing : Reader α) c = .done a c') :
    ∃ closing, closing.kind = .symbol s ∧ c.Passes [closing] c' ∧ a = f closing := by
  obtain ⟨closing, c₁, hclosing, hpure⟩ := bind_eq_done_iff.1 h
  obtain ⟨hk, hpass⟩ := expectSymbol_passes hf hs hclosing
  obtain ⟨rfl, rfl⟩ := Reply.done.inj hpure
  exact ⟨closing, hk, hpass, rfl⟩

theorem expectSymbol_of_passes {s : Symbol} (h : c.Passes [token] c') (hs : token.kind = .symbol s) :
    expectSymbol s c = .done token c' := expect_of_passes h hs

theorem ident_passes {id : Ident} (hf : c.Fenced) (h : ident c = .done id c') :
    ∃ token, token.kind = .ident ∧ id = token.toIdent ∧ c.Passes [token] c' := by
  obtain ⟨token, c₁, htoken, hid⟩ := bind_eq_done_iff.1 h
  obtain ⟨hk, hpass⟩ := expect_passes hf rfl htoken
  obtain ⟨rfl, rfl⟩ := Reply.done.inj hid
  exact ⟨token, hk, rfl, hpass⟩

theorem ident_of_passes (h : c.Passes [token] c') (hk : token.kind = .ident) : ident c = .done token.toIdent c' := by
  unfold ident
  rw [bind_of_done (expect_of_passes h hk)]
  rfl

/-! ### Lists -/

/-- A way `M` past tokens, from cursors that are ready for reading to others that are. -/
structure Way (Ready : Cursor → Prop) (M : Cursor → List Token → Cursor → Prop) : Prop where
  refl : ∀ c, M c [] c
  trans : ∀ {c c₁ c₂ t u}, M c t c₁ → M c₁ u c₂ → M c (t ++ u) c₂
  ready : ∀ {c c' t}, Ready c → M c t c' → Ready c'
  comma : ∀ {c c' token}, Ready c → expectSymbol .comma c = .done token c' →
    token.kind = .symbol .comma ∧ M c [token] c'

theorem passes_way : Way Cursor.Fenced Cursor.Passes :=
  ⟨.refl, .trans, .passes, fun hf h => expectSymbol_passes hf (by decide) h⟩

section Lists

variable {closer : Symbol} {a : α} {Ready : Cursor → Prop} {M : Cursor → List Token → Cursor → Prop}

/-- An item of a list ends right before the closing symbol or with a comma. -/
private theorem Way.listed (way : Way Ready M) {item : Reader α} {R : List Token → Prop} (hf : Ready c)
    (hitem : ∀ c₁, item c = .done a c₁ → ∃ t, M c t c₁ ∧ R t) (h : Reader.listed closer item c = .done a c') :
    ∃ t, R t ∧ (M c t c' ∧ c'.next.kind = .symbol closer ∨ ∃ comma, comma.kind = .symbol .comma ∧
    M c (t ++ [comma]) c') := by
  obtain ⟨a', c₁, ha, hrest⟩ := bind_eq_done_iff.1 h
  rw [at?_bind] at hrest
  split at hrest
  · rename_i hcloser
    obtain ⟨rfl, rfl⟩ := Reply.done.inj hrest
    obtain ⟨t, hpass, hR⟩ := hitem _ ha
    exact ⟨t, hR, .inl ⟨hpass, eq_of_beq hcloser⟩⟩
  · obtain ⟨comma, c₂, hcomma, hpure⟩ := bind_eq_done_iff.1 hrest
    obtain ⟨rfl, rfl⟩ := Reply.done.inj hpure
    obtain ⟨t, hpass, hR⟩ := hitem _ ha
    obtain ⟨hk, hpass'⟩ := way.comma (way.ready hf hpass) hcomma
    exact ⟨t, hR, .inr ⟨comma, hk, way.trans hpass hpass'⟩⟩

/-- At the closing symbol a list ends. -/
private theorem upTo_closer {item : List α → Reader α} {before as : List α} {fuel : Nat}
    (hc : c.next.kind = .symbol closer) (h : upTo closer item fuel before c = .done as c') :
    as = before.reverse ∧ c' = c := by
  cases fuel with
  | zero => cases h
  | succ fuel =>
    rw [upTo, current_bind, if_pos (.inl hc)] at h
    obtain ⟨rfl, rfl⟩ := Reply.done.inj h
    exact ⟨rfl, rfl⟩

/-- What a list has passed.  `Good` is an invariant of the items read so far, latest first. -/
theorem Way.upTo (way : Way Ready M) (item : List α → Reader α) (Good : List α → Prop) (R : List Token → α → Prop)
    (hitem : ∀ before c a c', Good before → Ready c → item before c = .done a c' →
      Good (a :: before) ∧ ∃ t, M c t c' ∧ R t a)
    {before as : List α} {fuel : Nat} (hbefore : Good before) (hf : Ready c)
    (h : Reader.upTo closer (fun before => Reader.listed closer (item before)) fuel before c = .done as c') :
    Good as.reverse ∧ ∃ (items : List (List Token × α)) (tokens : List Token),
      as = before.reverse ++ items.map (·.2) ∧ M c tokens c' ∧ Listed (items.map (·.1)) tokens ∧
        ∀ i ∈ items, R i.1 i.2 := by
  induction fuel generalizing before c with
  | zero => cases h
  | succ fuel ih =>
    rw [Reader.upTo, current_bind] at h
    split at h
    · obtain ⟨rfl, rfl⟩ := Reply.done.inj h
      exact ⟨by simpa using hbefore, [], [], by simp, way.refl _, .nil, by simp⟩
    · obtain ⟨a, c₁, ha, hrest⟩ := bind_eq_done_iff.1 h
      obtain ⟨t, ⟨hgood, hR⟩, hend⟩ := way.listed (R := fun t => Good (a :: before) ∧ R t a) hf
        (fun c₂ hc₂ => by
          obtain ⟨hgood, t, hpass, hR⟩ := hitem before c a c₂ hbefore hf hc₂
          exact ⟨t, hpass, hgood, hR⟩) ha
      rcases hend with ⟨hpass, hcloser⟩ | ⟨comma, hcomma, hpass⟩
      · obtain ⟨rfl, rfl⟩ := upTo_closer hcloser hrest
        exact ⟨by simpa using hgood, [(t, a)], t, by simp, hpass, .last t, by simpa using hR⟩
      · obtain ⟨hgood', items, tokens, rfl, hpass', hlist, hitems⟩ := ih hgood (way.ready hf hpass) hrest
        refine ⟨hgood', (t, a) :: items, t ++ comma :: tokens, by simp, ?_, .cons t hcomma hlist, ?_⟩
        · have := way.trans hpass hpass'
          rwa [List.append_assoc] at this
        · intro i hi
          rcases List.mem_cons.1 hi with rfl | hi
          · exact hR
          · exact hitems i hi

private theorem listed_of_done {item : Reader α} (hitem : item c = .done a c')
    (hend : c'.next.kind = .symbol closer) : listed closer item c = .done a c' := by
  unfold listed
  rw [bind_of_done hitem, at?_bind, if_pos (by rw [hend]; exact beq_self_eq_true _)]
  rfl

private theorem listed_of_comma {item : Reader α} {c₁ : Cursor} (hitem : item c = .done a c₁)
    (hcomma : token.kind = .symbol .comma) (hpass : c₁.Passes [token] c') (hne : closer ≠ .comma) :
    listed closer item c = .done a c' := by
  have hcloser : ¬ (c₁.next.kind == .symbol closer) = true := by
    rw [hpass.next_eq, hcomma]
    simpa using Ne.symm hne
  unfold listed
  rw [bind_of_done hitem, at?_bind, if_neg hcloser, bind_of_done (expectSymbol_of_passes hpass hcomma)]
  rfl

/-- A list is read if each of its items is.  `Ready before items` says that `items` can follow the items `before`,
latest first. -/
theorem upTo_of_passes (item : List α → Reader α) (Ready : List α → List (List Token × α) → Prop)
    (hnext : ∀ before i items, Ready before (i :: items) → Ready (i.2 :: before) items)
    (hitem : ∀ before i items c c', Ready before (i :: items) → c.Passes i.1 c' →
      c'.next.kind = .symbol .comma ∨ c'.next.kind = .symbol closer →
      (∃ token rest, i.1 = token :: rest ∧ token.kind ≠ .symbol closer) ∧ item before c = .done i.2 c')
    (hne : closer ≠ .comma) {items : List (List Token × α)} {before : List α} {tokens : List Token} {fuel : Nat}
    (hready : Ready before items) (hlist : Listed (items.map (·.1)) tokens) (hpass : c.Passes tokens c')
    (hend : c'.next.kind = .symbol closer) (hfuel : items.length < fuel) :
    upTo closer (fun before => listed closer (item before)) fuel before c =
      .done (before.reverse ++ items.map (·.2)) c' := by
  induction items generalizing before tokens c fuel with
  | nil =>
    obtain ⟨fuel, rfl⟩ : ∃ f, fuel = f + 1 := ⟨fuel - 1, by omega⟩
    cases hlist
    obtain rfl := hpass.unique (.refl c)
    rw [upTo, current_bind, if_pos (.inl hend)]
    simp
  | cons i items ih =>
    obtain ⟨fuel, rfl⟩ : ∃ f, fuel = f + 1 := ⟨fuel - 1, by simp at hfuel; omega⟩
    have hrest := hnext before i items hready
    have hfuel' : items.length < fuel := by simpa using hfuel
    -- the cursor behind the item, and behind the comma if there is one
    obtain ⟨c₁, c₂, tokens', hpass₁, hafter, hlisted, hlist', hpass₂⟩ : ∃ c₁ c₂ tokens', c.Passes i.1 c₁ ∧
        (c₁.next.kind = .symbol .comma ∨ c₁.next.kind = .symbol closer) ∧
        (item before c = .done i.2 c₁ → listed closer (item before) c = .done i.2 c₂) ∧
        Listed (items.map (·.1)) tokens' ∧ c₂.Passes tokens' c' := by
      rw [List.map_cons] at hlist
      generalize hmap : items.map (·.1) = rest at hlist ⊢
      cases hlist with
      | last => exact ⟨c', c', [], hpass, .inr hend, (listed_of_done · hend), .nil, .refl c'⟩
      | cons _ hcomma hlist =>
        obtain ⟨c₁, h₁, h₂⟩ := hpass.split
        obtain ⟨c₂, hcommaPass, h₃⟩ := h₂.cons
        exact ⟨c₁, c₂, _, h₁, .inl (by rw [hcommaPass.next_eq, hcomma]),
          (listed_of_comma · hcomma hcommaPass hne), hlist, h₃⟩
    obtain ⟨⟨token, rest, hstart, hcloser⟩, hread⟩ := hitem before i items c c₁ hready hpass₁ hafter
    rw [hstart] at hpass₁
    have hgo : ¬ (c.next.kind = .symbol closer ∨ c.next.kind = .eof) := by
      rw [hpass₁.next_eq]
      exact fun h => h.elim hcloser hpass₁.ne_eof
    rw [upTo, current_bind, if_neg hgo, bind_of_done (hlisted hread), ih hrest hlist' hpass₂ hfuel']
    simp

end Lists

end Reader

/-- Items that are found one by one make a list of items. -/
theorem exists_items {α ι : Type} (f : ι → List Token) (g : ι → α) (P : ι → Prop) {items : List (List Token × α)}
    (h : ∀ i ∈ items, ∃ x, f x = i.1 ∧ g x = i.2 ∧ P x) :
    ∃ xs : List ι, items.map (·.1) = xs.map f ∧ items.map (·.2) = xs.map g ∧ ∀ x ∈ xs, P x := by
  induction items with
  | nil => exact ⟨[], rfl, rfl, by simp⟩
  | cons i items ih =>
    obtain ⟨hi, hitems⟩ := List.forall_mem_cons.1 h
    obtain ⟨x, hf, hg, hx⟩ := hi
    obtain ⟨xs, hfs, hgs, hxs⟩ := ih hitems
    exact ⟨x :: xs, by simp [hf, hfs], by simp [hg, hgs], List.forall_mem_cons.2 ⟨hx, hxs⟩⟩

end BraceScript
