import BraceScript.Proofs.StatementCompleteness

/-!
# Conditions in front of blocks

A name is the name of a struct literal if a brace, a name and a colon follow it, and this is decided without knowing
whether the brace could also open the body of a loop.  It never does harm: no statement starts with a name and a
colon, so in front of a block every name is a plain one (`EndsExpr.not_startsFields`), and a condition that can be
read in front of a semicolon is read in front of a block as well (`Stmt.condition_leaves_block`).
-/

namespace BraceScript

open Reader

/-- Tokens that are read as an expression in front of a semicolon form this expression. -/
private theorem Expr.derives_of_read {c c' : Cursor} {t : List Token} {e : Expr} {floor : Precedence} {l : Level}
    {fuel : Nat} (hl : floor.level? = some l) (hread : read fuel floor c = .done e c')
    (hc : c.tokens = t ++ c'.tokens) (hsemicolon : c'.next.kind = .symbol .semicolon) : Derives l t e := by
  have hmem : c'.next ∈ c.tokens := by
    rw [hc]
    exact List.mem_append_right _ List.mem_cons_self
  have hfenced : c.Fenced := ⟨c'.next, hmem, by rw [hsemicolon]; rfl⟩
  obtain ⟨t', hpass, hderives, -⟩ := read_sound hl hfenced hread
  obtain rfl : t' = t := List.append_cancel_right (hpass.tokens.symm.trans hc)
  exact hderives

/-- Tokens that are read as a block form this block. -/
private theorem Block.forms_of_read {c c' : Cursor} {t : List Token} {b : Block} {fuel : Nat}
    (hread : read fuel c = .done b c') (hc : c.tokens = t ++ c'.tokens) (hended : c.Ended) : Forms t (.block b) := by
  obtain ⟨t', hmoves, hforms⟩ := (Stmt.finders fuel).block hended hread
  obtain rfl : t' = t := List.append_cancel_right (hmoves.tokens.symm.trans hc)
  exact hforms

/-- In front of anything that ends an expression, a name is a plain name. -/
private theorem Expr.takes_name {name : Token} {rest : List Token} (hk : name.kind = .ident) (hrest : EndsExpr rest)
    (fuel : Nat) : (readHead (fuel + 1)).Takes [name] rest (.ident name.toIdent) := by
  intro hne c hc
  obtain ⟨c', hpass, rfl⟩ := Cursor.exists_passes hc (by simp [hk, Kind.endsExpr]) hne
  exact ⟨c', readHead_of_name hpass hk hrest.not_startsFields, rfl⟩

/-- Let the tokens `t` be read as the condition `e` in front of a semicolon, and the tokens `u` as the block `b`.
Then `while`, `if` and `foreach` with the tokens `t` and `u` in a row are read with the condition `e` and the body
`b`, given sixteen units of fuel for each token and whatever follows them, for an `if` anything that does not go on
with it.  It does not matter whether `t` ends in a name: a name right in front of the block is read as a plain
name. -/
theorem Stmt.condition_leaves_block {c c' d d' : Cursor} {t u : List Token} {e : Expr} {b : Block} {m n : Nat}
    (hcondition : Expr.read m .assignment c = .done e c') (ht : c.tokens = t ++ c'.tokens)
    (hsemicolon : c'.next.kind = .symbol .semicolon) (hblock : Block.read n d = .done b d')
    (hu : d.tokens = u ++ d'.tokens) (hended : d.Ended) :
    ∀ {opening : Token} {rest : List Token} {nested : Bool} {fuel : Nat},
      (opening.kind = .keyword .whileKw → 16 * (t.length + u.length + 1) ≤ fuel →
        (Stmt.read fuel nested).Takes (opening :: (t ++ u)) rest (.whileLoop e b (opening.span.merge b.span))) ∧
      (opening.kind = .keyword .ifKw → NoElse rest → 16 * (t.length + u.length + 1) ≤ fuel →
        (Stmt.read fuel nested).Takes (opening :: (t ++ u)) rest
          (.branch ⟨e, b, .nothing, opening.span.merge b.span⟩)) ∧
      (∀ value word : Token, opening.kind = .keyword .foreachKw → value.kind = .ident → word.kind = .keyword .inKw →
        16 * (t.length + u.length + 3) ≤ fuel →
        (Stmt.read fuel nested).Takes (opening :: value :: word :: (t ++ u)) rest
          (.foreach value.toIdent none e b (opening.span.merge b.span))) ∧
      ∀ name : Token, name.kind = .ident →
        (Expr.readHead (fuel + 1)).Takes [name] (u ++ rest) (.ident name.toIdent) := by
  intro opening rest nested fuel
  have hderives : Derives .logical t e := Expr.derives_of_read rfl hcondition ht hsemicolon
  have hforms := Block.forms_of_read hblock hu hended
  refine ⟨fun hopening hfuel => ?_, fun hopening hrest hfuel => ?_, fun value word hopening hvalue hword hfuel => ?_,
    fun name hname => ?_⟩
  · exact Phrase.Taken.takes_whileLoop hopening hderives hforms hforms.taken hfuel rest
  · have hif : Forms (opening :: (t ++ (u ++ [])))
        (.statement nested (.branch ⟨e, b, .nothing, opening.span.merge b.span⟩)) :=
      .branch hopening (.conditional (.inl hopening) hderives hforms .nothing)
    rw [List.append_nil] at hif
    exact hif.taken (by rwa [List.length_cons, List.length_append]) hrest
  · exact Phrase.Taken.takes_foreach hopening hvalue .nothing hword hderives hforms hforms.taken
      (by rwa [List.length_nil, Nat.zero_add]) rest
  · exact Expr.takes_name hname (hforms.endsExpr rest) fuel

/-- A token without a place. -/
private def unplaced (kind : Kind) (text : String) : Token := ⟨kind, text, default⟩

/-- The tokens of `a && q`. -/
private def conjunctionTokens : List Token :=
  [unplaced .ident "a", unplaced (.symbol .and) "&&", unplaced .ident "q"]

/-- The tokens of `{ r = 1; }`, a block that starts with a name. -/
private def updateTokens : List Token :=
  [unplaced (.symbol .lBrace) "\x7b", unplaced .ident "r", unplaced (.symbol .assign) "=", unplaced .number "1",
    unplaced (.symbol .semicolon) ";", unplaced (.symbol .rBrace) "\x7d"]

/-- The tokens of `while a && q { r = 1; }`. -/
private def loopTokens : List Token := unplaced (.keyword .whileKw) "while" :: (conjunctionTokens ++ updateTokens)

/-- The name `q` right in front of the block belongs to the condition. -/
theorem Stmt.condition_leaves_block_name :
    ∃ e b c' d' stop,
      Expr.read 64 .assignment
        (.ofTokens (conjunctionTokens ++ [unplaced (.symbol .semicolon) ";", unplaced .eof ""])) =
        .done e c' ∧ c'.next.kind = .symbol .semicolon ∧
      Block.read 112 (.ofTokens (updateTokens ++ [unplaced .eof ""])) = .done b d' ∧ d'.next.kind = .eof ∧
      Stmt.read 160 false (.ofTokens (loopTokens ++ [unplaced .eof ""])) =
        .done (.whileLoop e b (Span.merge default b.span)) stop ∧ stop.next.kind = .eof := by
  obtain ⟨e, c', hcondition, ht, hsemicolon⟩ : ∃ e c',
      Expr.read 64 .assignment
        (.ofTokens (conjunctionTokens ++ [unplaced (.symbol .semicolon) ";", unplaced .eof ""])) =
        .done e c' ∧ conjunctionTokens ++ [unplaced (.symbol .semicolon) ";", unplaced .eof ""] =
        conjunctionTokens ++ c'.tokens ∧ c'.next.kind = .symbol .semicolon := ⟨_, _, rfl, rfl, rfl⟩
  obtain ⟨b, d', hblock, hu, hend⟩ :
      ∃ b d', Block.read 112 (.ofTokens (updateTokens ++ [unplaced .eof ""])) = .done b d' ∧
      updateTokens ++ [unplaced .eof ""] = updateTokens ++ d'.tokens ∧ d'.next.kind = .eof := ⟨_, _, rfl, rfl, rfl⟩
  have hended : (Cursor.ofTokens (updateTokens ++ [unplaced .eof ""])).Ended :=
    ⟨unplaced .eof "", List.mem_append_right updateTokens (List.mem_singleton_self _), rfl⟩
  have hfuel : 16 * (conjunctionTokens.length + updateTokens.length + 1) ≤ 160 := by decide
  have hloop : (Stmt.read 160 false).Takes loopTokens [unplaced .eof ""] _ :=
    (Stmt.condition_leaves_block hcondition ht hsemicolon hblock hu hended).1 rfl hfuel
  obtain ⟨stop, hread, hstop⟩ :=
    hloop (List.cons_ne_nil _ _) (Cursor.tokens_ofTokens (loopTokens ++ _) (by simp [loopTokens]))
  exact ⟨e, b, c', d', stop, hcondition, hsemicolon, hblock, hend, hread, by rw [(List.cons.inj hstop).1]; rfl⟩

end BraceScript
