import BraceScript.Proofs.Printing
import BraceScript.Proofs.StatementCompleteness
import BraceScript.Proofs.Statements

/-!
# Reading the text of an expression

An expression that was read from a text is read again from its own text (`Program.parse_text`).  The text is cut into
tokens from which the grammar derives the expression (`Legible.printed`), and a program that consists of the tokens
of an expression and a semicolon is read as this expression (`Program.ofTokens_of_derives`).
-/

namespace BraceScript

/-! ### Programs of one expression -/

namespace Program

variable {t : List Token} {e : Expr} {semicolon eof : Token}

/-- The tokens of an expression, a semicolon and the end of the text are read as a single statement. -/
private theorem readDraft_of_derives (h : Derives .assignment t e) (hsemicolon : semicolon.kind = .symbol .semicolon)
    (heof : eof.kind = .eof) {F : Nat} (hF : 1 + 16 * t.length ≤ F) (draft : Draft) :
    ∃ stop : Cursor, readDraft (F + 2) draft (.ofTokens (t ++ [semicolon, eof])) =
      .done (draft.add (.expression e (e.span.merge semicolon.span))) stop ∧ stop.warnings = [] := by
  have hforms :
      BraceScript.Forms (t ++ [semicolon]) (.statement false (.expression e (e.span.merge semicolon.span))) :=
    .expression h hsemicolon
  have htokens : (Cursor.ofTokens (t ++ [semicolon, eof])).tokens = t ++ [semicolon] ++ [eof] := by
    rw [List.append_assoc]
    exact Cursor.tokens_ofTokens _ (by simp)
  obtain ⟨hne, hmodule⟩ := atModule_of_forms hforms htokens
  obtain ⟨first, rest, rfl, hstarts⟩ := h.starts
  have hpass : Cursor.Passes (.ofTokens (first :: rest ++ [semicolon, eof])) (first :: rest)
      ⟨semicolon, [eof], (first :: rest).getLast?.map Token.span, []⟩ := by
    refine ⟨rfl, ?_, rfl, h.plain⟩
    exact Option.or_none.symm
  have hread : Expr.read F .lowest _ = .done e _ :=
    h.reads.done_before rfl hpass hsemicolon rfl hF
  have hexpect : Reader.expectSymbol .semicolon ⟨semicolon, [eof], (first :: rest).getLast?.map Token.span, []⟩ =
      .done semicolon ⟨eof, [], some semicolon.span, []⟩ := by
    rw [Reader.expectSymbol, Reader.expect, if_pos hsemicolon,
      Cursor.advance_of_ne_eof _ _ (by simp [hsemicolon])]
  have hstmt : Stmt.read (F + 1) false (.ofTokens (first :: rest ++ [semicolon, eof])) =
      .done (.expression e (e.span.merge semicolon.span)) ⟨eof, [], some semicolon.span, []⟩ := by
    rw [Stmt.read_of_startsExpr hstarts, Stmt.readExpression, Reader.bind_of_done hread, Reader.bind_of_done hexpect]
    rfl
  refine ⟨⟨eof, [], some semicolon.span, []⟩, ?_, rfl⟩
  rw [readDraft, Reader.cursor_bind, if_neg hne, if_neg hmodule, Reader.bind_of_done hstmt, readDraft,
    Reader.cursor_bind, if_pos heof]
  rfl

theorem ofTokens_of_derives (h : Derives .assignment t e) (hsemicolon : semicolon.kind = .symbol .semicolon)
    (heof : eof.kind = .eof) (file : String) :
    ∃ span span', ofTokens (t ++ [semicolon, eof]) file = .ok {
      program := {
        moduleName := Path.stem file
        imports := []
        contents := [.expression e span]
        span := span' }
      warnings := [] } := by
  -- one unit of fuel for the statement and one for the draft; the rest is for the expression
  have hfuel : fuelFor (t ++ [semicolon, eof]).length = (16 * t.length + 46) + 2 := by
    simp only [fuelFor, List.length_append, List.length_cons, List.length_nil]
    omega
  obtain ⟨stop, hdraft, hwarnings⟩ :=
    readDraft_of_derives h hsemicolon heof (F := 16 * t.length + 46) (by omega) ⟨none, [], []⟩
  let start := Cursor.ofTokens (t ++ [semicolon, eof])
  have hread : read (fuelFor (t ++ [semicolon, eof]).length) file start = .done {
      moduleName := Path.stem file
      imports := []
      contents := [.expression e (e.span.merge semicolon.span)]
      span := start.next.span.merge stop.lastSpan } stop := by
    rw [hfuel, read, Reader.current_bind, Reader.bind_of_done hdraft]
    rfl
  refine ⟨e.span.merge semicolon.span, start.next.span.merge stop.lastSpan, ?_⟩
  unfold ofTokens
  rw [hread]
  simp [hwarnings]

end Program

/-! ### Texts of one expression -/

/-- The tokens of a legible expression with a semicolon behind it. -/
private theorem Legible.tokenize {e : Expr} (h : Legible e) :
    ∃ (t : List Token) (semicolon eof : Token), Token.tokenize (e.text ++ ";") = .ok (t ++ [semicolon, eof]) ∧
      Spells e t ∧ semicolon.kind = .symbol .semicolon ∧ eof.kind = .eof := by
  have hends : Ends (Symbol.semicolon.text.toList ++ []) := .cons rfl (by decide)
  have hcuts := (h.printed _ hends).append (Token.cuts_symbol .semicolon fun _ _ => rfl)
  obtain ⟨stop, _, hscan, t, _, rfl, hspells, hsemicolon⟩ := hcuts .start []
  obtain ⟨semicolon, rfl, hsemicolon, -⟩ := hsemicolon.kind
  have hsource :
      (e.text ++ ";").toList = e.text.toList ++ Symbol.semicolon.text.toList ++ [] := by simp [Symbol.text]
  have htokenize : Token.tokenize (e.text ++ ";") = .ok (t ++ [semicolon, Token.eofAt stop]) := by
    rw [Token.tokenize, Token.scan, hsource, hscan]
    simp [Token.scanFrom]
  exact ⟨t, semicolon, Token.eofAt stop, htokenize, hspells, hsemicolon, rfl⟩

/-- Every expression that was read from a text and holds no float is read again from its own text, spans apart. -/
theorem Program.parse_text {source file file' : String} {p : Parsed} {e : Expr} (hp : parse source file = .ok p)
    (he : e ∈ p.program.exprs) (hfloat : e.holdsFloat = false) :
    ∃ e' span span', e'.erase = e.erase ∧ parse (e.text ++ ";") file' = .ok {
      program := {
        moduleName := Path.stem file'
        imports := []
        contents := [.expression e' span]
        span := span' }
      warnings := [] } := by
  obtain ⟨t, semicolon, eof, htokenize, ⟨e', hderives, herase⟩, hsemicolon, heof⟩ :=
    (legible_of_parse hp e he hfloat).tokenize
  have hderives : Derives .assignment t e' := hderives.loosen (by decide)
  obtain ⟨span, span', hprogram⟩ := ofTokens_of_derives hderives hsemicolon heof file'
  refine ⟨e', span, span', herase, ?_⟩
  unfold parse
  rw [htokenize]
  exact hprogram

/-- A struct literal with a call, an index and an array inside. -/
theorem Program.parse_text_struct :
    ∃ p e, parse "let p := P \x7b x: -a[1 .. 2], y: f(b++, [3, 4]).z \x7d;" "one" = .ok p ∧ e ∈ p.program.exprs ∧
      e.holdsFloat = false ∧ e.text = "P \x7b x: (-a[(1 .. 2)]), y: f((b++), [3, 4]).z \x7d" ∧
      ∃ e' span span', e'.erase = e.erase ∧ parse (e.text ++ ";") "two" = .ok {
        program := {
          moduleName := Path.stem "two"
          imports := []
          contents := [.expression e' span]
          span := span' }
        warnings := [] } := by
  have heval : ((parse "let p := P \x7b x: -a[1 .. 2], y: f(b++, [3, 4]).z \x7d;" "one").toOption.any fun p =>
      p.program.exprs.any fun e =>
        !e.holdsFloat && e.text == "P \x7b x: (-a[(1 .. 2)]), y: f((b++), [3, 4]).z \x7d") = true := by
    decide +kernel
  cases hp : parse "let p := P \x7b x: -a[1 .. 2], y: f(b++, [3, 4]).z \x7d;" "one" with
  | error cause =>
    rw [hp] at heval
    cases heval
  | ok p =>
    rw [hp] at heval
    obtain ⟨e, he, hcheck⟩ := List.any_eq_true.1 heval
    simp only [Bool.and_eq_true, Bool.not_eq_true', beq_iff_eq] at hcheck
    exact ⟨p, e, rfl, he, hcheck.1, hcheck.2, parse_text hp he hcheck.1⟩

end BraceScript
