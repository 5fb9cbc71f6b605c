import BraceScript.Proofs.Printing
import BraceScript.Proofs.StatementCompleteness

/-!
# Brackets of type annotations

A type annotation is read by counting its brackets: the pairs in front of the name and those behind it make array
types alike, and only a name that no type has gives a warning.  The text of a type has all its brackets in front of a
word that means a type, so it is read back as the same type without warnings (`Ty.read_counts_brackets`).
-/

namespace BraceScript.Ty

open Lexeme (Stops isIdentPart)

/-! ### The tokens of the text of a type -/

/-- The tokens are pairs of brackets and a word that gives no warning, and they mean the type. -/
def Spelled (type : Ty) (tokens : List Token) : Prop :=
  ∃ k before base element, tokens = before ++ [base] ∧ Brackets k before ∧ base.NamesType element ∧
    base.typeWarnings = [] ∧ type = element.nest k

namespace Spelled

variable {type : Ty} {t : List Token}

private theorem word {base : Token} (hbase : base.NamesType type) (hwarnings : base.typeWarnings = []) :
    Spelled type [base] :=
  ⟨0, [], base, type, rfl, .nil, hbase, hwarnings, rfl⟩

private theorem array {opening closing : Token} (hopening : opening.kind = .symbol .lBracket)
    (hclosing : closing.kind = .symbol .rBracket) (h : Spelled type t) :
    Spelled (array type) (opening :: closing :: t) := by
  obtain ⟨k, before, base, element, rfl, hbefore, hbase, hwarnings, rfl⟩ := h
  exact ⟨k + 1, _, base, element, rfl, .cons hopening hclosing hbefore, hbase, hwarnings, rfl⟩

end Spelled

/-- The type is written as a name, and the name means this type. -/
private structure Named (type : Ty) : Prop where
  name : IsName type.text
  means : ofName? type.text = some type

namespace Named

variable {type : Ty}

private theorem of_text {c : Char} {part : List Char} (htext : type.text.toList = c :: part)
    (hc : Lexeme.isIdentStart c = true) (hpart : part.all isIdentPart = true)
    (hfree : Keyword.ofWord? type.text = none) (hmeans : ofName? type.text = some type) : Named type :=
  ⟨⟨c, part, htext, hc, List.all_eq_true.1 hpart, hfree⟩, hmeans⟩

private theorem integer (t : IntType) : Named (integer t) := by
  obtain ⟨width, signed⟩ := t
  cases width <;> cases signed <;> exact .of_text rfl rfl rfl rfl rfl

private theorem float (t : FloatType) : Named (float t) := by
  cases t <;> exact .of_text rfl rfl rfl rfl rfl

private theorem cuts (h : Named type) {rest : List Char} (hrest : Stops isIdentPart rest) :
    Token.Cuts type.text.toList rest (Spelled type) := by
  refine (Token.cuts_name h.name hrest).mono fun tokens htokens => ?_
  obtain ⟨base, rfl, hk, htext⟩ := htokens.kind
  have hbase := Token.NamesType.name hk
  rw [htext, h.means] at hbase
  refine .word hbase ?_
  rw [Token.typeWarnings, if_neg (by simp [htext, h.means])]

end Named

/-- The text of a type is cut into tokens that spell it. -/
private theorem cuts_text (type : Ty) {rest : List Char} (hrest : Stops isIdentPart rest) :
    Token.Cuts type.text.toList rest (Spelled type) := by
  induction type with
  | integer t => exact (Named.integer t).cuts hrest
  | float t => exact (Named.float t).cuts hrest
  | boolean | string | character | void => exact (Named.of_text rfl rfl rfl rfl rfl).cuts hrest
  | null =>
    -- `null` is reserved, so it is no name
    refine (Token.cuts_word (w := "null") rfl (List.all_eq_true.1 (by rfl)) hrest rfl).mono fun tokens htokens => ?_
    obtain ⟨base, rfl, hk, -⟩ := htokens.kind
    have hnull : base.kind = .keyword .nullKw := hk
    refine .word (.null hnull) ?_
    rw [Token.typeWarnings, if_neg (by simp [hnull])]
  | array element ih =>
    have htext : (array element).text.toList =
        Symbol.lBracket.text.toList ++ (Symbol.rBracket.text.toList ++ element.text.toList) := by
      simp [text, Symbol.text]
    rw [htext]
    -- neither bracket is joined to what follows it
    refine ((Token.cuts_symbol .lBracket fun _ _ => rfl).append
      ((Token.cuts_symbol .rBracket fun _ _ => rfl).append ih)).mono ?_
    rintro _ ⟨_, _, rfl, hopening, _, t, rfl, hclosing, ht⟩
    obtain ⟨opening, rfl, hopening, -⟩ := hopening.kind
    obtain ⟨closing, rfl, hclosing, -⟩ := hclosing.kind
    exact ht.array hopening hclosing

private theorem tokenize_text (type : Ty) :
    ∃ t stop, Token.tokenize type.text = .ok (t ++ [Token.eofAt stop]) ∧ Spelled type t := by
  have hstops : Stops isIdentPart [] := by simp [Stops]
  obtain ⟨stop, t, hscan, ht⟩ := cuts_text type hstops .start []
  refine ⟨t, stop, ?_, ht⟩
  rw [List.append_nil] at hscan
  have hlist : Token.scan type.text = (t ++ [Token.eofAt stop], none) := by
    simp [Token.scan, hscan, Token.scanFrom]
  rw [Token.tokenize, hlist]

/-! ### Counting brackets -/

/-- A type annotation with `k` pairs of brackets in front of its name and `m` pairs behind it, whatever follows other
than an opening bracket, is passed exactly and read as the type of the name, `k + m` arrays deep.  There is one
warning, at the name, if the name is that of no type, and none otherwise.  The text of any type is read back as this
type, without warnings. -/
theorem read_counts_brackets :
    (∀ {k m fuel : Nat} {before after rest : List Token} {base follow : Token} {type : Ty} {c : Cursor},
      Brackets k before →
      base.NamesType type → Brackets m after → follow.kind ≠ .symbol .lBracket →
      c.tokens = before ++ base :: after ++ follow :: rest → k + m + 2 ≤ fuel →
      ∃ c', read fuel c = .done (type.nest (k + m)) c' ∧ c.Moves (before ++ base :: after) c' ∧
      c'.tokens = follow :: rest ∧
        if base.kind = .ident ∧ ofName? base.text = none then
          ∃ w : SyntaxWarning, w.cause.code = "W001" ∧ w.span = base.span ∧ c'.warnings = w :: c.warnings
        else c'.warnings = c.warnings) ∧
    ∀ type : Ty, ∃ tokens, Token.tokenize type.text = .ok tokens ∧ ∀ fuel, tokens.length < fuel →
      ∃ c', read fuel (.ofTokens tokens) = .done type c' ∧ c'.next.kind = .eof ∧ c'.rest = [] ∧
      c'.warnings = [] := by
  constructor
  · intro k m fuel before after rest base follow type c hbefore hbase hafter hfollow hc hfuel
    obtain ⟨c', hread, hmoves, hc', hwarnings⟩ :=
      read_of_tokens hbefore hbase hafter hc (List.cons_ne_nil _ _) (by simpa using hfollow) (F := fuel) (by omega)
    refine ⟨c', hread, hmoves, hc', ?_⟩
    rw [hwarnings, Token.typeWarnings]
    split
    · exact ⟨⟨.unknownType base.text, base.span⟩, rfl, rfl, rfl⟩
    · rfl
  · intro type
    obtain ⟨t, stop, htokenize, k, before, base, element, rfl, hbefore, hbase, hnone, rfl⟩ := tokenize_text type
    refine ⟨_, htokenize, fun fuel hfuel => ?_⟩
    have htokens := Cursor.tokens_ofTokens (before ++ [base] ++ [Token.eofAt stop]) (by simp)
    have hfuel' : k + 0 + 1 < fuel := by
      simp only [List.length_append, List.length_cons, List.length_nil, hbefore.length_eq] at hfuel
      omega
    obtain ⟨c', hread, -, hc', hwarnings⟩ :=
      read_of_tokens hbefore hbase .nil htokens (List.cons_ne_nil _ _) (by simp [Token.eofAt]) hfuel'
    obtain ⟨hnext, hrest⟩ := List.cons.inj hc'
    refine ⟨c', hread, by rw [hnext]; rfl, hrest, ?_⟩
    rw [hwarnings, hnone]
    cases before <;> rfl

/-- The tokens of `[]plane[];` with their places. -/
private def planeTokens : List Token :=
  [(.symbol .lBracket, "[", 0, 1), (.symbol .rBracket, "]", 1, 2), (.ident, "plane", 2, 7),
    (.symbol .lBracket, "[", 7, 8),
    (.symbol .rBracket, "]", 8, 9), (.symbol .semicolon, ";", 9, 10), (.eof, "", 10, 10)].map
      fun (kind, text, m, n) => ⟨kind, text, ⟨⟨1, m + 1, m⟩, ⟨1, n + 1, n⟩⟩⟩

/-- Brackets on both sides of an unknown name. -/
theorem read_counts_brackets_plane :
    Token.tokenize "[]plane[];" = .ok planeTokens ∧ ofName? "plane" = none ∧
      ∃ c' w, read 4 (.ofTokens planeTokens) = .done (array (array null)) c' ∧ c'.next.kind = .symbol .semicolon ∧
        c'.warnings = [w] ∧ w.cause.code = "W001" ∧ w.span = ⟨⟨1, 3, 2⟩, ⟨1, 8, 7⟩⟩ := by
  have hscan : Token.scan "[]plane[];" = (planeTokens, none) := by decide +kernel
  have hbefore : Brackets 1 (planeTokens.take 2) := .cons rfl rfl .nil
  have hafter : Brackets 1 ((planeTokens.drop 3).take 2) := .cons rfl rfl .nil
  have hbase : Token.NamesType ⟨.ident, "plane", ⟨⟨1, 3, 2⟩, ⟨1, 8, 7⟩⟩⟩ null := .name rfl
  have htokens : (Cursor.ofTokens planeTokens).tokens =
      planeTokens.take 2 ++ ⟨.ident, "plane", ⟨⟨1, 3, 2⟩, ⟨1, 8, 7⟩⟩⟩ :: (planeTokens.drop 3).take 2 ++
        ⟨.symbol .semicolon, ";", ⟨⟨1, 10, 9⟩, ⟨1, 11, 10⟩⟩⟩ :: planeTokens.drop 6 := rfl
  have hfuel : 1 + 1 + 2 ≤ 4 := by decide
  obtain ⟨c', hread, -, hc', w, hcode, hspan, hwarnings⟩ :=
    read_counts_brackets.1 hbefore hbase hafter (by decide) htokens hfuel
  refine ⟨by rw [Token.tokenize, hscan], rfl, c', w, hread, ?_, hwarnings, hcode, hspan⟩
  rw [(List.cons.inj hc').1]

end BraceScript.Ty
