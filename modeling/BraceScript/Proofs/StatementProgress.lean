import BraceScript.Proofs.Progress

/-!
# Reading a program ends

The readers of statements keep the contract `Reader.Proceeds` too, those that call each other by induction on the
fuel (`Stmt.forward`), and so does the reader of programs, which ends at the last token (`Program.ofTokens_cases`).
The result is `Program.ofTokens_ends`: statements, expressions and types take at least one token each, and a program
is either refused or read up to its last token.
-/

namespace BraceScript

open Reader

variable {α : Type} {G : Ground} {c : Cursor} {pos : Nat} {enough : Prop}

/-! ### Parts of declarations -/

namespace Param

private theorem proceeds_read (fuel : Nat) (before : List Param) (hc : c.On G pos) :
    (read fuel before).Proceeds G (G.tokens.length ≤ fuel + pos) (Later pos) c := by
  refine (proceeds_ident hc).bind fun name c₁ pos₁ hc₁ ⟨hlt₁, hname⟩ => ?_
  split
  · exact proceeds_fail hname
  · refine (proceeds_expectSymbol hc₁ _).bind fun _ c₂ pos₂ hc₂ ⟨hlt₂, _⟩ => ?_
    refine ((Ty.proceeds_read fuel hc₂).given (by omega)).bind fun type c₃ pos₃ hc₃ (hlt₃ : pos₂ < pos₃) => ?_
    exact proceeds_pure hc₃ (Nat.lt_trans hlt₁ (Nat.lt_trans hlt₂ hlt₃))

private theorem proceeds_readList (fuel : Nat) (hc : c.On G pos) :
    (readList fuel).Proceeds G (G.tokens.length ≤ fuel + pos) (Later pos) c := by
  refine (proceeds_expectSymbol hc _).bind fun _ c₁ pos₁ hc₁ ⟨hlt₁, _⟩ => ?_
  have hparams : (upTo .rParen (fun before => listed .rParen (read fuel before)) fuel []).Proceeds G
      (G.tokens.length ≤ fuel + pos) (fun _ pos' => pos₁ ≤ pos') c₁ :=
    proceeds_upTo .rParen (fun before _ _ hc' _ => ((proceeds_read fuel before hc').given (by omega)).listed .rParen)
      hc₁
      (by omega)
  refine hparams.bind fun params c₂ pos₂ hc₂ (hle : pos₁ ≤ pos₂) => ?_
  exact proceeds_closing hc₂ (by omega) _ _

end Param

namespace Member

private theorem proceeds_readRest (fuel : Nat) (name : Ident) (visibility : Visibility) (isStatic isReadonly : Bool)
    (hc : c.On G pos) :
    (readRest fuel name visibility isStatic isReadonly).Proceeds G (G.tokens.length ≤ fuel + pos) (Later pos) c := by
  refine proceeds_at? ?_
  split
  · refine (Param.proceeds_readList fuel hc).bind fun params c₁ pos₁ hc₁ (hlt₁ : pos < pos₁) => ?_
    refine ((Ty.proceeds_readReturn fuel hc₁).given (by omega)).bind fun type c₂ pos₂ hc₂ (hle : pos₁ ≤ pos₂) => ?_
    exact proceeds_closing hc₂ (by omega) _ _
  · refine (proceeds_expectSymbol hc _).bind fun _ c₁ pos₁ hc₁ ⟨hlt₁, _⟩ => ?_
    refine ((Ty.proceeds_read fuel hc₁).given (by omega)).bind fun type c₂ pos₂ hc₂ (hlt₂ : pos₁ < pos₂) => ?_
    exact proceeds_closing hc₂ (by omega) _ _

private theorem proceeds_read (fuel : Nat) (struct : String) (before : List Member) (hc : c.On G pos) :
    (read fuel struct before).Proceeds G (G.tokens.length ≤ fuel + pos) (Later pos) c := by
  refine proceeds_current ?_
  split
  · rename_i haccess
    refine (proceeds_advance hc (by simp [haccess])).bind fun _ c₁ pos₁ hc₁ ⟨hlt₁, _⟩ => ?_
    refine (proceeds_eat hc₁ (by simp)).bind fun isStatic c₂ pos₂ hc₂ (hle₂ : pos₁ ≤ pos₂) => ?_
    refine (proceeds_eat hc₂ (by simp)).bind fun isReadonly c₃ pos₃ hc₃ (hle₃ : pos₂ ≤ pos₃) => ?_
    refine (proceeds_ident hc₃).bind fun name c₄ pos₄ hc₄ ⟨hlt₄, hname⟩ => ?_
    split
    · exact proceeds_fail hname
    · refine ((proceeds_readRest fuel name _ isStatic isReadonly hc₄).given (by omega)).mono
        fun _ pos' (hlt : pos₄ < pos') => ?_
      exact show pos < pos' by omega
  · exact proceeds_failHere hc

end Member

/-! ### Statements without blocks -/

namespace VariableDecl

private theorem proceeds_readContent (fuel : Nat) (name : Ident) (hc : c.On G pos) :
    (readContent fuel name).Proceeds G (4 * G.tokens.length + 3 ≤ fuel + 4 * pos) (fun _ pos' => pos ≤ pos') c := by
  have hinside := hc.lt
  refine (proceeds_eat hc (by simp)).bind fun _ c₁ pos₁ hc₁ (hle₁ : pos ≤ pos₁) => ?_
  split
  · refine ((Ty.proceeds_read fuel hc₁).given (by omega)).bind fun type c₂ pos₂ hc₂ (hlt₂ : pos₁ < pos₂) => ?_
    refine (proceeds_eat hc₂ (by simp)).bind fun _ c₃ pos₃ hc₃ (hle₃ : pos₂ ≤ pos₃) => ?_
    split
    · refine (((Expr.forward G fuel).read hc₃).given (by omega)).bind fun value c₄ pos₄ hc₄ ⟨hlt₄, _⟩ => ?_
      exact proceeds_pure hc₄ (by omega)
    · exact proceeds_pure hc₃ (by omega)
  · refine (proceeds_expectSymbol hc₁ _).bind fun _ c₂ pos₂ hc₂ ⟨hlt₂, _⟩ => proceeds_at? ?_
    split
    · exact proceeds_failHere hc₂
    · refine (((Expr.forward G fuel).read hc₂).given (by omega)).bind fun value c₃ pos₃ hc₃ ⟨hlt₃, _⟩ => ?_
      exact proceeds_pure hc₃ (by omega)

private theorem proceeds_read (fuel : Nat) (hc : c.On G pos) (hne : c.next.kind ≠ .eof) :
    (read fuel).Proceeds G (4 * G.tokens.length + 3 ≤ fuel + 4 * pos) (Later pos) c := by
  refine (proceeds_advance hc hne).bind fun opening c₁ pos₁ hc₁ ⟨hlt₁, _⟩ => ?_
  refine (proceeds_ident hc₁).bind fun name c₂ pos₂ hc₂ ⟨hlt₂, hname⟩ => ?_
  refine ((proceeds_readContent fuel name hc₂).given (by omega)).bind
    fun ⟨type, value⟩ c₃ pos₃ hc₃ (hle₃ : pos₂ ≤ pos₃) => ?_
  dsimp only
  split
  · exact proceeds_fail hname
  · exact proceeds_closing hc₃ (by omega) _ _

end VariableDecl

private theorem StructDecl.proceeds_read (fuel : Nat) (hc : c.On G pos) :
    (StructDecl.read fuel).Proceeds G (G.tokens.length ≤ fuel + pos) (Later pos) c := by
  refine (proceeds_expectKeyword hc _).bind fun opening c₁ pos₁ hc₁ ⟨hlt₁, _⟩ => ?_
  refine (proceeds_ident hc₁).bind fun name c₂ pos₂ hc₂ ⟨hlt₂, _⟩ => ?_
  refine (proceeds_expectSymbol hc₂ _).bind fun _ c₃ pos₃ hc₃ ⟨hlt₃, _⟩ => ?_
  have hmembers : (upTo .rBrace (Member.read fuel name.name) fuel []).Proceeds G (G.tokens.length ≤ fuel + pos)
      (fun _ pos' => pos₃ ≤ pos') c₃ :=
    proceeds_upTo .rBrace (fun before _ _ hc' _ => (Member.proceeds_read fuel name.name before hc').given (by omega))
      hc₃
      (by omega)
  refine hmembers.bind fun members c₄ pos₄ hc₄ (hle₄ : pos₃ ≤ pos₄) => ?_
  exact proceeds_closing hc₄ (by omega) _ _

namespace Import

private theorem proceeds_readNames (fuel : Nat) (hc : c.On G pos) :
    (readNames fuel).Proceeds G (G.tokens.length ≤ fuel + pos) (fun _ pos' => pos ≤ pos') c := by
  refine (proceeds_eat hc (by simp)).bind fun _ c₁ pos₁ hc₁ (hle₁ : pos ≤ pos₁) => ?_
  split
  · have hnames : (upTo .rBrace (fun _ => listed .rBrace Reader.ident) fuel []).Proceeds G
        (G.tokens.length ≤ fuel + pos)
        (fun _ pos' => pos₁ ≤ pos') c₁ :=
      proceeds_upTo .rBrace (fun _ _ _ hc' _ => ((proceeds_ident hc').mono fun _ _ h => h.1).listed .rBrace)
        hc₁ (by omega)
    refine hnames.bind fun names c₂ pos₂ hc₂ (hle₂ : pos₁ ≤ pos₂) => ?_
    refine (proceeds_expectSymbol hc₂ _).bind fun _ c₃ pos₃ hc₃ ⟨hlt₃, _⟩ => ?_
    exact (proceeds_expectKeyword hc₃ _).bind fun _ c₄ pos₄ hc₄ ⟨hlt₄, _⟩ => proceeds_pure hc₄ (by omega)
  · exact proceeds_pure hc₁ hle₁

private theorem proceeds_read (fuel : Nat) (nested : Bool) (hc : c.On G pos) :
    (read fuel nested).Proceeds G (G.tokens.length ≤ fuel + pos) (Later pos) c := by
  refine (proceeds_expectKeyword hc _).bind fun opening c₁ pos₁ hc₁ ⟨hlt₁, hopening⟩ => ?_
  split
  · exact proceeds_fail hopening
  · refine ((proceeds_readNames fuel hc₁).given (by omega)).bind fun names c₂ pos₂ hc₂ (hle₂ : pos₁ ≤ pos₂) => ?_
    refine (proceeds_expect hc₂ (by simp)).bind fun path c₃ pos₃ hc₃ ⟨hlt₃, _⟩ => ?_
    exact proceeds_closing hc₃ (by omega) _ _

end Import

namespace Stmt

private theorem proceeds_readReturn (fuel : Nat) (hc : c.On G pos) :
    (readReturn fuel).Proceeds G (4 * G.tokens.length + 3 ≤ fuel + 4 * pos) (Later pos) c := by
  refine (proceeds_expectKeyword hc _).bind fun opening c₁ pos₁ hc₁ ⟨hlt₁, _⟩ => proceeds_at? ?_
  split
  · rename_i hsemicolon
    have hkind : c₁.next.kind = .symbol .semicolon := eq_of_beq hsemicolon
    refine (proceeds_advance hc₁ (by simp [hkind])).bind fun _ c₂ pos₂ hc₂ ⟨hlt₂, _⟩ => ?_
    exact proceeds_pure hc₂ (Nat.lt_trans hlt₁ hlt₂)
  · refine (((Expr.forward G fuel).read hc₁).given (by omega)).bind fun value c₂ pos₂ hc₂ ⟨hlt₂, _⟩ => ?_
    exact proceeds_closing hc₂ (by omega) _ _

private theorem proceeds_readExpression (fuel : Nat) (hc : c.On G pos) :
    (readExpression fuel).Proceeds G (4 * G.tokens.length + 3 ≤ fuel + 4 * pos) (Later pos) c :=
  ((Expr.forward G fuel).read hc).bind fun _ _ _ hc₁ ⟨hlt₁, _⟩ => proceeds_closing hc₁ (Nat.le_of_lt hlt₁) _ _

/-! ### Statements with blocks -/

/-- What the readers of statements do with the given fuel.  Between two tokens they call each other at most eight
times. -/
structure Forward (G : Ground) (fuel : Nat) : Prop where
  stmt : ∀ (nested : Bool) {c : Cursor} {pos : Nat}, c.On G pos →
    (Stmt.read fuel nested).Proceeds G (8 * G.tokens.length + 3 ≤ fuel + 8 * pos) (Later pos) c
  block : ∀ {c : Cursor} {pos : Nat}, c.On G pos →
    (Block.read fuel).Proceeds G (8 * G.tokens.length ≤ fuel + 8 * pos) (Later pos) c
  branch : ∀ {c : Cursor} {pos : Nat}, c.On G pos → c.next.kind ≠ .eof →
    (IfStmt.read fuel).Proceeds G (8 * G.tokens.length ≤ fuel + 8 * pos) (Later pos) c
  alternate : ∀ {c : Cursor} {pos : Nat}, c.On G pos →
    (Alternate.read fuel).Proceeds G (8 * G.tokens.length + 1 ≤ fuel + 8 * pos) (fun _ pos' => pos ≤ pos') c
  function : ∀ {c : Cursor} {pos : Nat}, c.On G pos →
    (FunctionDecl.read fuel).Proceeds G (8 * G.tokens.length ≤ fuel + 8 * pos) (Later pos) c
  whileLoop : ∀ {c : Cursor} {pos : Nat}, c.On G pos →
    (readWhile fuel).Proceeds G (8 * G.tokens.length ≤ fuel + 8 * pos) (Later pos) c
  forLoop : ∀ {c : Cursor} {pos : Nat}, c.On G pos →
    (readFor fuel).Proceeds G (8 * G.tokens.length ≤ fuel + 8 * pos) (Later pos) c
  foreach : ∀ {c : Cursor} {pos : Nat}, c.On G pos →
    (readForeach fuel).Proceeds G (8 * G.tokens.length ≤ fuel + 8 * pos) (Later pos) c

namespace Forward

variable {fuel : Nat} (ih : Forward G fuel)
include ih

private theorem stmt_succ (nested : Bool) (hc : c.On G pos) :
    (Stmt.read (fuel + 1) nested).Proceeds G (8 * G.tokens.length + 3 ≤ fuel + 1 + 8 * pos) (Later pos) c := by
  have hinside := hc.lt
  unfold Stmt.read
  refine proceeds_current ?_
  split
  case h_1 hkind =>
    refine ((VariableDecl.proceeds_read fuel hc (by simp [hkind])).given (by omega)).bind fun _ _ _ hc₁ hlt => ?_
    exact proceeds_pure hc₁ hlt
  case h_2 hkind =>
    refine ((VariableDecl.proceeds_read fuel hc (by simp [hkind])).given (by omega)).bind fun _ _ _ hc₁ hlt => ?_
    exact proceeds_pure hc₁ hlt
  case h_3 => exact ((ih.block hc).given (by omega)).bind fun _ _ _ hc₁ hlt => proceeds_pure hc₁ hlt
  case h_4 hkind =>
    exact ((ih.branch hc (by simp [hkind])).given (by omega)).bind fun _ _ _ hc₁ hlt => proceeds_pure hc₁ hlt
  case h_5 => exact ((ih.function hc).given (by omega)).bind fun _ _ _ hc₁ hlt => proceeds_pure hc₁ hlt
  case h_6 => exact (proceeds_readReturn fuel hc).given (by omega)
  case h_7 => exact ((StructDecl.proceeds_read fuel hc).given (by omega)).bind fun _ _ _ hc₁ hlt =>
    proceeds_pure hc₁ hlt
  case h_8 => exact (ih.whileLoop hc).given (by omega)
  case h_9 => exact (ih.forLoop hc).given (by omega)
  case h_10 => exact (ih.foreach hc).given (by omega)
  case h_11 => exact ((Import.proceeds_read fuel nested hc).given (by omega)).bind fun _ _ _ hc₁ hlt =>
    proceeds_pure hc₁ hlt
  case h_12 => exact (proceeds_readExpression fuel hc).given (by omega)

private theorem block_succ (hc : c.On G pos) :
    (Block.read (fuel + 1)).Proceeds G (8 * G.tokens.length ≤ fuel + 1 + 8 * pos) (Later pos) c := by
  unfold Block.read
  refine (proceeds_expectSymbol hc _).bind fun opening c₁ pos₁ hc₁ ⟨hlt₁, _⟩ => ?_
  have hinside := hc₁.lt
  have hstatements : (upTo .rBrace (fun _ => Stmt.read fuel true) fuel []).Proceeds G
      (8 * G.tokens.length ≤ fuel + 1 + 8 * pos) (fun _ pos' => pos₁ ≤ pos') c₁ :=
    proceeds_upTo .rBrace (fun _ _ _ hc' _ => (ih.stmt true hc').given (by omega)) hc₁ (by omega)
  refine hstatements.bind fun statements c₂ pos₂ hc₂ (hle₂ : pos₁ ≤ pos₂) => ?_
  exact proceeds_closing hc₂ (by omega) _ _

private theorem branch_succ (hc : c.On G pos) (hne : c.next.kind ≠ .eof) :
    (IfStmt.read (fuel + 1)).Proceeds G (8 * G.tokens.length ≤ fuel + 1 + 8 * pos) (Later pos) c := by
  unfold IfStmt.read
  refine (proceeds_advance hc hne).bind fun opening c₁ pos₁ hc₁ ⟨hlt₁, _⟩ => ?_
  have hinside := hc₁.lt
  refine (((Expr.forward G fuel).read hc₁).given (by omega)).bind fun condition c₂ pos₂ hc₂ ⟨hlt₂, _⟩ => ?_
  refine ((ih.block hc₂).given (by omega)).bind fun consequent c₃ pos₃ hc₃ (hlt₃ : pos₂ < pos₃) => ?_
  refine ((ih.alternate hc₃).given (by omega)).bind fun alternate c₄ pos₄ hc₄ (hle₄ : pos₃ ≤ pos₄) => ?_
  exact proceeds_pure hc₄ (show pos < pos₄ by omega)

private theorem alternate_succ (hc : c.On G pos) :
    (Alternate.read (fuel + 1)).Proceeds G (8 * G.tokens.length + 1 ≤ fuel + 1 + 8 * pos)
      (fun _ pos' => pos ≤ pos') c := by
  unfold Alternate.read
  refine proceeds_current ?_
  split
  · rename_i hkind
    refine (proceeds_advance hc (by simp [hkind])).bind fun _ c₁ pos₁ hc₁ ⟨hlt₁, _⟩ => ?_
    refine ((ih.block hc₁).given (by omega)).bind fun _ c₂ pos₂ hc₂ (hlt₂ : pos₁ < pos₂) => ?_
    exact proceeds_pure hc₂ (by omega)
  · rename_i hkind
    refine ((ih.branch hc (by simp [hkind])).given (by omega)).bind fun _ c₁ pos₁ hc₁ (hlt₁ : pos < pos₁) => ?_
    exact proceeds_pure hc₁ (Nat.le_of_lt hlt₁)
  · exact proceeds_pure hc (Nat.le_refl pos)

private theorem function_succ (hc : c.On G pos) :
    (FunctionDecl.read (fuel + 1)).Proceeds G (8 * G.tokens.length ≤ fuel + 1 + 8 * pos) (Later pos) c := by
  unfold FunctionDecl.read
  refine (proceeds_expectKeyword hc _).bind fun opening c₁ pos₁ hc₁ ⟨hlt₁, _⟩ => ?_
  refine (proceeds_ident hc₁).bind fun name c₂ pos₂ hc₂ ⟨hlt₂, _⟩ => ?_
  have hinside := hc₂.lt
  refine ((Param.proceeds_readList fuel hc₂).given (by omega)).bind fun params c₃ pos₃ hc₃ (hlt₃ : pos₂ < pos₃) => ?_
  refine ((Ty.proceeds_readReturn fuel hc₃).given (by omega)).bind fun type c₄ pos₄ hc₄ (hle₄ : pos₃ ≤ pos₄) => ?_
  refine ((ih.block hc₄).given (by omega)).bind fun body c₅ pos₅ hc₅ (hlt₅ : pos₄ < pos₅) => ?_
  exact proceeds_pure hc₅ (show pos < pos₅ by omega)

private theorem whileLoop_succ (hc : c.On G pos) :
    (readWhile (fuel + 1)).Proceeds G (8 * G.tokens.length ≤ fuel + 1 + 8 * pos) (Later pos) c := by
  unfold readWhile
  refine (proceeds_expectKeyword hc _).bind fun opening c₁ pos₁ hc₁ ⟨hlt₁, _⟩ => ?_
  have hinside := hc₁.lt
  refine (((Expr.forward G fuel).read hc₁).given (by omega)).bind fun condition c₂ pos₂ hc₂ ⟨hlt₂, _⟩ => ?_
  refine ((ih.block hc₂).given (by omega)).bind fun body c₃ pos₃ hc₃ (hlt₃ : pos₂ < pos₃) => ?_
  exact proceeds_pure hc₃ (show pos < pos₃ by omega)

private theorem forLoop_succ (hc : c.On G pos) :
    (readFor (fuel + 1)).Proceeds G (8 * G.tokens.length ≤ fuel + 1 + 8 * pos) (Later pos) c := by
  unfold readFor
  refine (proceeds_expectKeyword hc _).bind fun opening c₁ pos₁ hc₁ ⟨hlt₁, _⟩ => ?_
  refine (proceeds_ident hc₁).bind fun counter c₂ pos₂ hc₂ ⟨hlt₂, _⟩ => ?_
  refine (proceeds_expectSymbol hc₂ _).bind fun _ c₃ pos₃ hc₃ ⟨hlt₃, _⟩ => ?_
  have hinside := hc₃.lt
  refine (((Expr.forward G fuel).read hc₃).given (by omega)).bind fun init c₄ pos₄ hc₄ ⟨hlt₄, _⟩ => ?_
  refine (proceeds_expectSymbol hc₄ _).bind fun _ c₅ pos₅ hc₅ ⟨hlt₅, _⟩ => ?_
  refine (((Expr.forward G fuel).read hc₅).given (by omega)).bind fun condition c₆ pos₆ hc₆ ⟨hlt₆, _⟩ => ?_
  refine (proceeds_expectSymbol hc₆ _).bind fun _ c₇ pos₇ hc₇ ⟨hlt₇, _⟩ => ?_
  refine (((Expr.forward G fuel).read hc₇).given (by omega)).bind fun post c₈ pos₈ hc₈ ⟨hlt₈, _⟩ => ?_
  refine ((ih.block hc₈).given (by omega)).bind fun body c₉ pos₉ hc₉ (hlt₉ : pos₈ < pos₉) => ?_
  exact proceeds_pure hc₉ (show pos < pos₉ by omega)

private theorem foreach_succ (hc : c.On G pos) :
    (readForeach (fuel + 1)).Proceeds G (8 * G.tokens.length ≤ fuel + 1 + 8 * pos) (Later pos) c := by
  unfold readForeach
  refine (proceeds_expectKeyword hc _).bind fun opening c₁ pos₁ hc₁ ⟨hlt₁, _⟩ => ?_
  refine (proceeds_ident hc₁).bind fun value c₂ pos₂ hc₂ ⟨hlt₂, _⟩ => ?_
  -- what follows the names is read in the same way with and without a second name
  have hrest (position : Option Ident) {c₃ : Cursor} {pos₃ : Nat} (hc₃ : c₃.On G pos₃) (hle₃ : pos₂ ≤ pos₃) : (do
      let _ ← expectKeyword .inKw
      let iterable ← Expr.read fuel .assignment
      let body ← Block.read fuel
      return Stmt.foreach value position iterable body (opening.span.merge body.span) : Reader Stmt).Proceeds G
        (8 * G.tokens.length ≤ fuel + 1 + 8 * pos) (Later pos) c₃ := by
    refine (proceeds_expectKeyword hc₃ _).bind fun _ c₄ pos₄ hc₄ ⟨hlt₄, _⟩ => ?_
    have hinside := hc₄.lt
    refine (((Expr.forward G fuel).read hc₄).given (by omega)).bind fun iterable c₅ pos₅ hc₅ ⟨hlt₅, _⟩ => ?_
    refine ((ih.block hc₅).given (by omega)).bind fun body c₆ pos₆ hc₆ (hlt₆ : pos₅ < pos₆) => ?_
    exact proceeds_pure hc₆ (show pos < pos₆ by omega)
  refine (proceeds_eat hc₂ (by simp)).bind fun comma c₃ pos₃ hc₃ (hle₃ : pos₂ ≤ pos₃) => ?_
  split
  · have hname : (some <$> Reader.ident).Proceeds G (8 * G.tokens.length ≤ fuel + 1 + 8 * pos) (Later pos₂) c₃ :=
      (proceeds_ident hc₃).bind fun _ _ _ hc₄ ⟨hlt₄, _⟩ => proceeds_pure hc₄ (Nat.lt_of_le_of_lt hle₃ hlt₄)
    exact hname.bind fun position _ _ hc₄ hlt₄ => hrest position hc₄ (Nat.le_of_lt hlt₄)
  · exact hrest none hc₃ hle₃

end Forward

/-- The readers of statements keep the contract. -/
theorem forward (G : Ground) (fuel : Nat) : Forward G fuel := by
  induction fuel with
  | zero =>
    constructor
    case stmt => exact fun _ _ _ hc => proceeds_exhausted (by have hlt := hc.lt; omega)
    case branch => exact fun hc _ => proceeds_exhausted (by have hlt := hc.lt; omega)
    all_goals exact fun hc => proceeds_exhausted (by have hlt := hc.lt; omega)
  | succ fuel ih =>
    exact ⟨fun nested _ _ => ih.stmt_succ nested, ih.block_succ, ih.branch_succ, ih.alternate_succ, ih.function_succ,
      ih.whileLoop_succ,
      ih.forLoop_succ, ih.foreach_succ⟩

end Stmt

/-! ### Programs -/

namespace Program

private theorem proceeds_readModule (draft : Draft) (hc : c.On G pos) (hne : c.next.kind ≠ .eof) :
    (readModule draft).Proceeds G enough (Later pos) c := by
  refine (proceeds_advance hc hne).bind fun _ c₁ pos₁ hc₁ ⟨hlt₁, _⟩ => ?_
  refine (proceeds_ident hc₁).bind fun name c₂ pos₂ hc₂ ⟨hlt₂, hname⟩ => ?_
  refine (proceeds_expectSymbol hc₂ _).bind fun _ c₃ pos₃ hc₃ ⟨hlt₃, _⟩ => ?_
  split
  · exact proceeds_fail hname
  · exact proceeds_pure hc₃ (show pos < pos₃ by omega)

private theorem atModule_extend (hc : c.On G pos) (more : List Token) : atModule (c.extend more) = atModule c := by
  rw [atModule, atModule, hc.startsWith_extend G.closed (by decide)]
  rfl

/-- Everything is read up to the last token. -/
private theorem proceeds_readDraft (fuel : Nat) (draft : Draft) (hc : c.On G pos) :
    (readDraft fuel draft).Proceeds G (8 * G.tokens.length + 4 ≤ fuel + 8 * pos)
      (fun _ pos' => pos' = G.tokens.length - 1) c := by
  induction fuel generalizing draft c pos with
  | zero => exact proceeds_exhausted (by have hlt := hc.lt; omega)
  | succ fuel ih =>
    refine proceeds_cursor ?_ fun more => by rw [atModule_extend hc, Cursor.next_extend]
    split
    · rename_i heof
      exact proceeds_pure hc (hc.eq_of_eof G.closed heof)
    · rename_i hne
      split
      · refine (proceeds_readModule draft hc hne).bind fun draft c₁ pos₁ hc₁ (hlt : pos < pos₁) => ?_
        exact (ih draft hc₁).given (by omega)
      · refine (((Stmt.forward G fuel).stmt false hc).given (by omega)).bind
          fun st c₁ pos₁ hc₁ (hlt : pos < pos₁) => ?_
        exact (ih _ hc₁).given (by omega)

private theorem proceeds_read (fuel : Nat) (file : String) (hc : c.On G pos) :
    (read fuel file).Proceeds G (8 * G.tokens.length + 4 ≤ fuel + 8 * pos)
      (fun _ pos' => pos' = G.tokens.length - 1) c :=
  proceeds_current ((proceeds_readDraft fuel _ hc).bind fun _ _ _ hc₁ hend =>
    proceeds_lastSpan (proceeds_pure hc₁ hend))

/-- What reading a whole token sequence comes to. -/
theorem ofTokens_cases (G : Ground) (file : String) :
    (∃ e, ofTokens G.tokens file = .error (.grammar e) ∧ G.Marked e.span) ∨
      ∃ p c, read (fuelFor G.tokens.length) file (.ofTokens G.tokens) = .done p c ∧
        ofTokens G.tokens file = .ok ⟨p, c.warnings.reverse⟩ ∧ c.On G (G.tokens.length - 1) := by
  have hstart : (Cursor.ofTokens G.tokens).On G 0 := by
    refine ⟨Cursor.standsAt_ofTokens G.closed, ?_⟩
    cases G.tokens <;> exact List.forall_mem_nil _
  have hreply := (proceeds_read (fuelFor G.tokens.length) file hstart).reply
  unfold ofTokens
  cases hread : read (fuelFor G.tokens.length) file (.ofTokens G.tokens) with
  | done p c =>
    rw [hread] at hreply
    obtain ⟨_, hc, rfl⟩ := hreply
    exact .inr ⟨p, c, rfl, rfl, hc⟩
  | failed e =>
    rw [hread] at hreply
    exact .inl ⟨e, rfl, hreply⟩
  | exhausted =>
    rw [hread] at hreply
    refine absurd ?_ hreply
    unfold fuelFor
    omega

end Program

/-! ### Reading any closed tokens -/

/-- The tokens alone, without a property of spans. -/
def Ground.bare {tokens : List Token} (h : Token.Closed tokens) : Ground where
  tokens := tokens
  closed := h
  Marked _ := True
  token _ _ := trivial
  merge _ _ := trivial

private theorem Cursor.StandsAt.bare {tokens : List Token} (h : c.StandsAt tokens pos)
    (hclosed : Token.Closed tokens) :
    c.On (.bare hclosed) pos := ⟨h, fun _ _ => trivial⟩

namespace Reader

variable {tokens : List Token} {r : Reader α}

/-- Wherever among the tokens the reader starts, if it succeeds it has passed at least one of them, and not the last
one. -/
def Advances (tokens : List Token) (r : Reader α) : Prop :=
  ∀ c pos, c.StandsAt tokens pos → ∀ a c', r c = .done a c' →
    ∃ pos', pos < pos' ∧ pos' < tokens.length ∧ c'.StandsAt tokens pos'

/-- Wherever among the tokens the reader starts and however it ends, it does not look at what stands behind them. -/
def StaysInside (tokens : List Token) (r : Reader α) : Prop :=
  ∀ c pos, c.StandsAt tokens pos → ∀ more, r (c.extend more) = (r c).extend more

private theorem advances_of_proceeds (hclosed : Token.Closed tokens) (enough : Nat → Prop)
    (h : ∀ c pos, c.On (.bare hclosed) pos → r.Proceeds (.bare hclosed) (enough pos) (Later pos) c) :
    r.Advances tokens ∧ r.StaysInside tokens := by
  refine ⟨fun c pos hc a c' hdone => ?_, fun c pos hc => (h c pos (hc.bare hclosed)).inside⟩
  have hreply := (h c pos (hc.bare hclosed)).reply
  rw [hdone] at hreply
  obtain ⟨pos', hc', hlt⟩ := hreply
  exact ⟨pos', hlt, hc'.lt, hc'.toStandsAt⟩

end Reader

/-- Over closed tokens the cursor moves on by one token at a time and stays at the last one.  Every statement, every
expression, whatever may follow it, and every type takes at least one token, nothing behind the last token is ever
looked at, and a program is either refused or read up to the last token. -/
theorem Program.ofTokens_ends {tokens : List Token} (h : Token.Closed tokens) :
    (∀ (c : Cursor) pos, c.StandsAt tokens pos →
      if pos = tokens.length - 1 then c.advance = c else c.advance.StandsAt tokens (pos + 1)) ∧
    (∀ fuel nested, (Stmt.read fuel nested).Advances tokens ∧ (Stmt.read fuel nested).StaysInside tokens) ∧
    (∀ fuel floor, (Expr.read fuel floor).Advances tokens ∧ (Expr.read fuel floor).StaysInside tokens) ∧
    (∀ fuel, (Ty.read fuel).Advances tokens ∧ (Ty.read fuel).StaysInside tokens) ∧
    (∀ fuel file, (read fuel file).StaysInside tokens) ∧
    ∀ file, (∃ e, ofTokens tokens file = .error (.grammar e)) ∨
      ∃ p c, read (fuelFor tokens.length) file (.ofTokens tokens) = .done p c ∧
        ofTokens tokens file = .ok ⟨p, c.warnings.reverse⟩ ∧ c.StandsAt tokens (tokens.length - 1) := by
  refine ⟨fun c pos hc => ?_, fun fuel nested => ?_, fun fuel floor => ?_, fun fuel => ?_,
    fun fuel file c pos hc => ?_,
    fun file => ?_⟩
  · by_cases heof : c.next.kind = .eof
    · rw [if_pos (hc.eq_of_eof h heof), Cursor.advance, heof]
    · have hnext := hc.advance h heof
      have hlt := hnext.lt
      rwa [if_neg (by omega)]
  · exact advances_of_proceeds h _ fun c pos hc => (Stmt.forward _ fuel).stmt nested hc
  · exact advances_of_proceeds h _ fun c pos hc => ((Expr.forward _ fuel).read hc).mono fun _ _ h => h.1
  · exact advances_of_proceeds h _ fun c pos hc => Ty.proceeds_read fuel hc
  · exact (proceeds_read fuel file (hc.bare h)).inside
  · rcases ofTokens_cases (.bare h) file with ⟨e, herror, -⟩ | ⟨p, c, hread, hok, hc⟩
    · exact .inl ⟨e, herror⟩
    · exact .inr ⟨p, c, hread, hok, hc.toStandsAt⟩

/-- A function with a parameter of an unknown type and a list in its body, as kinds and texts. -/
private def functionTokens : List Token :=
  [(.keyword .fnKw, "fn"), (.ident, "f"), (.symbol .lParen, "("), (.ident, "a"), (.symbol .colon, ":"),
    (.symbol .lBracket, "["), (.symbol .rBracket, "]"), (.ident, "k"), (.symbol .rParen, ")"),
    (.symbol .lBrace, "\x7b"), (.keyword .ret, "ret"), (.symbol .lBracket, "["), (.number, "1"),
    (.symbol .comma, ","), (.ident, "a"), (.symbol .lParen, "("), (.symbol .rParen, ")"), (.symbol .rBracket, "]"),
    (.symbol .semicolon, ";"), (.symbol .rBrace, "\x7d"), (.eof, "")].map fun (kind, text) => ⟨kind, text, default⟩

private theorem closed_functionTokens : Token.Closed functionTokens :=
  ⟨functionTokens.dropLast, ⟨.eof, "", default⟩, by decide, rfl, by decide⟩

/-- All twenty tokens before the last one are taken. -/
theorem Program.ofTokens_ends_function :
    Token.Closed functionTokens ∧ ∃ (p : Program) (c : Cursor),
      ofTokens functionTokens "m" = .ok ⟨p, c.warnings.reverse⟩ ∧
      c.warnings.length = 1 ∧ c.StandsAt functionTokens 20 := by
  have hread : (ofTokens functionTokens "m").toOption.map (·.warnings.length) = some 1 := by decide +kernel
  refine ⟨closed_functionTokens, ?_⟩
  obtain ⟨-, -, -, -, -, hprogram⟩ := Program.ofTokens_ends closed_functionTokens
  rcases hprogram "m" with ⟨e, herror⟩ | ⟨p, c, -, hok, hc⟩
  · rw [herror] at hread
    cases hread
  · rw [hok] at hread
    exact ⟨p, c, hok, by simpa [Except.toOption] using hread, hc⟩

end BraceScript
