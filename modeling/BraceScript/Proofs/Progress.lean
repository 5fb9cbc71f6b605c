import BraceScript.Proofs.Passage
import BraceScript.Syntax.Program

/-!
# Reading goes forward

The tokens of a text are closed by an end-of-file token and have no other one (`Token.Closed`).  Over such tokens
every reader keeps the contract `Reader.Proceeds`: if it succeeds, the cursor stands further on and still before a
token; if it fails, the span of the fault is made of spans of tokens; it gives up only if its fuel is short; and it
does not look at what stands behind the end-of-file token.  The contract holds of the primitive readers and is kept
by `>>=`, so the readers of the grammar are gone through once: here those of types (`Ty.proceeds_read`) and of
expressions, which call each other, by induction on the fuel (`Expr.forward`).
-/

namespace BraceScript

/-! ### Places in a token sequence -/

/-- The tokens end with an end-of-file token, which is the only one. -/
def Token.Closed (tokens : List Token) : Prop :=
  ∃ front stop, tokens = front ++ [stop] ∧ stop.kind = .eof ∧ ∀ t ∈ front, t.kind ≠ .eof

namespace Cursor

/-- The cursor has passed the first `pos` of the tokens and stands before the next one. -/
structure StandsAt (tokens : List Token) (pos : Nat) (c : Cursor) : Prop where
  ahead : tokens.drop pos = c.next :: c.rest
  behind : c.last = (tokens.take pos).getLast?.map Token.span

/-- The cursor with more tokens behind those that it has. -/
def extend (c : Cursor) (more : List Token) : Cursor := { c with rest := c.rest ++ more }

@[simp] theorem next_extend (c : Cursor) (more : List Token) : (c.extend more).next = c.next := rfl

variable {tokens : List Token} {pos : Nat} {c : Cursor}

theorem standsAt_ofTokens (h : Token.Closed tokens) : (ofTokens tokens).StandsAt tokens 0 := by
  obtain ⟨front, stop, rfl, -, -⟩ := h
  exact ⟨(tokens_ofTokens _ (by simp)).symm, by cases front <;> rfl⟩

namespace StandsAt

theorem lt (h : c.StandsAt tokens pos) : pos < tokens.length := by
  have hlength := congrArg List.length h.ahead
  rw [List.length_drop, List.length_cons] at hlength
  omega

private theorem next_mem (h : c.StandsAt tokens pos) : c.next ∈ tokens :=
  List.mem_of_mem_drop (by rw [h.ahead]; exact List.mem_cons_self)

/-- Nothing stands behind the end-of-file token, and something behind every other one. -/
private theorem rest_eq_nil_iff (h : c.StandsAt tokens pos) (hclosed : Token.Closed tokens) :
    c.rest = [] ↔ c.next.kind = .eof := by
  obtain ⟨front, stop, rfl, hstop, hfront⟩ := hclosed
  have hpos : pos ≤ front.length := by simpa [Nat.lt_succ_iff] using h.lt
  have hahead := h.ahead
  rw [List.drop_append_of_le_length hpos] at hahead
  cases hdrop : front.drop pos with
  | nil =>
    rw [hdrop] at hahead
    obtain ⟨hnext, hrest⟩ := List.cons.inj hahead
    simp [← hnext, ← hrest, hstop]
  | cons t ts =>
    rw [hdrop] at hahead
    obtain ⟨hnext, hrest⟩ := List.cons.inj hahead
    have hkind : t.kind ≠ .eof := hfront t (List.mem_of_mem_drop (by rw [hdrop]; exact List.mem_cons_self))
    simp [← hnext, ← hrest, hkind]

/-- At the end-of-file token all other tokens have been passed. -/
theorem eq_of_eof (h : c.StandsAt tokens pos) (hclosed : Token.Closed tokens) (heof : c.next.kind = .eof) :
    pos = tokens.length - 1 := by
  have hlength := congrArg List.length h.ahead
  rw [List.length_drop, List.length_cons, (h.rest_eq_nil_iff hclosed).2 heof] at hlength
  simp at hlength
  omega

theorem advance (h : c.StandsAt tokens pos) (hclosed : Token.Closed tokens) (hne : c.next.kind ≠ .eof) :
    c.advance.StandsAt tokens (pos + 1) := by
  have hrest : c.rest ≠ [] := fun hnil => hne ((h.rest_eq_nil_iff hclosed).1 hnil)
  have hnext : tokens[pos]? = some c.next := by rw [← List.head?_drop, h.ahead, List.head?_cons]
  have hahead : tokens.drop (pos + 1) = c.rest := by rw [← List.tail_drop, h.ahead, List.tail_cons]
  obtain ⟨next, rest, last, warnings⟩ := c
  cases rest with
  | nil => exact absurd rfl hrest
  | cons t ts =>
    rw [advance_of_ne_eof last warnings hne]
    refine ⟨hahead, ?_⟩
    rw [List.take_add_one, hnext, List.getLast?_append]
    rfl

/-! ### What stands behind the end -/

private theorem advance_extend (h : c.StandsAt tokens pos) (hclosed : Token.Closed tokens) (more : List Token) :
    (c.extend more).advance = c.advance.extend more := by
  have hrest := h.rest_eq_nil_iff hclosed
  obtain ⟨next, rest, last, warnings⟩ := c
  by_cases heof : next.kind = .eof
  · simp only [Cursor.advance, extend, heof]
  · cases rest with
    | nil => exact absurd (hrest.1 rfl) heof
    | cons t ts =>
      exact (advance_of_ne_eof _ _ heof).trans (congrArg (extend · more) (advance_of_ne_eof _ _ heof).symm)

/-- The kinds of the next tokens are compared up to the end-of-file token at most. -/
theorem startsWith_extend (h : c.StandsAt tokens pos) (hclosed : Token.Closed tokens) {kinds : List Kind}
    (hkinds : .eof ∉ kinds) (more : List Token) : (c.extend more).startsWith kinds = c.startsWith kinds := by
  have hpeek : ∀ n, n ≤ c.rest.length → (c.extend more).peek n = c.peek n := by
    intro n hn
    have hlength : n < (c.next :: c.rest).length := Nat.lt_succ_of_le hn
    rw [peek_eq, peek_eq]
    change Option.getD ((((c.next :: c.rest) ++ more)[n]?).map Token.kind) .eof = _
    rw [List.getElem?_append_left hlength]
  by_cases hlong : kinds.length ≤ c.rest.length + 1
  · have hmap : (List.range kinds.length).map (c.extend more).peek = (List.range kinds.length).map c.peek := by
      refine List.map_congr_left fun n hn => hpeek n ?_
      have := List.mem_range.1 hn
      omega
    rw [startsWith, startsWith, hmap]
  · -- the end-of-file token would be among the kinds
    obtain ⟨last, hlast, heof⟩ : ∃ last, (c.next :: c.rest)[c.rest.length]? = some last ∧ last.kind = .eof := by
      obtain ⟨front, stop, rfl, hstop, -⟩ := hclosed
      refine ⟨stop, ?_, hstop⟩
      rw [← h.ahead]
      have hlength := congrArg List.length h.ahead
      simp only [List.length_drop, List.length_append, List.length_cons, List.length_nil] at hlength
      rw [List.getElem?_drop, List.getElem?_append_right (by omega),
        show pos + c.rest.length - front.length = 0 by omega]
      rfl
    have hpeekLast : c.peek c.rest.length = .eof := by
      rw [peek_eq, hlast]
      exact heof
    have hfalse : ∀ c' : Cursor, c'.peek c.rest.length = .eof → c'.startsWith kinds = false := by
      intro c' hc'
      refine decide_eq_false fun hsame => hkinds ?_
      rw [← hsame, ← hc']
      exact List.mem_map_of_mem (List.mem_range.2 (by omega))
    rw [hfalse c hpeekLast, hfalse _ ((hpeek _ (Nat.le_refl _)).trans hpeekLast)]

end StandsAt

end Cursor

/-- The reply with more tokens behind those that are left. -/
def Reply.extend {α : Type} (more : List Token) : Reply α → Reply α
  | .done a c => .done a (c.extend more)
  | .failed e => .failed e
  | .exhausted => .exhausted

/-! ### The contract -/

/-- Closed tokens, and a property of spans that all of them have and that merging keeps. -/
structure Ground where
  tokens : List Token
  closed : Token.Closed tokens
  Marked : Span → Prop
  token : ∀ t ∈ tokens, Marked t.span
  merge : ∀ {a b : Span}, Marked a → Marked b → Marked (a.merge b)

/-- The cursor stands behind `pos` of the tokens, and the warnings so far are about marked spans. -/
structure Cursor.On (G : Ground) (pos : Nat) (c : Cursor) : Prop extends c.StandsAt G.tokens pos where
  warned : ∀ w ∈ c.warnings, G.Marked w.span

variable {α β : Type} {G : Ground} {c : Cursor} {pos : Nat} {enough enough' : Prop}

private theorem Cursor.On.marked (h : c.On G pos) : G.Marked c.next.span := G.token c.next h.next_mem

private theorem Cursor.On.advance (h : c.On G pos) (hne : c.next.kind ≠ .eof) : c.advance.On G (pos + 1) := by
  refine ⟨h.toStandsAt.advance G.closed hne, ?_⟩
  unfold Cursor.advance
  split <;> exact h.warned

/-- What a reply may be: a result with the cursor on the tokens and with the property `P` of the result and the new
place, or a fault at a marked span.  Only if the fuel is not `enough` the reader may have given up. -/
def Reply.Keeps (G : Ground) (enough : Prop) (P : α → Nat → Prop) : Reply α → Prop
  | .done a c => ∃ pos, c.On G pos ∧ P a pos
  | .failed e => G.Marked e.span
  | .exhausted => ¬ enough

namespace Reader

/-- The reader keeps the contract at the cursor `c`, whatever stands behind the end-of-file token. -/
structure Proceeds (G : Ground) (enough : Prop) (P : α → Nat → Prop) (r : Reader α) (c : Cursor) : Prop where
  reply : (r c).Keeps G enough P
  inside : ∀ more, r (c.extend more) = (r c).extend more

variable {r : Reader α} {f : α → Reader β} {P P' : α → Nat → Prop} {Q : β → Nat → Prop}

theorem Proceeds.bind (h : r.Proceeds G enough P c)
    (hf : ∀ a c' pos, c'.On G pos → P a pos → (f a).Proceeds G enough Q c') : (r >>= f).Proceeds G enough Q c := by
  obtain ⟨hreply, hinside⟩ := h
  cases hr : r c with
  | done a c' =>
    rw [hr] at hreply hinside
    obtain ⟨pos, hc', ha⟩ := hreply
    obtain ⟨hreply', hinside'⟩ := hf a c' pos hc' ha
    constructor
    · rwa [bind_of_done hr]
    · intro more
      rw [bind_of_done hr, bind_of_done (hinside more), hinside']
  | failed e =>
    rw [hr] at hreply hinside
    constructor
    · rw [bind_of_failed hr]
      exact hreply
    · intro more
      rw [bind_of_failed hr, bind_of_failed (hinside more)]
      rfl
  | exhausted =>
    rw [hr] at hreply hinside
    constructor
    · rw [bind_of_exhausted hr]
      exact hreply
    · intro more
      rw [bind_of_exhausted hr, bind_of_exhausted (hinside more)]
      rfl

theorem Proceeds.mono (h : r.Proceeds G enough P c) (hP : ∀ a pos, P a pos → P' a pos) :
    r.Proceeds G enough P' c := by
  refine ⟨?_, h.inside⟩
  have hreply := h.reply
  cases hr : r c with
  | done a c' =>
    rw [hr] at hreply
    obtain ⟨pos, hc', ha⟩ := hreply
    exact ⟨pos, hc', hP a pos ha⟩
  | failed e => rwa [hr] at hreply
  | exhausted => rwa [hr] at hreply

/-- More fuel than needed does no harm. -/
theorem Proceeds.given (h : r.Proceeds G enough P c) (henough : enough' → enough) : r.Proceeds G enough' P c := by
  refine ⟨?_, h.inside⟩
  have hreply := h.reply
  cases hr : r c with
  | done a c' => rwa [hr] at hreply
  | failed e => rwa [hr] at hreply
  | exhausted =>
    rw [hr] at hreply
    exact fun h => hreply (henough h)

theorem proceeds_pure {a : α} (hc : c.On G pos) (h : P a pos) : (pure a : Reader α).Proceeds G enough P c :=
  ⟨⟨pos, hc, h⟩, fun _ => rfl⟩

theorem proceeds_exhausted (h : ¬ enough) : (exhausted : Reader α).Proceeds G enough P c := ⟨h, fun _ => rfl⟩

theorem proceeds_fail {cause : SyntaxError.Cause} {span : Span} (h : G.Marked span) :
    (fail cause span : Reader α).Proceeds G enough P c := ⟨h, fun _ => rfl⟩

theorem proceeds_failHere {cause : SyntaxError.Cause} (hc : c.On G pos) :
    (failHere cause : Reader α).Proceeds G enough P c := ⟨hc.marked, fun _ => rfl⟩

/-! ### Looking at the next token -/

theorem proceeds_current {f : Token → Reader α} (h : (f c.next).Proceeds G enough P c) :
    (current >>= f).Proceeds G enough P c := ⟨h.reply, h.inside⟩

theorem proceeds_at? {kind : Kind} {f : Bool → Reader α} (h : (f (c.next.kind == kind)).Proceeds G enough P c) :
    (at? kind >>= f).Proceeds G enough P c := ⟨h.reply, h.inside⟩

theorem proceeds_lastSpan {f : Span → Reader α} (h : (f c.lastSpan).Proceeds G enough P c) :
    (lastSpan >>= f).Proceeds G enough P c := ⟨h.reply, h.inside⟩

theorem proceeds_cursor {f : Cursor → Reader α} (h : (f c).Proceeds G enough P c)
    (hsame : ∀ more, f (c.extend more) = f c) : (cursor >>= f).Proceeds G enough P c := by
  refine ⟨h.reply, fun more => ?_⟩
  rw [cursor_bind, cursor_bind, hsame]
  exact h.inside more

/-! ### Passing a token -/

/-- What has been read ends behind `pos`. -/
def Later (pos : Nat) (_ : α) (pos' : Nat) : Prop := pos < pos'

/-- The token or name that has been read ends behind `pos` and is marked. -/
def Noted (G : Ground) (span : α → Span) (pos : Nat) (a : α) (pos' : Nat) : Prop := pos < pos' ∧ G.Marked (span a)

theorem proceeds_advance (hc : c.On G pos) (hne : c.next.kind ≠ .eof) :
    advance.Proceeds G enough (Noted G Token.span pos) c := by
  refine ⟨⟨pos + 1, hc.advance hne, Nat.lt_succ_self pos, hc.marked⟩, fun more => ?_⟩
  change Reply.done _ _ = Reply.done _ _
  rw [hc.advance_extend G.closed]
  rfl

theorem proceeds_expect (hc : c.On G pos) {kind : Kind} (hkind : kind ≠ .eof) :
    (expect kind).Proceeds G enough (Noted G Token.span pos) c := by
  by_cases hnext : c.next.kind = kind
  · have hexpect : ∀ c' : Cursor, c'.next.kind = kind → expect kind c' = advance c' := fun c' hc' => if_pos hc'
    obtain ⟨hreply, hinside⟩ : advance.Proceeds G enough (Noted G Token.span pos) c :=
      proceeds_advance hc (hnext ▸ hkind)
    refine ⟨by rwa [hexpect c hnext], fun more => ?_⟩
    rw [hexpect c hnext, hexpect (c.extend more) hnext]
    exact hinside more
  · have hexpect : ∀ more, expect kind (c.extend more) = .failed ⟨.expected kind c.next.kind, c.next.span⟩ :=
      fun _ => if_neg hnext
    have hfailed : expect kind c = .failed ⟨.expected kind c.next.kind, c.next.span⟩ := if_neg hnext
    refine ⟨?_, fun more => ?_⟩
    · rw [hfailed]
      exact hc.marked
    · rw [hexpect, hfailed]
      rfl

theorem proceeds_expectSymbol (hc : c.On G pos) (s : Symbol) :
    (expectSymbol s).Proceeds G enough (Noted G Token.span pos) c := proceeds_expect hc (by simp)

theorem proceeds_expectKeyword (hc : c.On G pos) (k : Keyword) :
    (expectKeyword k).Proceeds G enough (Noted G Token.span pos) c := proceeds_expect hc (by simp)

/-- A reader that ends with a closing symbol. -/
theorem proceeds_closing {pos' : Nat} (hc : c.On G pos') (hle : pos ≤ pos') (s : Symbol) (f : Token → α) :
    (do let closing ← expectSymbol s; return f closing : Reader α).Proceeds G enough (Later pos) c :=
  (proceeds_expectSymbol hc s).bind fun _ _ _ hc₁ ⟨hlt, _⟩ => proceeds_pure hc₁ (Nat.lt_of_le_of_lt hle hlt)

theorem proceeds_eat (hc : c.On G pos) {kind : Kind} (hkind : kind ≠ .eof) :
    (eat kind).Proceeds G enough (fun _ pos' => pos ≤ pos') c := by
  by_cases hnext : c.next.kind = kind
  · have heat : ∀ c' : Cursor, c'.next.kind = kind → eat kind c' = .done true c'.advance := fun c' hc' => if_pos hc'
    refine ⟨?_, fun more => ?_⟩
    · rw [heat c hnext]
      exact ⟨pos + 1, hc.advance (hnext ▸ hkind), Nat.le_succ pos⟩
    · rw [heat c hnext, heat (c.extend more) hnext, hc.advance_extend G.closed]
      rfl
  · have heat : ∀ c' : Cursor, c'.next.kind ≠ kind → eat kind c' = .done false c' := fun c' hc' => if_neg hc'
    refine ⟨?_, fun more => ?_⟩
    · rw [heat c hnext]
      exact ⟨pos, hc, Nat.le_refl pos⟩
    · rw [heat c hnext, heat (c.extend more) hnext]
      rfl

theorem proceeds_ident (hc : c.On G pos) : ident.Proceeds G enough (Noted G Ident.span pos) c :=
  (proceeds_expect hc (by simp)).bind fun _ _ _ hc₁ htoken => proceeds_pure hc₁ htoken

private theorem proceeds_warn (hc : c.On G pos) {cause : SyntaxWarning.Cause} {span : Span} (h : G.Marked span) :
    (warn cause span).Proceeds G enough (fun _ pos' => pos' = pos) c :=
  ⟨⟨pos, ⟨⟨hc.ahead, hc.behind⟩, List.forall_mem_cons.2 ⟨h, hc.warned⟩⟩, rfl⟩, fun _ => rfl⟩

/-! ### Lists -/

theorem Proceeds.listed {item : Reader α} (h : item.Proceeds G enough (Later pos) c) (closer : Symbol) :
    (listed closer item).Proceeds G enough (Later pos) c := by
  refine h.bind fun a c₁ pos₁ hc₁ (ha : pos < pos₁) => proceeds_at? ?_
  split
  · exact proceeds_pure hc₁ ha
  · exact proceeds_closing hc₁ (Nat.le_of_lt ha) .comma fun _ => a

/-- Every item of a list takes a token, so there are no more rounds than tokens. -/
theorem proceeds_upTo {item : List α → Reader α} (closer : Symbol)
    (h : ∀ before c' pos', c'.On G pos' → pos ≤ pos' → (item before).Proceeds G enough (Later pos') c') {fuel : Nat}
    {before : List α} (hc : c.On G pos) (hfuel : enough → G.tokens.length ≤ fuel + pos) :
    (upTo closer item fuel before).Proceeds G enough (fun _ pos' => pos ≤ pos') c := by
  induction fuel generalizing before c pos with
  | zero =>
    refine proceeds_exhausted fun henough => ?_
    have hlt := hc.lt
    have hle := hfuel henough
    omega
  | succ fuel ih =>
    refine proceeds_current ?_
    split
    · exact proceeds_pure hc (Nat.le_refl pos)
    · refine (h before c pos hc (Nat.le_refl pos)).bind fun a c₁ pos₁ hc₁ (hlt : pos < pos₁) => ?_
      have hitem : ∀ before c' pos', c'.On G pos' → pos₁ ≤ pos' → (item before).Proceeds G enough (Later pos') c' :=
        fun before c' pos' hc' hle => h before c' pos' hc' (Nat.le_trans (Nat.le_of_lt hlt) hle)
      refine (ih hitem hc₁ fun henough => ?_).mono fun _ _ (hle : pos₁ ≤ _) => Nat.le_trans (Nat.le_of_lt hlt) hle
      have hle := hfuel henough
      omega

end Reader

open Reader

/-! ### Types -/

namespace Ty

private theorem proceeds_readBase (hc : c.On G pos) : readBase.Proceeds G enough (Later pos) c := by
  refine proceeds_current ?_
  split
  · refine (proceeds_ident hc).bind fun name c₁ pos₁ hc₁ ⟨hlt, hname⟩ => ?_
    split
    · exact proceeds_pure hc₁ hlt
    · exact (proceeds_warn hc₁ hname).bind fun _ c₂ pos₂ hc₂ heq => proceeds_pure hc₂ (heq ▸ hlt)
  · rename_i hnull
    exact (proceeds_advance hc (by simp [hnull])).bind fun _ c₁ pos₁ hc₁ ⟨hlt, _⟩ => proceeds_pure hc₁ hlt
  · exact proceeds_failHere hc

private theorem proceeds_readBrackets (hc : c.On G pos) : readBrackets.Proceeds G enough (Later pos) c :=
  (proceeds_expectSymbol hc _).bind fun _ _ _ hc₁ ⟨hlt₁, _⟩ => proceeds_closing hc₁ (Nat.le_of_lt hlt₁) _ _

private theorem proceeds_readSuffix (fuel : Nat) (t : Ty) (hc : c.On G pos) :
    (readSuffix fuel t).Proceeds G (G.tokens.length ≤ fuel + pos) (fun _ pos' => pos ≤ pos') c := by
  induction fuel generalizing t c pos with
  | zero =>
    have hlt := hc.lt
    exact proceeds_exhausted (by omega)
  | succ fuel ih =>
    refine proceeds_at? ?_
    split
    · refine (proceeds_readBrackets hc).bind fun _ c₁ pos₁ hc₁ (hlt : pos < pos₁) => ?_
      exact ((ih _ hc₁).given (by omega)).mono fun _ _ (hle : pos₁ ≤ _) => by omega
    · exact proceeds_pure hc (Nat.le_refl pos)

theorem proceeds_read (fuel : Nat) (hc : c.On G pos) :
    (read fuel).Proceeds G (G.tokens.length ≤ fuel + pos) (Later pos) c := by
  induction fuel generalizing c pos with
  | zero =>
    have hlt := hc.lt
    exact proceeds_exhausted (by omega)
  | succ fuel ih =>
    refine proceeds_at? ?_
    split
    · refine (proceeds_readBrackets hc).bind fun _ c₁ pos₁ hc₁ (hlt : pos < pos₁) => ?_
      refine ((ih hc₁).given (by omega)).bind fun _ c₂ pos₂ hc₂ (hlt₂ : pos₁ < pos₂) => ?_
      exact ((proceeds_readSuffix fuel _ hc₂).given (by omega)).mono fun _ _ (hle : pos₂ ≤ _) =>
        Nat.lt_of_lt_of_le (Nat.lt_trans hlt hlt₂) hle
    · refine (proceeds_readBase hc).bind fun base c₁ pos₁ hc₁ (hlt : pos < pos₁) => ?_
      exact ((proceeds_readSuffix fuel base hc₁).given (by omega)).mono fun _ _ (hle : pos₁ ≤ _) =>
        Nat.lt_of_lt_of_le hlt hle

theorem proceeds_readReturn (fuel : Nat) (hc : c.On G pos) :
    (readReturn fuel).Proceeds G (G.tokens.length ≤ fuel + pos) (fun _ pos' => pos ≤ pos') c := by
  refine (proceeds_eat hc (by simp)).bind fun _ c₁ pos₁ hc₁ (hle : pos ≤ pos₁) => ?_
  split
  · exact ((proceeds_read fuel hc₁).given (by omega)).mono fun _ _ (hlt : pos₁ < _) => by omega
  · exact proceeds_pure hc₁ hle

end Ty

/-! ### Expressions -/

namespace Expr

private theorem proceeds_readLiteral (value : Literal) (hc : c.On G pos) (hne : c.next.kind ≠ .eof) :
    (readLiteral value).Proceeds G enough (Noted G span pos) c :=
  (proceeds_advance hc hne).bind fun _ _ _ hc₁ htoken => proceeds_pure hc₁ htoken

private theorem proceeds_readNumber (hc : c.On G pos) (hne : c.next.kind ≠ .eof) :
    readNumber.Proceeds G enough (Noted G span pos) c := by
  refine (proceeds_advance hc hne).bind fun token c₁ pos₁ hc₁ htoken => ?_
  split
  · exact proceeds_pure hc₁ htoken
  · exact proceeds_fail htoken.2

/-- What the readers of expressions do with the given fuel.  Between two tokens they call each other at most four
times. -/
structure Forward (G : Ground) (fuel : Nat) : Prop where
  read : ∀ {floor : Precedence} {c : Cursor} {pos : Nat}, c.On G pos →
    (read fuel floor).Proceeds G (4 * G.tokens.length + 3 ≤ fuel + 4 * pos) (Noted G span pos) c
  head : ∀ {c : Cursor} {pos : Nat}, c.On G pos →
    (readHead fuel).Proceeds G (4 * G.tokens.length + 1 ≤ fuel + 4 * pos) (Noted G span pos) c
  build : ∀ {name : Ident} {c : Cursor} {pos : Nat}, c.On G pos → G.Marked name.span →
    (readBuild fuel name).Proceeds G (4 * G.tokens.length ≤ fuel + 4 * pos) (Noted G span pos) c
  field : ∀ (before : List (Ident × Expr)) {c : Cursor} {pos : Nat}, c.On G pos →
    (readField fuel before).Proceeds G (4 * G.tokens.length ≤ fuel + 4 * pos) (Later pos) c
  tail : ∀ {floor : Precedence} {left : Expr} {c : Cursor} {pos : Nat}, c.On G pos → G.Marked left.span →
    (readTail fuel floor left).Proceeds G (4 * G.tokens.length + 1 ≤ fuel + 4 * pos)
      (fun e pos' => pos ≤ pos' ∧ G.Marked e.span) c
  continuation : ∀ {left : Expr} {k : Continuation} {c : Cursor} {pos : Nat}, c.On G pos → G.Marked left.span →
    c.next.kind ≠ .eof →
    (readContinuation fuel left k).Proceeds G (4 * G.tokens.length ≤ fuel + 4 * pos) (Noted G span pos) c

namespace Forward

variable {fuel : Nat} (ih : Forward G fuel)
include ih

/-- The elements of an array or the arguments of a call. -/
private theorem items (closer : Symbol) (hc : c.On G pos) :
    (upTo closer (fun _ => listed closer (Expr.read fuel .comma)) fuel []).Proceeds G
      (4 * G.tokens.length + 3 ≤ fuel + 4 * pos) (fun _ pos' => pos ≤ pos') c := by
  have hlt := hc.lt
  refine proceeds_upTo closer (fun _ c' pos' hc' hle => Proceeds.listed ?_ closer) hc (by omega)
  exact ((ih.read hc').given (by omega)).mono fun _ _ h => h.1

private theorem read_succ (floor : Precedence) (hc : c.On G pos) :
    (Expr.read (fuel + 1) floor).Proceeds G (4 * G.tokens.length + 3 ≤ fuel + 1 + 4 * pos) (Noted G span pos) c := by
  rw [Expr.read]
  refine ((ih.head hc).given (by omega)).bind fun head c₁ pos₁ hc₁ ⟨hlt, hhead⟩ => ?_
  exact ((ih.tail hc₁ hhead).given (by omega)).mono fun _ _ h => ⟨Nat.lt_of_lt_of_le hlt h.1, h.2⟩

private theorem head_succ (hc : c.On G pos) :
    (readHead (fuel + 1)).Proceeds G (4 * G.tokens.length + 1 ≤ fuel + 1 + 4 * pos) (Noted G span pos) c := by
  rw [readHead]
  refine proceeds_current ?_
  split
  case h_1 hkind => exact proceeds_readNumber hc (by simp [hkind])
  case h_2 hkind => exact proceeds_readLiteral _ hc (by simp [hkind])
  case h_3 hkind => exact proceeds_readLiteral _ hc (by simp [hkind])
  case h_4 hkind => exact proceeds_readLiteral _ hc (by simp [hkind])
  case h_5 hkind => exact proceeds_readLiteral _ hc (by simp [hkind])
  case h_6 hkind => exact proceeds_readLiteral _ hc (by simp [hkind])
  case h_7 hkind =>
    refine proceeds_cursor ?_ fun more => by rw [hc.startsWith_extend G.closed (by decide)]
    refine (proceeds_ident hc).bind fun name c₁ pos₁ hc₁ ⟨hlt, hname⟩ => ?_
    split
    · exact ((ih.build hc₁ hname).given (by omega)).mono fun _ _ h => ⟨Nat.lt_trans hlt h.1, h.2⟩
    · exact proceeds_pure hc₁ ⟨hlt, hname⟩
  case h_8 hkind =>
    refine (proceeds_advance hc (by simp [hkind])).bind fun _ c₁ pos₁ hc₁ ⟨hlt₁, _⟩ => ?_
    refine ((ih.read hc₁).given (by omega)).bind fun inner c₂ pos₂ hc₂ ⟨hlt₂, hinner⟩ => ?_
    refine (proceeds_expectSymbol hc₂ _).bind fun _ c₃ pos₃ hc₃ ⟨hlt₃, _⟩ => ?_
    exact proceeds_pure hc₃ ⟨by omega, hinner⟩
  case h_9 hkind =>
    refine (proceeds_advance hc (by simp [hkind])).bind fun opening c₁ pos₁ hc₁ ⟨hlt₁, hopening⟩ => ?_
    refine ((ih.items .rBracket hc₁).given (by omega)).bind fun elements c₂ pos₂ hc₂ (hle : pos₁ ≤ pos₂) => ?_
    refine (proceeds_expectSymbol hc₂ _).bind fun closing c₃ pos₃ hc₃ ⟨hlt₃, hclosing⟩ => ?_
    exact proceeds_pure hc₃ ⟨by omega, G.merge hopening hclosing⟩
  case h_10 s _ _ hkind =>
    split
    · refine (proceeds_advance hc (by simp [hkind])).bind fun opening c₁ pos₁ hc₁ ⟨hlt₁, hopening⟩ => ?_
      refine ((ih.read hc₁).given (by omega)).bind fun operand c₂ pos₂ hc₂ ⟨hlt₂, hoperand⟩ => ?_
      exact proceeds_pure hc₂ ⟨Nat.lt_trans hlt₁ hlt₂, G.merge hopening hoperand⟩
    · exact proceeds_failHere hc
  case h_11 => exact proceeds_failHere hc

private theorem build_succ (name : Ident) (hc : c.On G pos) (hname : G.Marked name.span) :
    (readBuild (fuel + 1) name).Proceeds G (4 * G.tokens.length ≤ fuel + 1 + 4 * pos) (Noted G span pos) c := by
  rw [readBuild]
  refine (proceeds_expectSymbol hc _).bind fun _ c₁ pos₁ hc₁ ⟨hlt₁, _⟩ => ?_
  have hinside := hc₁.lt
  have hfields : (upTo .rBrace (fun before => listed .rBrace (readField fuel before)) fuel []).Proceeds G
      (4 * G.tokens.length ≤ fuel + 1 + 4 * pos) (fun _ pos' => pos₁ ≤ pos') c₁ :=
    proceeds_upTo .rBrace (fun before _ _ hc' _ => ((ih.field before hc').given (by omega)).listed .rBrace)
      hc₁ (by omega)
  refine hfields.bind fun fields c₂ pos₂ hc₂ (hle : pos₁ ≤ pos₂) => ?_
  refine (proceeds_expectSymbol hc₂ _).bind fun closing c₃ pos₃ hc₃ ⟨hlt₃, hclosing⟩ => ?_
  exact proceeds_pure hc₃ ⟨by omega, G.merge hname hclosing⟩

private theorem field_succ (before : List (Ident × Expr)) (hc : c.On G pos) :
    (readField (fuel + 1) before).Proceeds G (4 * G.tokens.length ≤ fuel + 1 + 4 * pos) (Later pos) c := by
  rw [readField]
  refine (proceeds_ident hc).bind fun name c₁ pos₁ hc₁ ⟨hlt₁, hname⟩ => ?_
  split
  · exact proceeds_fail hname
  · refine (proceeds_expectSymbol hc₁ _).bind fun _ c₂ pos₂ hc₂ ⟨hlt₂, _⟩ => ?_
    refine ((ih.read hc₂).given (by omega)).bind fun value c₃ pos₃ hc₃ ⟨hlt₃, _⟩ => ?_
    exact proceeds_pure hc₃ (Nat.lt_trans hlt₁ (Nat.lt_trans hlt₂ hlt₃))

private theorem tail_succ (floor : Precedence) (left : Expr) (hc : c.On G pos) (hleft : G.Marked left.span) :
    (readTail (fuel + 1) floor left).Proceeds G (4 * G.tokens.length + 1 ≤ fuel + 1 + 4 * pos)
      (fun e pos' => pos ≤ pos' ∧ G.Marked e.span) c := by
  rw [readTail]
  refine proceeds_current ?_
  split
  · exact proceeds_pure hc ⟨Nat.le_refl pos, hleft⟩
  · rename_i k hk
    split
    · have hne : c.next.kind ≠ .eof := by
        intro heof
        rw [heof] at hk
        cases hk
      refine ((ih.continuation hc hleft hne).given (by omega)).bind fun longer c₁ pos₁ hc₁ ⟨hlt, hlonger⟩ => ?_
      exact ((ih.tail hc₁ hlonger).given (by omega)).mono fun _ _ h => ⟨by omega, h.2⟩
    · exact proceeds_pure hc ⟨Nat.le_refl pos, hleft⟩

private theorem continuation_succ (left : Expr) (k : Continuation) (hc : c.On G pos) (hleft : G.Marked left.span)
    (hne : c.next.kind ≠ .eof) :
    (readContinuation (fuel + 1) left k).Proceeds G (4 * G.tokens.length ≤ fuel + 1 + 4 * pos)
      (Noted G span pos) c := by
  cases k with
  | binary op =>
    rw [readContinuation]
    refine (proceeds_advance hc hne).bind fun token c₁ pos₁ hc₁ ⟨hlt₁, _⟩ => ?_
    refine ((ih.read hc₁).given (by omega)).bind fun right c₂ pos₂ hc₂ ⟨hlt₂, hright⟩ => ?_
    exact proceeds_pure hc₂ ⟨Nat.lt_trans hlt₁ hlt₂, G.merge hleft hright⟩
  | assign op =>
    rw [readContinuation]
    split
    · refine (proceeds_advance hc hne).bind fun token c₁ pos₁ hc₁ ⟨hlt₁, _⟩ => ?_
      refine ((ih.read hc₁).given (by omega)).bind fun value c₂ pos₂ hc₂ ⟨hlt₂, hvalue⟩ => ?_
      exact proceeds_pure hc₂ ⟨Nat.lt_trans hlt₁ hlt₂, G.merge hleft hvalue⟩
    · exact proceeds_fail hleft
  | call =>
    unfold readContinuation
    split
    · refine (proceeds_expectSymbol hc _).bind fun _ c₁ pos₁ hc₁ ⟨hlt₁, _⟩ => ?_
      refine ((ih.items .rParen hc₁).given (by omega)).bind fun arguments c₂ pos₂ hc₂ (hle : pos₁ ≤ pos₂) => ?_
      refine (proceeds_expectSymbol hc₂ _).bind fun closing c₃ pos₃ hc₃ ⟨hlt₃, hclosing⟩ => ?_
      exact proceeds_pure hc₃ ⟨by omega, G.merge hleft hclosing⟩
    · exact proceeds_fail hleft
  | step op =>
    rw [readContinuation]
    refine (proceeds_advance hc hne).bind fun token c₁ pos₁ hc₁ ⟨hlt₁, htoken⟩ => ?_
    split
    · exact proceeds_pure hc₁ ⟨hlt₁, G.merge hleft htoken⟩
    · exact proceeds_fail (G.merge hleft htoken)
  | property =>
    rw [readContinuation]
    refine (proceeds_expectSymbol hc _).bind fun _ c₁ pos₁ hc₁ ⟨hlt₁, _⟩ => ?_
    refine (proceeds_ident hc₁).bind fun name c₂ pos₂ hc₂ ⟨hlt₂, hname⟩ => ?_
    exact proceeds_pure hc₂ ⟨Nat.lt_trans hlt₁ hlt₂, G.merge hleft hname⟩
  | index =>
    unfold readContinuation
    split
    · refine (proceeds_expectSymbol hc _).bind fun _ c₁ pos₁ hc₁ ⟨hlt₁, _⟩ => ?_
      refine ((ih.read hc₁).given (by omega)).bind fun position c₂ pos₂ hc₂ ⟨hlt₂, _⟩ => ?_
      refine (proceeds_expectSymbol hc₂ _).bind fun closing c₃ pos₃ hc₃ ⟨hlt₃, hclosing⟩ => ?_
      exact proceeds_pure hc₃ ⟨by omega, G.merge hleft hclosing⟩
    · exact proceeds_fail hleft

end Forward

/-- The readers of expressions keep the contract. -/
theorem forward (G : Ground) (fuel : Nat) : Forward G fuel := by
  induction fuel with
  | zero =>
    constructor
    case read => exact fun hc => proceeds_exhausted (by have hlt := hc.lt; omega)
    case head => exact fun hc => proceeds_exhausted (by have hlt := hc.lt; omega)
    case build => exact fun hc _ => proceeds_exhausted (by have hlt := hc.lt; omega)
    case field => exact fun _ _ _ hc => proceeds_exhausted (by have hlt := hc.lt; omega)
    case tail => exact fun hc _ => proceeds_exhausted (by have hlt := hc.lt; omega)
    case continuation => exact fun hc _ _ => proceeds_exhausted (by have hlt := hc.lt; omega)
  | succ fuel ih =>
    exact ⟨ih.read_succ _, ih.head_succ, ih.build_succ _, fun before _ _ => ih.field_succ before, ih.tail_succ _ _,
      ih.continuation_succ _ _⟩

end Expr

end BraceScript
