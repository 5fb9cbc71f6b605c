import BraceScript.Proofs.Fuel
import BraceScript.Proofs.Places
import BraceScript.Proofs.Rendering
import BraceScript.Proofs.StatementCompleteness

/-!
# Programs in two parts

A program can be run in parts: two sources one after the other do what one source with both texts does
(`Session.evaluate_join`).

The lexer does not let a token or a comment of the first text reach into the second (`Token.cuts_endsLine`), so the
tokens of the whole are those of the parts.  These form the entries of both parts in a row, and what is formed is
read (`Program.ofTokens_of_forms`): nothing at the seam can be taken for the continuation of a statement.  In the end
the statements of the whole are run as those of the parts, since the first run leaves the root scope where it is.
-/

namespace BraceScript

/-! ### Tokens in front of a new line -/

namespace Lexeme

variable {c : Char} {cs rest : List Char}

/-- The text ends here, or its next line begins. -/
def EndsLine (rest : List Char) : Prop := ∀ d ∈ rest.head?, d = '\n'

private theorem Stops.append {p : Char → Bool} (h : Stops p cs) (h' : Stops p rest) : Stops p (cs ++ rest) := by
  cases cs with
  | nil => exact h'
  | cons d cs => exact h

private theorem EndsLine.stops (h : EndsLine rest) {p : Char → Bool} (hp : p '\n' = false) : Stops p rest :=
  fun d hd => by rw [h d hd, hp]

private theorem takeWhile_endsLine (h : EndsLine rest) {p : Char → Bool} (hp : p '\n' = false) (cs : List Char) :
    (cs ++ rest).takeWhile p = cs.takeWhile p := by
  obtain ⟨part, more, rfl, hpart, hmore⟩ := exists_run p cs
  rw [List.append_assoc, takeWhile_eq hpart (hmore.append (h.stops hp)), takeWhile_eq hpart hmore]

private theorem numberTail_endsLine (h : EndsLine rest) (cs : List Char) :
    numberTail (cs ++ rest) = numberTail cs := by
  have hdigit : Stops Char.isDigit rest := h.stops rfl
  rcases number_cases cs with
      ⟨part, more, rfl, hpart, hmore, hpoint⟩ | ⟨part, d, ds, more, rfl, hpart, hd, hds, hmore⟩
  · rw [List.append_assoc, numberTail_whole hpart hmore hpoint]
    refine numberTail_whole hpart (hmore.append hdigit) fun ds hds => ?_
    cases more with
    | nil => exact absurd (h '.' (by rw [show rest = '.' :: ds from hds]; rfl)) (by decide)
    | cons e more =>
      obtain ⟨rfl, rfl⟩ := List.cons.inj hds
      exact (hpoint more rfl).append hdigit
  · rw [List.append_assoc, numberTail_fraction hpart hd hds hmore]
    exact numberTail_fraction hpart hd hds (hmore.append hdigit)

private theorem readString_append (h : (readString cs).role ≠ .unexpected) :
    readString (cs ++ rest) = readString cs := by
  obtain ⟨part, more, rfl, hpart, hmore⟩ := exists_run (· ≠ '"') cs
  cases more with
  | nil =>
    have hread : readString (part ++ []) = ⟨.unexpected, (part ++ []).length⟩ := by
      simp only [readString, takeWhile_eq hpart hmore]
      exact if_neg (by simp)
    rw [hread] at h
    exact absurd rfl h
  | cons d more =>
    have hmore' : Stops (· ≠ '"') (d :: more ++ rest) := hmore
    rw [List.append_assoc]
    simp only [readString, takeWhile_eq hpart hmore, takeWhile_eq hpart hmore']
    rw [if_pos (by simp), if_pos (by simp)]

private theorem readChar_append (h : (readChar cs).role ≠ .unexpected) : readChar (cs ++ rest) = readChar cs := by
  unfold readChar at h
  split at h
  · rfl
  · exact absurd rfl h

private theorem readSymbol_endsLine (h : EndsLine rest) (c : Char) (cs : List Char) :
    readSymbol c (cs ++ rest) = readSymbol c cs := by
  cases cs with
  | cons d cs => rfl
  | nil =>
    cases rest with
    | nil => rfl
    | cons d rest =>
      obtain rfl := h d rfl
      have hpair : Symbol.ofPair? c '\n' = none := by
        unfold Symbol.ofPair?
        split <;> first | rfl | contradiction
      simp [readSymbol, hpair]

private theorem readMark_endsLine (h : EndsLine rest) (hmark : isMark c = true)
    (hcomment : (read c cs).role ≠ .unterminatedComment) : read c (cs ++ rest) = read c cs := by
  rcases comment_cases c cs with hplain | ⟨more, rfl, rfl⟩ | ⟨more, rfl, rfl⟩
  · have hplain' : c = '/' → ∀ d ∈ (cs ++ rest).head?, d ≠ '/' ∧ d ≠ '*' := by
      intro hc d hd
      cases cs with
      | nil =>
        rw [h d hd]
        decide
      | cons e cs => exact hplain hc d hd
    rw [read_mark hmark hplain, read_mark hmark hplain', readSymbol_endsLine h]
  · rw [List.cons_append, read_lineComment, read_lineComment, takeWhile_endsLine h (by decide)]
  · cases hend : commentEnd? more with
    | none =>
      rw [read_openComment hend] at hcomment
      exact absurd rfl hcomment
    | some n =>
      obtain ⟨body, behind, rfl, rfl, hbody⟩ := commentEnd?_eq_some hend
      have hend' := commentEnd?_append hbody (behind ++ rest)
      rw [read_comment hend]
      simpa using read_comment hend'

/-- What is read in front of the end of a line is read as if the text ended there. -/
private theorem read_endsLine (h : EndsLine rest) (hblank : ¬ isBlank c = true)
    (hunexpected : (read c cs).role ≠ .unexpected) (hcomment : (read c cs).role ≠ .unterminatedComment) :
    read c (cs ++ rest) = read c cs := by
  cases firstChar c with
  | blank hblank' _ => exact absurd hblank' hblank
  | digit hread => rw [hread, hread, numberTail_endsLine h]
  | word hread =>
    rw [hread, hread]
    simp only [readWord, takeWhile_endsLine h (show isIdentPart '\n' = false by decide)]
  | quote hread =>
    rw [hread] at hunexpected
    rw [hread, hread, readString_append hunexpected]
  | apostrophe hread =>
    rw [hread] at hunexpected
    rw [hread, hread, readChar_append hunexpected]
  | mark hmark => exact readMark_endsLine h hmark hcomment

private theorem numberTail_le (cs : List Char) : numberTail cs ≤ cs.length := by
  rcases number_cases cs with
      ⟨part, rest, rfl, hpart, hrest, hpoint⟩ | ⟨part, d, ds, rest, rfl, hpart, hd, hds, hrest⟩
  · simp [numberTail_whole hpart hrest hpoint]
  · have htail := numberTail_fraction hpart hd hds hrest
    simp only [htail, List.length_append, List.length_cons]
    omega

private theorem readMark_tail_le (hmark : isMark c = true) (cs : List Char) : (read c cs).tail ≤ cs.length := by
  rcases comment_cases c cs with hplain | ⟨more, rfl, rfl⟩ | ⟨more, rfl, rfl⟩
  · rw [read_mark hmark hplain]
    unfold readSymbol
    split
    · rename_i hpair
      obtain ⟨d, hd, -⟩ := Option.bind_eq_some_iff.1 hpair
      obtain ⟨more, rfl⟩ := List.head?_eq_some_iff.1 hd
      simp
    · exact Nat.zero_le _
    · exact Nat.zero_le _
  · have hle : (more.takeWhile (· ≠ '\n')).length ≤ more.length := (List.takeWhile_prefix _).length_le
    simp only [read_lineComment, List.length_cons]
    omega
  · cases hend : commentEnd? more with
    | none =>
      simp only [read_openComment hend, List.length_cons]
      omega
    | some n =>
      obtain ⟨body, behind, rfl, rfl, -⟩ := commentEnd?_eq_some hend
      simp only [read_comment hend, List.length_cons, List.length_append]
      omega

/-- No more is read than there is. -/
private theorem tail_le (c : Char) (cs : List Char) : (read c cs).tail ≤ cs.length := by
  have hwhile (p : Char → Bool) : (cs.takeWhile p).length ≤ cs.length := (List.takeWhile_prefix p).length_le
  cases firstChar c with
  | blank _ hread =>
    rw [hread]
    exact hwhile isBlank
  | digit hread =>
    rw [hread]
    exact numberTail_le cs
  | word hread =>
    rw [hread]
    simp only [readWord]
    split <;> exact hwhile isIdentPart
  | quote hread =>
    rw [hread]
    simp only [readString]
    split
    · assumption
    · exact Nat.le_refl _
  | apostrophe hread =>
    rw [hread]
    unfold readChar
    split
    · split <;> simp
    · exact Nat.zero_le _
  | mark hmark => exact readMark_tail_le hmark cs

end Lexeme

namespace Token

open Lexeme

variable {cs rest : List Char}

private theorem Cuts.skip_blank {P : List Token → Prop} {c : Char} (hc : isBlank c = true) (h : Cuts cs rest P) :
    Cuts (c :: cs) rest P := by
  intro p done
  obtain ⟨stop, u, hscan, hu⟩ := h (p.step c) done
  exact ⟨stop, u, by rw [List.cons_append, scanFrom_skip_blank hc, hscan], hu⟩

/-- A comment, or what else is left out, in front of the text. -/
private theorem Cuts.skip {P : List Token → Prop} {c : Char} {k : Nat}
    (hread : Lexeme.read c (cs ++ rest) = ⟨.blank, k⟩) (hk : k ≤ cs.length) (h : Cuts (cs.drop k) rest P) :
    Cuts (c :: cs) rest P := by
  intro p done
  obtain ⟨stop, u, hscan, hu⟩ := h (p.advance (c :: (cs ++ rest).take k)) done
  exact ⟨stop, u, by rw [List.cons_append, scanFrom_blank hread, List.drop_append_of_le_length hk, hscan], hu⟩

/-- A token in front of the text. -/
private theorem Cuts.token {P : List Token → Prop} {c : Char} {kind : Kind} {k : Nat}
    (hread : Lexeme.read c (cs ++ rest) = ⟨.token kind, k⟩) (hk : k ≤ cs.length) (h : Cuts (cs.drop k) rest P) :
    Cuts (c :: cs) rest fun u => ∃ span v, u = ⟨kind, textOf kind (c :: cs.take k), span⟩ :: v ∧ P v := by
  have hfirst : Cuts (c :: cs.take k) (cs.drop k ++ rest) (Only kind (textOf kind (c :: cs.take k))) := by
    apply Cuts.of_read
    rw [← List.append_assoc, List.take_append_drop, hread, List.length_take, Nat.min_eq_left hk]
  have hboth := hfirst.append h
  rw [List.cons_append, List.take_append_drop] at hboth
  refine hboth.mono ?_
  rintro _ ⟨_, v, rfl, ⟨span, rfl⟩, hv⟩
  exact ⟨span, v, rfl, hv⟩

/-- What is read from a text without faults is no fault. -/
private theorem role_of_scanFrom {p : Position} {done tokens : List Token} {c : Char}
    (h : scanFrom p done (c :: cs) = (tokens, none)) :
    (Lexeme.read c cs).role ≠ .unexpected ∧ (Lexeme.read c cs).role ≠ .unterminatedComment := by
  cases hread : Lexeme.read c cs with
  | mk role k =>
    rw [scanFrom] at h
    simp only [hread] at h
    constructor
    · rintro rfl
      cases h
    · rintro rfl
      cases h

/-- A text without faults is cut in front of the end of a line as it is cut alone. -/
theorem cuts_endsLine (hrest : EndsLine rest) {p : Position} {done tokens : List Token}
    (h : scanFrom p done cs = (tokens, none)) : ∃ front stop, tokens = done.reverse ++ front ++ [eofAt stop] ∧
      (∀ t ∈ front, t.kind ≠ .eof) ∧
      Cuts cs rest fun u => u.map (fun t => (t.kind, t.text)) = front.map fun t => (t.kind, t.text) := by
  -- blanks are taken one at a time, since those at the end of the text may go on behind it
  induction hn : cs.length using Nat.strongRecOn generalizing cs p done with
  | ind n ih =>
    cases cs with
    | nil =>
      rw [scanFrom] at h
      cases h
      exact ⟨[], p, by simp, by simp, fun p done => ⟨p, [], rfl, rfl⟩⟩
    | cons c cs =>
      rw [List.length_cons] at hn
      by_cases hblank : isBlank c = true
      · rw [scanFrom_skip_blank hblank] at h
        obtain ⟨front, stop, htokens, hne, hcuts⟩ := ih cs.length (by omega) h rfl
        exact ⟨front, stop, htokens, hne, hcuts.skip_blank hblank⟩
      · obtain ⟨hunexpected, hcomment⟩ := role_of_scanFrom h
        have hsame := read_endsLine hrest hblank hunexpected hcomment
        have htail := tail_le c cs
        cases hread : Lexeme.read c cs with
        | mk role k =>
          rw [hread] at hsame htail hunexpected hcomment
          have hless : (cs.drop k).length < n := by
            rw [List.length_drop]
            omega
          cases role with
          | token kind =>
            rw [scanFrom_token hread] at h
            obtain ⟨front, stop, rfl, hne, hcuts⟩ := ih _ hless h rfl
            refine ⟨⟨kind, textOf kind (c :: cs.take k), ⟨p, p.advance (c :: cs.take k)⟩⟩ :: front,
              stop, by simp, ?_, ?_⟩
            · exact List.forall_mem_cons.2 ⟨kind_ne_eof_of_rule (read_rule hread), hne⟩
            · refine (hcuts.token hsame htail).mono ?_
              rintro _ ⟨span, v, rfl, hv⟩
              simp [hv]
          | blank =>
            rw [scanFrom_blank hread] at h
            obtain ⟨front, stop, htokens, hne, hcuts⟩ := ih _ hless h rfl
            exact ⟨front, stop, htokens, hne, hcuts.skip hsame htail⟩
          | unterminatedComment => exact absurd rfl hcomment
          | unexpected => exact absurd rfl hunexpected

private theorem scan_of_tokenize {source : String} {tokens : List Token} (h : tokenize source = .ok tokens) :
    scan source = (tokens, none) := by
  unfold tokenize at h
  split at h
  · rename_i hscan
    cases h
    exact hscan
  · cases h

/-- The tokens of two texts, with a new line between them, are those of the first followed by those of the second. -/
private theorem tokenize_join {source₁ source₂ : String} {ts₁ ts₂ : List Token} (h₁ : tokenize source₁ = .ok ts₁)
    (h₂ : tokenize source₂ = .ok ts₂) : ∃ front₁ front₂ stop₁ stop₂ tokens stop,
      ts₁ = front₁ ++ [eofAt stop₁] ∧ ts₂ = front₂ ++ [eofAt stop₂] ∧ (∀ t ∈ front₁, t.kind ≠ .eof) ∧
      (∀ t ∈ front₂, t.kind ≠ .eof) ∧ tokenize (source₁ ++ "\n" ++ source₂) = .ok (tokens ++ [eofAt stop]) ∧
      tokens.map (fun t => (t.kind, t.text)) = (front₁ ++ front₂).map fun t => (t.kind, t.text) := by
  have hline : EndsLine ('\n' :: source₂.toList) := fun d hd => (Option.some.inj hd).symm
  have hend : EndsLine [] := nofun
  obtain ⟨front₁, stop₁, rfl, hne₁, hcuts₁⟩ := cuts_endsLine hline (scan_of_tokenize h₁)
  obtain ⟨front₂, stop₂, rfl, hne₂, hcuts₂⟩ := cuts_endsLine hend (scan_of_tokenize h₂)
  obtain ⟨middle, u₁, hjoin₁, hu₁⟩ := hcuts₁ .start []
  obtain ⟨stop, u₂, hjoin₂, hu₂⟩ := hcuts₂ (middle.step '\n') (u₁.reverse ++ [])
  refine ⟨front₁, front₂, stop₁, stop₂, u₁ ++ u₂, stop, rfl, rfl, hne₁, hne₂, ?_, by simp [hu₁, hu₂]⟩
  have htext : (source₁ ++ "\n" ++ source₂).toList = source₁.toList ++ '\n' :: source₂.toList := by simp
  have hblank : isBlank '\n' = true := rfl
  have hscan : scan (source₁ ++ "\n" ++ source₂) = (u₁ ++ u₂ ++ [eofAt stop], none) := by
    rw [List.append_nil source₂.toList] at hjoin₂
    rw [scan, htext, hjoin₁, scanFrom_skip_blank hblank, hjoin₂, scanFrom]
    simp
  rw [tokenize, hscan]

end Token

/-! ### Programs one after the other -/

namespace Program

/-- Whether a source declares the name of its module. -/
def declaresModule (source : String) : Bool :=
  match Token.tokenize source with
  | .ok tokens => (declaredName? tokens).isSome
  | .error _ => false

private theorem parse_eq_ok {source file : String} {p : Parsed} (h : parse source file = .ok p) :
    ∃ tokens, Token.tokenize source = .ok tokens ∧ ofTokens tokens file = .ok p := by
  unfold parse at h
  split at h
  · exact ⟨_, ‹_›, h⟩
  · cases h

/-- Tokens of the same kinds and texts are read as programs that differ only in places. -/
private theorem ofTokens_of_contents {ts₁ ts₂ : List Token} {file : String} {p : Parsed}
    (hsame : ts₁.map (fun t => (t.kind, t.text)) = ts₂.map (fun t => (t.kind, t.text)))
    (h : ofTokens ts₁ file = .ok p) : ∃ q, ofTokens ts₂ file = .ok q ∧ q.program.erase = p.program.erase := by
  have hread := ofTokens_erase ts₂ file
  rw [← Token.erase_eq_of_contents hsame, ofTokens_erase, h] at hread
  cases hr : ofTokens ts₂ file with
  | ok q =>
    rw [hr] at hread
    exact ⟨q, rfl, (congrArg Parsed.program (Except.ok.inj hread)).symm⟩
  | error e =>
    rw [hr] at hread
    cases hread

/-- The tokens in front of the first end of the text. -/
private theorem front_eq {front t rest : List Token} {last eof : Token} (h : front ++ [last] = t ++ eof :: rest)
    (hfront : ∀ token ∈ front, token.kind ≠ .eof) (heof : eof.kind = .eof) : t = front := by
  rcases List.append_eq_append_iff.1 h with ⟨more, rfl, hmore⟩ | ⟨more, rfl, hmore⟩
  · cases more with
    | nil => simp
    | cons x more => simp at hmore
  · cases more with
    | nil => simp
    | cons x more =>
      obtain ⟨rfl, -⟩ := List.cons.inj hmore
      exact absurd heof (hfront _ (by simp))

/-- The entries of a source, which are formed by its tokens up to the end of the text. -/
private theorem forms_of_parse {source file : String} {p : Parsed} (h : parse source file = .ok p)
    {front : List Token} {stop : Position} (htokens : Token.tokenize source = .ok (front ++ [Token.eofAt stop]))
    (hfront : ∀ token ∈ front, token.kind ≠ .eof) :
    ∃ entries, Forms front entries ∧ p.program.Consists file entries ∧
      (entries.filterMap Entry.module?).length = (declaresModule source).toNat := by
  rw [parse_of_tokenize htokens] at h
  obtain ⟨t, eof, rest, entries, hsplit, heof, -, hforms, hconsists, hname, -⟩ :=
    forms_of_ofTokens ⟨Token.eofAt stop, by simp, rfl⟩ h
  obtain rfl := front_eq hsplit hfront heof
  have hdeclares : declaresModule source = (declaredName? (t ++ [Token.eofAt stop])).isSome := by
    rw [declaresModule, htokens]
  refine ⟨entries, hforms, hconsists, ?_⟩
  rw [hname, hdeclares]
  cases declaredName? (t ++ [Token.eofAt stop]) <;> rfl

/-- Two sources of which at most one names its module, with a new line between them, are one program with the imports
and the contents of both. -/
private theorem parse_join {source₁ source₂ file : String} {p₁ p₂ : Parsed} (h₁ : parse source₁ file = .ok p₁)
    (h₂ : parse source₂ file = .ok p₂)
    (hmodule : ¬ (declaresModule source₁ = true ∧ declaresModule source₂ = true)) :
    ∃ p, parse (source₁ ++ "\n" ++ source₂) file = .ok p ∧
      p.program.imports.map Import.erase = (p₁.program.imports ++ p₂.program.imports).map Import.erase ∧
      p.program.contents.map Stmt.erase = (p₁.program.contents ++ p₂.program.contents).map Stmt.erase := by
  obtain ⟨ts₁, htokens₁, -⟩ := parse_eq_ok h₁
  obtain ⟨ts₂, htokens₂, -⟩ := parse_eq_ok h₂
  obtain ⟨front₁, front₂, stop₁, stop₂, tokens, stop, rfl, rfl, hne₁, hne₂, htokens, hcontents⟩ :=
    Token.tokenize_join htokens₁ htokens₂
  obtain ⟨entries₁, hforms₁, hconsists₁, hnames₁⟩ := forms_of_parse h₁ htokens₁ hne₁
  obtain ⟨entries₂, hforms₂, hconsists₂, hnames₂⟩ := forms_of_parse h₂ htokens₂ hne₂
  have hmodules : ((entries₁ ++ entries₂).filterMap Entry.module?).length ≤ 1 := by
    rw [List.filterMap_append, List.length_append, hnames₁, hnames₂]
    revert hmodule
    cases declaresModule source₁ <;> cases declaresModule source₂ <;> simp
  have heof : (Token.eofAt stop).kind = .eof := rfl
  -- the entries are read from the tokens of both sources, and so from those of the whole, which have other places
  obtain ⟨q, hq, hconsists⟩ := ofTokens_of_forms (hforms₁.append hforms₂) hmodules heof [] file
  have hsame : (front₁ ++ front₂ ++ [Token.eofAt stop]).map (fun t => (t.kind, t.text)) =
      (tokens ++ [Token.eofAt stop]).map fun t => (t.kind, t.text) := by
    rw [List.map_append, ← hcontents, List.map_append]
  obtain ⟨p, hp, herase⟩ := ofTokens_of_contents hsame hq
  have himports : p.program.imports.map Import.erase = q.program.imports.map Import.erase :=
    congrArg Program.imports herase
  have hstatements : p.program.contents.map Stmt.erase = q.program.contents.map Stmt.erase :=
    congrArg Program.contents herase
  refine ⟨p, (parse_of_tokenize htokens file).trans hp, ?_, ?_⟩
  · rw [himports, hconsists.imports, List.filterMap_append, hconsists₁.imports, hconsists₂.imports]
  · rw [hstatements, hconsists.contents, List.filterMap_append, hconsists₁.contents, hconsists₂.contents]

end Program

/-! ### Runs one after the other -/

namespace Eval

variable {exec : Stmt → Eval Flow} {ss : List Stmt}

/-- Statements that end normally are followed by the rest. -/
private theorem statements_append {last v : Value} {s t : Session}
    (h : statements exec last ss s = .done (.normal v) t) (rest : List Stmt) :
    statements exec last (ss ++ rest) s = statements exec v rest t := by
  induction ss generalizing last s with
  | nil =>
    cases h
    rfl
  | cons st ss ih =>
    obtain ⟨flow, s₁, hst, hss⟩ := bind_eq_done_iff.1 h
    rw [List.cons_append, statements, bind_of_done hst]
    cases flow with
    | normal w => exact ih hss
    | returned w => cases hss

/-- The value before the first statement does not matter if there is one. -/
private theorem statements_last (hne : ss ≠ []) (last last' : Value) :
    statements exec last ss = statements exec last' ss := by
  cases ss with
  | nil => exact absurd rfl hne
  | cons st ss => rfl

end Eval

private theorem Stmt.execAll_append {fuel : Nat} {scope : ScopeId} {ss rest : List Stmt} {v : Value} {s t : Session}
    (h : Stmt.execAll fuel scope ss s = .done (.normal v) t) (hne : rest ≠ []) :
    Stmt.execAll fuel scope (ss ++ rest) s = Stmt.execAll fuel scope rest t := by
  cases fuel with
  | zero => cases h
  | succ fuel =>
    rw [Stmt.execAll] at h ⊢
    rw [Eval.statements_append h, Stmt.execAll, Eval.statements_last hne]

/-- A run leaves the root scope where it is. -/
private theorem Session.Reachable.root_eq {s t : Session} {p : Program} {fuel : Nat} (hs : s.Reachable)
    (h : (p.run fuel s).session? = some t) : t.scopes.root = s.scopes.root := by
  obtain ⟨-, hlevel⟩ := Program.run_level hs.sound h
  have halive := hlevel.outline.isAlive hs.sound.nested.isAlive_root
  exact (Scopes.eq_root_of_index halive rfl).symm

namespace Program

private theorem run_of_execAll {p : Program} {fuel : Nat} {s t : Session} {flow : Flow}
    (h : Stmt.execAll fuel s.scopes.root p.contents s = .done flow t) : p.run fuel s = .done flow.value t := by
  unfold run
  rw [h]

/-- A program whose statements are those of two programs does what the second one does after the first. -/
private theorem run_append {p₁ p₂ p : Program} (hp : p.contents = p₁.contents ++ p₂.contents) {s t : Session}
    {v : Value} {fuel : Nat} (hs : s.Reachable)
    (h : Stmt.execAll fuel s.scopes.root p₁.contents s = .done (.normal v) t) (hne : p₂.contents ≠ []) :
    p.run fuel s = p₂.run fuel t := by
  have hroot : t.scopes.root = s.scopes.root := hs.root_eq (by rw [run_of_execAll h]; rfl)
  unfold run
  rw [hp, Stmt.execAll_append h hne, hroot]

/-- Only the name of a program depends on the name of its file. -/
private theorem parse_map_file (source file file' : String) :
    (parse source file').map (fun p => (p.program.contents, p.warnings)) =
      (parse source file).map (fun p => (p.program.contents, p.warnings)) := by
  unfold parse
  cases Token.tokenize source with
  | error e => rfl
  | ok tokens =>
    change (ofTokens tokens file').map _ = (ofTokens tokens file).map _
    unfold ofTokens read
    rw [Reader.current_bind, Reader.current_bind]
    cases hdraft : readDraft (fuelFor tokens.length) ⟨none, [], []⟩ (Cursor.ofTokens tokens) with
    | done draft c =>
      rw [Reader.bind_of_done hdraft, Reader.bind_of_done hdraft]
      rfl
    | failed e => rw [Reader.bind_of_failed hdraft, Reader.bind_of_failed hdraft]
    | exhausted => rw [Reader.bind_of_exhausted hdraft, Reader.bind_of_exhausted hdraft]

/-- What a program consists of does not depend on the name of its file. -/
theorem parse_file {source file : String} {p : Parsed} (h : parse source file = .ok p) (file' : String) :
    ∃ q, parse source file' = .ok q ∧ q.program.contents = p.program.contents := by
  have hmap := parse_map_file source file file'
  rw [h] at hmap
  cases hq : parse source file' with
  | ok q =>
    rw [hq] at hmap
    exact ⟨q, rfl, (Prod.ext_iff.1 (Except.ok.inj hmap)).1⟩
  | error e =>
    rw [hq] at hmap
    cases hmap

/-- A source that is no program is rejected for the same reason under any name. -/
theorem parse_file_error {source file : String} {e : ParseError} (h : parse source file = .error e)
    (file' : String) : parse source file' = .error e := by
  have hmap := parse_map_file source file file'
  rw [h] at hmap
  cases hq : parse source file' with
  | ok q =>
    rw [hq] at hmap
    cases hmap
  | error e' =>
    rw [hq] at hmap
    cases hmap
    rfl

end Program

namespace Session

/-- The answers to two sources are the same up to places: values that differ only in places or errors of one cause,
in sessions that are alike, or none for lack of fuel. -/
inductive AnswersAlike : Option (Except Fault Value × Session) → Option (Except Fault Value × Session) → Prop
  | value {v w : Value} {s t : Session} (hvalue : v.erase = w.erase) (h : s.Alike t) :
    AnswersAlike (some (.ok v, s)) (some (.ok w, t))
  | fault {e f : RuntimeError} {s t : Session} (hcause : e.cause = f.cause) (h : s.Alike t) :
    AnswersAlike (some (.error (.runtime e), s)) (some (.error (.runtime f), t))
  | nothing : AnswersAlike none none

private theorem answersAlike_execute {p q : Program} {s t : Session} {fuel : Nat}
    (h : (p.run fuel s).Alike (q.run fuel t)) : AnswersAlike (s.execute fuel p) (t.execute fuel q) := by
  unfold execute
  generalize p.run fuel s = o at h ⊢
  generalize q.run fuel t = o' at h ⊢
  cases h with
  | done hvalue h => exact .value hvalue h
  | failed hcause h => exact .fault hcause h
  | exhausted _ => exact .nothing

theorem evaluate_of_parse {source : String} {p : Parsed} (h : Program.parse source inputName = .ok p) (fuel : Nat)
    (s : Session) : s.evaluate fuel source = s.execute fuel p.program := by
  rw [evaluate, h]

end Session

/-- Let each of two sources be a program, and at most one of them name its module.  With a new line between them they
are one program again, with the imports of both and the contents of both.  If the first one has come to its end in a
session, with no statement that returns outside of a function, then the whole does in that session what the second
one does afterwards. -/
theorem Session.evaluate_join {source₁ source₂ file : String} {p₁ p₂ : Parsed}
    (h₁ : Program.parse source₁ file = .ok p₁) (h₂ : Program.parse source₂ file = .ok p₂)
    (hmodule : ¬ (Program.declaresModule source₁ = true ∧ Program.declaresModule source₂ = true)) :
    (∃ p, Program.parse (source₁ ++ "\n" ++ source₂) file = .ok p ∧
      p.program.imports.map Import.erase = (p₁.program.imports ++ p₂.program.imports).map Import.erase ∧
      p.program.contents.map Stmt.erase = (p₁.program.contents ++ p₂.program.contents).map Stmt.erase) ∧
    ∀ (s t : Session) (v : Value) (fuel₁ fuel : Nat), s.Reachable → (∀ b ∈ s.builtins.entries, b.Blind) →
      Stmt.execAll fuel₁ s.scopes.root p₁.program.contents s = .done (.normal v) t → fuel₁ ≤ fuel →
      p₂.program.contents ≠ [] → s.evaluate fuel source₁ = some (.ok v, t) ∧
        AnswersAlike (s.evaluate fuel (source₁ ++ "\n" ++ source₂)) (t.evaluate fuel source₂) := by
  refine ⟨Program.parse_join h₁ h₂ hmodule, fun s t v fuel₁ fuel hs hblind hfirst hle hne => ?_⟩
  obtain ⟨q₁, hq₁, hcontents₁⟩ := Program.parse_file h₁ inputName
  obtain ⟨q₂, hq₂, hcontents₂⟩ := Program.parse_file h₂ inputName
  obtain ⟨p, hp, himports, hcontents⟩ := Program.parse_join hq₁ hq₂ hmodule
  have hfirst' : Stmt.execAll fuel s.scopes.root q₁.program.contents s = .done (.normal v) t := by
    rw [hcontents₁]
    exact Stmt.execAll_of_le hle hfirst
  rw [evaluate_of_parse hq₁, evaluate_of_parse hq₂, evaluate_of_parse hp]
  constructor
  · rw [execute, Program.run_of_execAll hfirst']
    rfl
  · -- the whole has the statements of both parts, at other places
    let whole : Program := ⟨p.program.moduleName, q₁.program.imports ++ q₂.program.imports,
      q₁.program.contents ++ q₂.program.contents, p.program.span⟩
    have herase : p.program.erase = whole.erase := by
      rw [Program.erase, himports, hcontents]
      rfl
    have hrun := Program.run_alike herase (.refl s) hblind fuel
    have hsecond : whole.run fuel s = q₂.program.run fuel t :=
      Program.run_append rfl hs hfirst' (by rwa [hcontents₂])
    rw [hsecond] at hrun
    exact answersAlike_execute hrun

private def firstPart : String := "module m;\nimport \"lib\";\nlet a := 1;\nfn f() \x7b print(a); \x7d // prints"

private def secondPart : String := "if a > 0 \x7b a = a + 1; \x7d\nf();\na;"

private def emptySession : Session := .fresh (.default 0) 64 .empty

/-- The value of the second part after the first one, and the bytes that both have printed. -/
private def partsYield : Option (String × List UInt8) :=
  match Program.parse firstPart Session.inputName, Program.parse secondPart Session.inputName with
  | .ok p₁, .ok p₂ =>
    match Stmt.execAll 30 emptySession.scopes.root p₁.program.contents emptySession with
    | .done (.normal _) t =>
      match p₂.program.contents, p₂.program.run 40 t with
      | _ :: _, .done w u => some (w.text, u.output.bytes.data.toList)
      | _, _ => none
    | _ => none
  | _, _ => none

private theorem runs_of_partsYield {text : String} {bytes : List UInt8} (h : partsYield = some (text, bytes)) :
    ∃ p₁ p₂ v t w u, Program.parse firstPart Session.inputName = .ok p₁ ∧
      Program.parse secondPart Session.inputName = .ok p₂ ∧
      Stmt.execAll 30 emptySession.scopes.root p₁.program.contents emptySession = .done (.normal v) t ∧
      p₂.program.contents ≠ [] ∧ p₂.program.run 40 t = .done w u ∧ w.text = text ∧
      u.output.bytes.data.toList = bytes := by
  unfold partsYield at h
  split at h
  · rename_i p₁ p₂ hp₁ hp₂
    split at h
    · rename_i v t hfirst
      split at h
      · rename_i w u hcontents hsecond
        cases h
        exact ⟨p₁, p₂, v, t, w, u, hp₁, hp₂, hfirst, by rw [hcontents]; nofun, hsecond, rfl, rfl⟩
      · cases h
    · cases h
  · cases h

/-- The first part ends with a comment and the second one goes on with what the first one has declared. -/
theorem Session.evaluate_join_increment :
    Program.declaresModule firstPart = true ∧ ∃ v t w u, emptySession.evaluate 40 firstPart = some (.ok v, t) ∧
      emptySession.evaluate 40 (firstPart ++ "\n" ++ secondPart) = some (.ok w, u) ∧ w.text = "2" ∧
      u.output.bytes.data.toList = [50, 10] ∧
      ∃ w' u', t.evaluate 40 secondPart = some (.ok w', u') ∧ w.erase = w'.erase ∧ u.Alike u' := by
  have hfirstNames : Program.declaresModule firstPart = true := by decide +kernel
  have hsecondNames : Program.declaresModule secondPart = false := by decide +kernel
  have hyield : partsYield = some ("2", [50, 10]) := by decide +kernel
  obtain ⟨p₁, p₂, v, t, w', u', hp₁, hp₂, hfirst, hne, hsecond, htext, hbytes⟩ := runs_of_partsYield hyield
  have hreachable : emptySession.Reachable := .fresh _ _ _
  have hmodule : ¬ (Program.declaresModule firstPart = true ∧ Program.declaresModule secondPart = true) := by
    rw [hsecondNames]
    nofun
  obtain ⟨-, hruns⟩ := Session.evaluate_join hp₁ hp₂ hmodule
  obtain ⟨hevaluate, hanswers⟩ :=
    hruns emptySession t v 30 40 hreachable (Registry.blind_default 0) hfirst (by decide) hne
  have hanswer : t.evaluate 40 secondPart = some (.ok w', u') := by
    rw [Session.evaluate_of_parse hp₂, Session.execute, hsecond]
  rw [hanswer] at hanswers
  generalize hwhole : emptySession.evaluate 40 (firstPart ++ "\n" ++ secondPart) = answer at hanswers
  cases hanswers with
  | @value w _ u _ hvalue halike =>
    refine ⟨hfirstNames, v, t, w, u, hevaluate, rfl, ?_, ?_, w', u', hanswer, hvalue, halike⟩
    · rw [← Value.text_erase, hvalue, Value.text_erase, htext]
    · rw [halike.output, hbytes]

end BraceScript
