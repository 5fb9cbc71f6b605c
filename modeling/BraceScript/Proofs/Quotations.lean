import BraceScript.Proofs.Rendering
import BraceScript.Proofs.RuntimeDiagnostics
import BraceScript.Proofs.StatementProgress

/-!
# Lines that diagnostics quote

Tokens neither start nor end with a blank, so a span that is made of tokens starts in front of a character that is no
line ending, or at the end of the text, and the same holds of the fault in a text that has no tokens.  This is
`Span.Anchored`, and all spans that reading a source comes up with are anchored in it: those of the errors and
warnings, and those of the statements (`Program.parse_anchored`).  What is taken from a line for its line ending
therefore stands behind the start of the span, and the line of a diagnostic begins with the text in front of the span
(`Program.check_quotes`).
-/

namespace BraceScript

open Lexeme (isBlank Stops)

/-! ### Edges of tokens -/

namespace Lexeme

variable {c : Char} {cs : List Char}

private theorem isBlank_of_isIdentPart (h : isIdentPart c = true) : isBlank c = false := by
  rw [Bool.eq_false_iff]
  intro hblank
  rw [isIdentPart_of_isBlank hblank] at h
  cases h

private theorem stops_append_iff {p : Char → Bool} (h : cs ≠ []) (rest : List Char) :
    Stops p (cs ++ rest) ↔ Stops p cs := by
  obtain ⟨c, cs, rfl⟩ := List.exists_cons_of_ne_nil h
  exact .rfl

private theorem stops_reverse_append (part : List Char) {last : Char} {more : List Char}
    (hlast : isBlank last = false) (hmore : ∀ d ∈ more, isBlank d = false) :
    Stops isBlank (part ++ last :: more).reverse := by
  rw [List.reverse_append, stops_append_iff (by simp)]
  intro d hd
  have hmem : d ∈ last :: more := List.mem_reverse.1 (List.mem_of_mem_head? hd)
  rcases List.mem_cons.1 hmem with rfl | hd
  · exact hlast
  · exact hmore d hd

/-- A token neither starts nor ends with a blank. -/
private theorem Rule.stops {kind : Kind} (h : Rule (.token kind) cs) :
    Stops isBlank cs ∧ Stops isBlank cs.reverse := by
  generalize hrole : Role.token kind = role at h
  cases h with
  | blanks | lineComment | blockComment => cases hrole
  | @whole c cs hc hcs =>
    refine ⟨by rintro _ ⟨⟩; exact isBlank_of_isDigit hc, ?_⟩
    exact stops_reverse_append [] (isBlank_of_isDigit hc) fun d hd => isBlank_of_isDigit (hcs d hd)
  | @fraction c d cs ds hc _ hd hds =>
    have hsplit : c :: cs ++ '.' :: d :: ds = (c :: cs ++ ['.']) ++ d :: ds := by simp
    refine ⟨by rintro _ ⟨⟩; exact isBlank_of_isDigit hc, ?_⟩
    rw [hsplit]
    exact stops_reverse_append _ (isBlank_of_isDigit hd) fun e he => isBlank_of_isDigit (hds e he)
  | @word c part hc hpart =>
    refine ⟨by rintro _ ⟨⟩; exact isBlank_of_isIdentStart hc, ?_⟩
    exact stops_reverse_append [] (isBlank_of_isIdentStart hc) fun d hd => isBlank_of_isIdentPart (hpart d hd)
  | string => exact ⟨by rintro _ ⟨⟩; rfl, stops_reverse_append _ rfl (by simp)⟩
  | char => exact ⟨by rintro _ ⟨⟩; rfl, by rintro _ ⟨⟩; rfl⟩
  | symbol s => cases s <;> exact ⟨by rintro _ ⟨⟩; rfl, by rintro _ ⟨⟩; rfl⟩

private theorem readString_tail (cs : List Char) :
    (∃ kind, (readString cs).role = .token kind) ∨ (readString cs).tail = cs.length := by
  simp only [readString]
  split
  · exact .inl ⟨_, rfl⟩
  · exact .inr rfl

private theorem readChar_tail (cs : List Char) :
    (∃ kind, (readChar cs).role = .token kind) ∨ (readChar cs).tail = 0 := by
  unfold readChar
  split
  · split
    · exact .inr rfl
    · exact .inl ⟨_, rfl⟩
  · exact .inr rfl

private theorem readSymbol_tail (c : Char) (cs : List Char) :
    (∃ kind, (readSymbol c cs).role = .token kind) ∨ (readSymbol c cs).tail = 0 := by
  unfold readSymbol
  split
  · exact .inl ⟨_, rfl⟩
  · exact .inl ⟨_, rfl⟩
  · exact .inr rfl

/-- A fault starts with no blank, and it is one character or all that is left of the text. -/
private theorem read_fault (h : (read c cs).role = .unexpected ∨ (read c cs).role = .unterminatedComment) :
    isBlank c = false ∧ ((read c cs).tail = 0 ∨ (read c cs).tail = cs.length) := by
  have htoken : ¬ ∃ kind, (read c cs).role = .token kind := by
    rintro ⟨kind, hrole⟩
    simp [hrole] at h
  have hrole : (read c cs).role ≠ .blank := by
    intro hrole
    simp [hrole] at h
  rcases Bool.eq_false_or_eq_true (isBlank c) with hblank | hblank
  · exact absurd (congrArg role (if_pos hblank : read c cs = _)) hrole
  refine ⟨hblank, ?_⟩
  cases firstChar c with
  | blank h => cases h.symm.trans hblank
  | digit hread => exact absurd ⟨_, congrArg role (hread cs)⟩ htoken
  | word hread =>
    refine absurd ?_ htoken
    rw [hread, readWord]
    split <;> exact ⟨_, rfl⟩
  | quote hread =>
    rw [hread] at htoken ⊢
    exact .inr ((readString_tail cs).resolve_left htoken)
  | apostrophe hread =>
    rw [hread] at htoken ⊢
    exact .inl ((readChar_tail cs).resolve_left htoken)
  | mark hmark =>
    rcases comment_cases c cs with hplain | ⟨rest, rfl, rfl⟩ | ⟨rest, rfl, rfl⟩
    · rw [read_mark hmark hplain] at htoken ⊢
      exact .inl ((readSymbol_tail c cs).resolve_left htoken)
    · exact absurd rfl hrole
    · cases hend : commentEnd? rest with
      | some n => exact absurd (congrArg role (read_comment hend)) hrole
      | none =>
        rw [read_openComment hend]
        exact .inr (Nat.add_comm 1 _)

end Lexeme

namespace Position

theorem column_behind (before : List Char) : (behind before).column = (Source.lastLine before).length + 1 := by
  rw [Source.lastLine, List.length_reverse]
  exact Nat.add_comm 1 _

private theorem behind_eq_behind_append_iff {before more : List Char} :
    behind before = behind (before ++ more) ↔ more = [] := by
  refine ⟨fun heq => ?_, fun hnil => by rw [hnil, List.append_nil]⟩
  refine Classical.byContradiction fun hne => ?_
  have hoffset := congrArg Position.offset heq
  have hpos := offset_behind_pos hne
  rw [offset_behind_append] at hoffset
  omega

/-- A place at which a token can start: at the end of the text or before a character that is no blank. -/
def Opens (source : List Char) (p : Position) : Prop :=
  ∃ before after, source = before ++ after ∧ p = behind before ∧ Stops isBlank after

/-- A place at which a token can end: at the end of the text or behind a character that is no blank. -/
def Closes (source : List Char) (p : Position) : Prop :=
  ∃ before after, source = before ++ after ∧ p = behind before ∧ (after = [] ∨ Stops isBlank before.reverse)

end Position

/-- The span is a stretch of the source that starts and ends as tokens do. -/
def Span.Anchored (source : String) (s : Span) : Prop :=
  ∃ before text after, source.toList = before ++ text ++ after ∧ s = ⟨.behind before, .behind (before ++ text)⟩ ∧
    Stops isBlank (text ++ after) ∧ (after = [] ∨ Stops isBlank text.reverse)

private theorem Span.anchored_of_places {source : String} {s : Span} (hstart : s.start.Opens source.toList)
    (hstop : s.stop.Closes source.toList) (hforward : s.start.offset ≤ s.stop.offset) : s.Anchored source := by
  obtain ⟨before, rest, hsource, hbefore, hopens⟩ := hstart
  obtain ⟨before', after, hsource', hbefore', hcloses⟩ := hstop
  rw [hbefore, hbefore'] at hforward
  obtain ⟨text, rfl⟩ := Position.prefix_of_offset_le ⟨rest, hsource.symm⟩ ⟨after, hsource'.symm⟩ hforward
  have hrest : rest = text ++ after := by
    rw [hsource, List.append_assoc] at hsource'
    exact List.append_cancel_left hsource'
  refine ⟨before, text, after, hsource', by rw [← hbefore, ← hbefore'], hrest ▸ hopens,
    hcloses.imp id fun hstops => ?_⟩
  by_cases htext : text = []
  · subst htext
    rintro _ ⟨⟩
  · rwa [List.reverse_append, Lexeme.stops_append_iff (by simpa using htext)] at hstops

namespace Token

variable {source : String} {tokens : List Token}

private theorem closed_of_tokenize (h : tokenize source = .ok tokens) : Closed tokens := by
  have hcovers := tokenize_covers source
  rw [h] at hcovers
  obtain ⟨front, rfl, hlaid⟩ := hcovers
  exact ⟨front, _, rfl, rfl, hlaid.ne_eof⟩

private theorem places_of_tokenize (h : tokenize source = .ok tokens) :
    ∀ t ∈ tokens, t.span.start.Opens source.toList ∧ t.span.stop.Closes source.toList := by
  have hcovers := tokenize_covers source
  rw [h] at hcovers
  obtain ⟨front, rfl, hlaid⟩ := hcovers
  intro t ht
  rcases List.mem_append.1 ht with ht | ht
  · obtain ⟨hrule, pre, post, hsource, hspan⟩ := hlaid.cover.mem ht
    obtain ⟨hstart, hstop⟩ := hrule.stops
    rw [hspan]
    have hne := spelling_ne_nil_of_rule hrule
    refine ⟨⟨pre, t.spelling ++ post, by rw [hsource, List.append_assoc], rfl, ?_⟩,
      ⟨pre ++ t.spelling, post, hsource, rfl, .inr ?_⟩⟩
    · rwa [Lexeme.stops_append_iff hne]
    · rwa [List.reverse_append, Lexeme.stops_append_iff (by simpa using hne)]
  · obtain rfl := List.mem_singleton.1 ht
    exact ⟨⟨_, [], by simp, rfl, by rintro _ ⟨⟩⟩, ⟨_, [], by simp, rfl, .inl rfl⟩⟩

private theorem Bounds.anchored {s : Span} (h : Bounds tokens s)
    (hplaces : ∀ t ∈ tokens, t.span.start.Opens source.toList ∧ t.span.stop.Closes source.toList) :
    s.Anchored source := by
  obtain ⟨first, hfirst, hstart⟩ := h.start
  obtain ⟨last, hlast, hstop⟩ := h.stop
  exact Span.anchored_of_places (hstart ▸ (hplaces first hfirst).1) (hstop ▸ (hplaces last hlast).2) h.forward

/-- A fault in a text is found where no token can be read. -/
private theorem scanFrom_fault (done : List Token) (cs before : List Char) {e : LexicalError}
    (h : (scanFrom (.behind before) done cs).2 = some e) :
    ∃ pre c rest, cs = pre ++ c :: rest ∧
      ((Lexeme.read c rest).role = .unexpected ∨ (Lexeme.read c rest).role = .unterminatedComment) ∧
      e.span = ⟨.behind (before ++ pre), .behind (before ++ pre ++ c :: rest.take (Lexeme.read c rest).tail)⟩ := by
  generalize hp : Position.behind before = p at h
  induction p, done, cs using scanFrom.induct generalizing before with
  | case1 p done => simp [scanFrom] at h
  | case2 p done c cs lexeme spelled span kind hrole ih =>
    subst hp
    rw [scanFrom_token (show Lexeme.read c cs = ⟨.token kind, lexeme.tail⟩ by rw [← hrole])] at h
    obtain ⟨pre, d, rest, hcs, hfault, hspan⟩ := ih (before ++ spelled) (Position.advance_behind _ _).symm h
    refine ⟨spelled ++ pre, d, rest, ?_, hfault, by simpa using hspan⟩
    rw [List.append_assoc, ← hcs, List.cons_append, List.take_append_drop]
  | case3 p done c cs lexeme spelled span hrole ih =>
    subst hp
    rw [scanFrom_blank (show Lexeme.read c cs = ⟨.blank, lexeme.tail⟩ by rw [← hrole])] at h
    obtain ⟨pre, d, rest, hcs, hfault, hspan⟩ := ih (before ++ spelled) (Position.advance_behind _ _).symm h
    refine ⟨spelled ++ pre, d, rest, ?_, hfault, by simpa using hspan⟩
    rw [List.append_assoc, ← hcs, List.cons_append, List.take_append_drop]
  | case4 p done c cs lexeme hrole =>
    subst hp
    have hrole : (Lexeme.read c cs).role = .unterminatedComment := hrole
    rw [scanFrom] at h
    simp only [hrole, Option.some.injEq] at h
    refine ⟨[], c, cs, rfl, .inr hrole, ?_⟩
    rw [← h, List.append_nil, Position.advance_behind]
  | case5 p done c cs lexeme hrole =>
    subst hp
    have hrole : (Lexeme.read c cs).role = .unexpected := hrole
    rw [scanFrom] at h
    simp only [hrole, Option.some.injEq] at h
    refine ⟨[], c, cs, rfl, .inl hrole, ?_⟩
    rw [← h, List.append_nil, Position.advance_behind]

private theorem anchored_of_error {e : LexicalError} (h : tokenize source = .error e) : e.span.Anchored source := by
  have hscan : (scan source).2 = some e := by
    unfold tokenize at h
    split at h
    · cases h
    · rename_i hscan
      rw [hscan, Except.error.inj h]
  obtain ⟨pre, c, rest, hsource, hfault, hspan⟩ := scanFrom_fault [] source.toList [] hscan
  obtain ⟨hblank, htail⟩ := Lexeme.read_fault hfault
  refine ⟨pre, _, rest.drop (Lexeme.read c rest).tail, ?_, hspan, by rintro _ ⟨⟩; exact hblank, ?_⟩
  · rw [hsource, List.append_assoc, List.cons_append, List.take_append_drop]
  · rcases htail with htail | htail
    · rw [htail, List.take_zero]
      exact .inr (by rintro _ ⟨⟩; exact hblank)
    · rw [htail, List.drop_length]
      exact .inl rfl

end Token

/-- The tokens of a text, with the spans that are made of them. -/
def Ground.bounded {source : String} {tokens : List Token} (h : Token.tokenize source = .ok tokens) : Ground where
  tokens := tokens
  closed := Token.closed_of_tokenize h
  Marked := Token.Bounds tokens
  token _ ht := (Token.ordered_of_tokenize h).2.1.bounds ht
  merge := Token.Bounds.merge

/-- All spans that reading a source comes up with are anchored in it. -/
theorem Program.parse_anchored (source file : String) :
    match parse source file with
    | .ok p => (∀ w ∈ p.warnings, w.span.Anchored source) ∧
        ∀ st ∈ p.program.contents, st.outline.All (Span.Anchored source)
    | .error e => (Fault.parse e).span.Anchored source := by
  unfold parse
  cases htokens : Token.tokenize source with
  | error e => exact Token.anchored_of_error htokens
  | ok tokens =>
    have hplaces := Token.places_of_tokenize htokens
    dsimp only
    rcases ofTokens_cases (.bounded htokens) file with ⟨e, herror, hmarked⟩ | ⟨p, c, -, hok, hc⟩
    · have herror : ofTokens tokens file = .error (.grammar e) := herror
      rw [herror]
      exact Token.Bounds.anchored hmarked hplaces
    · have hok : ofTokens tokens file = .ok ⟨p, c.warnings.reverse⟩ := hok
      obtain ⟨heof, hordered, -, -⟩ := Token.ordered_of_tokenize htokens
      obtain ⟨t, ht, -, hall⟩ := contents_of_ofTokens heof hordered hok
      rw [hok]
      refine ⟨fun w hw => ?_, fun st hst => (hall st hst).mono fun s hs => (hs.mono ht).anchored hplaces⟩
      exact Token.Bounds.anchored (hc.warned w (List.mem_reverse.1 hw)) hplaces

/-! ### The line of an anchored span -/

namespace Source

private theorem prefix_chopReturn {line rest : List Char} (h : rest = [] → line.getLast? ≠ some '\r') :
    line <+: chopReturn (line ++ rest) := by
  unfold chopReturn
  split
  · rename_i hreturn
    have hrest : rest ≠ [] := by
      rintro rfl
      exact h rfl (by simpa using hreturn)
    rw [List.dropLast_append_of_ne_nil hrest]
    exact List.prefix_append _ _
  · exact List.prefix_append _ _

/-- The line that a span of one line lies on has all of the span: no line ending is taken from in front of its
end. -/
theorem prefix_lineAround (before : List Char) {text after : List Char} (hline : '\n' ∉ text)
    (hopens : Stops isBlank (text ++ after)) (hcloses : after = [] ∨ Stops isBlank text.reverse) :
    lastLine before ++ text <+: lineAround before (text ++ after) := by
  have hraw : lastLine before ++ (text ++ after).takeWhile (· ≠ '\n') =
      lastLine before ++ text ++ after.takeWhile (· ≠ '\n') := by
    rw [List.takeWhile_append_of_pos, List.append_assoc]
    intro c hc
    have hne : c ≠ '\n' := fun heq => hline (heq ▸ hc)
    simpa using hne
  unfold lineAround
  rw [hraw]
  dsimp only
  split
  · rename_i hfeed
    have hafter : after ≠ [] := by
      rintro rfl
      exact hline (by simpa using hfeed)
    refine prefix_chopReturn fun hnil hreturn => ?_
    by_cases htext : text = []
    · -- the place itself would be in front of the line feed
      subst htext
      obtain ⟨c, rest, rfl⟩ := List.exists_cons_of_ne_nil hafter
      obtain rfl : c = '\n' := by simpa [List.takeWhile_cons] using hnil
      cases hopens '\n' rfl
    · -- the carriage return would be the last character of the span
      have hlast := hcloses.resolve_left hafter
      rw [← Lexeme.stops_append_iff (by simpa using htext) (lastLine before).reverse, ← List.reverse_append] at hlast
      rw [← List.head?_reverse] at hreturn
      cases hlast '\r' hreturn
  · exact List.prefix_append _ _

/-- The line that a place lies on begins with the text in front of the place. -/
private theorem take_lineAround {before after : List Char} (h : Stops isBlank after) :
    (lineAround before after).take ((Position.behind before).column - 1) = lastLine before := by
  have hbegins : lastLine before ++ [] <+: lineAround before ([] ++ after) :=
    prefix_lineAround before List.not_mem_nil h (.inr (by rintro _ ⟨⟩))
  rw [List.append_nil, List.nil_append] at hbegins
  rw [Position.column_behind, Nat.add_sub_cancel]
  exact (List.prefix_iff_eq_take.1 hbegins).symm

private theorem lastLine_eq_nil_iff {cs : List Char} : lastLine cs = [] ↔ cs = [] ∨ cs.getLast? = some '\n' := by
  rcases List.eq_nil_or_concat cs with rfl | ⟨front, c, rfl⟩
  · simp [lastLine]
  · simp [lastLine, List.takeWhile_cons]

end Source

theorem Diagnostic.contextIn_behind {source : String} {before after : List Char}
    (hsource : source.toList = before ++ after) {s : Span} (hs : s.start = .behind before) :
    contextIn (Source.lines source) s =
      if Source.lastLine before = [] ∧ after = [] then none
        else some (.ofList (Source.lineAround before after)) := by
  rw [contextIn, hs, ← Source.lineAt?_behind, ← hsource, String.ofList_toList]

/-- The context of a diagnostic about an anchored span. -/
private theorem Span.Anchored.contextIn_start {source : String} {s : Span} (h : s.Anchored source) :
    ∃ before after, source.toList = before ++ after ∧ s.start = .behind before ∧
      (Diagnostic.contextIn (Source.lines source) s = none ↔
        s.start = .behind source.toList ∧ (source = "" ∨ source.toList.getLast? = some '\n')) ∧
      ∀ line, Diagnostic.contextIn (Source.lines source) s = some line →
        line.toList = Source.lineAround before after ∧
        line.toList.take (s.start.column - 1) = Source.lastLine before := by
  obtain ⟨before, text, after, hsource, rfl, hopens, -⟩ := h
  rw [List.append_assoc] at hsource
  have hcontext := Diagnostic.contextIn_behind hsource (s := ⟨.behind before, .behind (before ++ text)⟩) rfl
  refine ⟨before, text ++ after, hsource, rfl, ?_, fun line hline => ?_⟩
  · have hend : Position.behind before = .behind source.toList ↔ text ++ after = [] := by
      rw [hsource]
      exact Position.behind_eq_behind_append_iff
    have hnone : Diagnostic.contextIn (Source.lines source) ⟨.behind before, .behind (before ++ text)⟩ = none ↔
        text ++ after = [] ∧ Source.lastLine before = [] := by
      rw [hcontext]
      split
      · rename_i hnil
        exact iff_of_true rfl hnil.symm
      · rename_i hnil
        exact iff_of_false (by simp) fun h => hnil h.symm
    rw [hnone, hend]
    refine and_congr_right fun hnil => ?_
    rw [Source.lastLine_eq_nil_iff, ← String.toList_eq_nil_iff, hsource, hnil, List.append_nil]
  · rw [hcontext] at hline
    split at hline
    · cases hline
    · obtain rfl := Option.some.inj hline
      rw [String.toList_ofList]
      exact ⟨rfl, Source.take_lineAround hopens⟩

namespace Program

/-- The diagnostics about a source are about anchored spans and quote the lines of the source. -/
theorem check_anchored {source file : String} {d : Diagnostic} (h : d ∈ (check source file).diagnostics) :
    d.span.Anchored source ∧ d.context = Diagnostic.contextIn (Source.lines source) d.span := by
  have hparse := parse_anchored source file
  unfold check at h
  split at h
  · rename_i p hp
    rw [hp] at hparse
    obtain ⟨w, hw, rfl⟩ := List.mem_map.1 h
    exact ⟨hparse.1 w hw, rfl⟩
  · rename_i e he
    rw [he] at hparse
    obtain rfl := List.mem_singleton.1 h
    exact ⟨hparse, rfl⟩

/-- A diagnostic about a source has no context exactly if it is about the end of a source that is empty or ends with
a line feed.  Otherwise the context is the line on which the span starts, and in front of its column stands the text
of the source from the beginning of the line. -/
theorem check_quotes {source file : String} {d : Diagnostic} (hd : d ∈ (check source file).diagnostics) :
    ∃ before after, source.toList = before ++ after ∧ d.span.start = .behind before ∧
      (d.context = none ↔ d.span.start = .behind source.toList ∧
      (source = "" ∨ source.toList.getLast? = some '\n')) ∧
      ∀ line, d.context = some line →
        line.toList = Source.lineAround before after ∧
          line.toList.take (d.span.start.column - 1) = Source.lastLine before := by
  obtain ⟨hanchored, hcontext⟩ := check_anchored hd
  rw [hcontext]
  exact hanchored.contextIn_start

/-- The second of two lines with carriage returns, and the end behind its line feed. -/
theorem check_quotes_lines :
    (∃ d ∈ (check "let a := 1;\r\n  let p: Point;\r\n" "m").diagnostics, ∃ before after,
      "let a := 1;\r\n  let p: Point;\r\n".toList = before ++ after ∧ d.span.start = .behind before ∧
      d.context = some "  let p: Point;" ∧ "  let p: Point;".toList = Source.lineAround before after ∧
      "  let p: ".toList = Source.lastLine before) ∧
    ∃ d ∈ (check "let a := 1\r\n" "m").diagnostics, d.context = none ∧
      d.span.start = .behind "let a := 1\r\n".toList := by
  have hline : ((check "let a := 1;\r\n  let p: Point;\r\n" "m").diagnostics.map fun d =>
      (d.span.start.column, d.context)) = [(10, some "  let p: Point;")] := by
    decide +kernel
  have hend : ((check "let a := 1\r\n" "m").diagnostics.map (·.context)) = [none] := by decide +kernel
  constructor
  · obtain ⟨d, hd, hpair⟩ := List.mem_map.1 (hline ▸ List.mem_singleton_self (10, some "  let p: Point;"))
    obtain ⟨hcolumn, hcontext⟩ := Prod.mk.inj hpair
    obtain ⟨before, after, hsource, hstart, -, hquoted⟩ := check_quotes hd
    obtain ⟨haround, hfront⟩ := hquoted _ hcontext
    rw [hcolumn] at hfront
    exact ⟨d, hd, before, after, hsource, hstart, hcontext, haround, hfront⟩
  · obtain ⟨d, hd, hcontext⟩ := List.mem_map.1 (hend ▸ List.mem_singleton_self none)
    obtain ⟨before, after, -, -, hnone, -⟩ := check_quotes hd
    exact ⟨d, hd, hcontext, (hnone.1 hcontext).1⟩

end Program

end BraceScript
