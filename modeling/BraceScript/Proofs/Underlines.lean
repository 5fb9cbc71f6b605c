import BraceScript.Proofs.Quotations

/-!
# Underlined text

A diagnostic is drawn with the line it is about and an underline below.  All spans that come from a source are
anchored in it, those of runtime errors included as long as no other source has been run (`Session.run_anchored`).
So, counted from where the row of the underline begins, the underline has the columns of the span: it covers the text
of a span of one line and goes up to the end of the line for a longer one.  But the row of the underline has a
shorter margin than the quoted line has, and in the drawing the underline stands at least one column to the left of
that text (`Session.run_underlines`).
-/

namespace BraceScript

open Lexeme (isBlank Stops)

/-! ### Columns -/

namespace Position

private theorem line_behind_append (before text : List Char) :
    (behind (before ++ text)).line = (behind before).line + text.count '\n' := by
  simp only [behind, List.count_append]
  omega

private theorem column_behind_append (before : List Char) {text : List Char} (h : '\n' ∉ text) :
    (behind (before ++ text)).column = (behind before).column + text.length := by
  have hline : Source.lastLine (before ++ text) = Source.lastLine before ++ text := by
    rw [Source.lastLine, Source.lastLine, List.reverse_append, List.takeWhile_append_of_pos, List.reverse_append,
      List.reverse_reverse]
    intro c hc
    have hne : c ≠ '\n' := fun heq => h (heq ▸ List.mem_reverse.1 hc)
    simpa using hne
  rw [column_behind, column_behind, hline, List.length_append]
  omega

end Position

private theorem Source.feed_not_mem_lineAround (before after : List Char) : '\n' ∉ lineAround before after := by
  obtain ⟨-, -, -, hlast⟩ := exists_above before
  have hraw : '\n' ∉ lastLine before ++ after.takeWhile (· ≠ '\n') := by
    rw [List.mem_append, not_or]
    refine ⟨hlast, fun hmem => ?_⟩
    simpa using List.all_eq_true.1 List.all_takeWhile _ hmem
  unfold lineAround chopReturn
  dsimp only
  split
  · split
    · exact fun hmem => hraw ((List.dropLast_sublist _).subset hmem)
    · exact hraw
  · exact hraw

namespace Diagnostic

variable {d : Diagnostic} {before text after : List Char} {line : String}

private theorem underlineStart_eq (h : d.span.start = .behind before) : d.underlineStart = d.span.start.column := by
  have hcolumn := Position.column_behind before
  rw [← h] at hcolumn
  rw [underlineStart]
  omega

/-- Below a span of one line, the underline has a mark for each of its characters, and one if it has none. -/
private theorem underlineWidth_of_line (hspan : d.span = ⟨.behind before, .behind (before ++ text)⟩)
    (hfeed : '\n' ∉ text) : d.underlineWidth line = max text.length 1 := by
  have hstart : d.underlineStart = d.span.start.column := underlineStart_eq (congrArg Span.start hspan)
  rw [underlineWidth, hstart, hspan, Position.line_behind_append, List.count_eq_zero.2 hfeed,
    Position.column_behind_append before hfeed, if_pos (Nat.add_zero _), Nat.add_sub_cancel_left]

/-- Below the start of a longer span, the underline goes up to the end of the line. -/
private theorem underlineWidth_of_lines (hspan : d.span = ⟨.behind before, .behind (before ++ text)⟩)
    (hfeed : '\n' ∈ text) : d.underlineWidth line = max (line.length - (Source.lastLine before).length) 1 := by
  have hstart : d.underlineStart = d.span.start.column := underlineStart_eq (congrArg Span.start hspan)
  have hcount := List.count_pos_iff.2 hfeed
  rw [underlineWidth, hstart, hspan, Position.line_behind_append, if_neg (by simp only; omega),
    Position.column_behind,
    Nat.add_sub_cancel]

/-- The underline of an anchored span, as columns of the quoted line. -/
private theorem underlines_of_anchored {source : String} (hanchored : d.span.Anchored source)
    (hcontext : d.context = contextIn (Source.lines source) d.span) (hline : d.context = some line) :
    ∃ before text after, source.toList = before ++ text ++ after ∧
    d.span = ⟨.behind before, .behind (before ++ text)⟩ ∧
      '\n' ∉ line.toList ∧ 1 ≤ d.underlineWidth line ∧
      d.span.start.column - 1 + d.underlineWidth line ≤ max d.span.start.column line.length ∧
      (text ≠ [] → d.span.stop.line = d.span.start.line →
        (line.toList.drop (d.span.start.column - 1)).take (d.underlineWidth line) = text) ∧
      (d.span.start.line < d.span.stop.line → d.span.start.column - 1 + d.underlineWidth line = line.length) := by
  obtain ⟨before, text, after, hsource, hspan, hopens, hcloses⟩ := hanchored
  have hquoted : line.toList = Source.lineAround before (text ++ after) := by
    rw [hcontext, contextIn_behind (by rw [hsource, List.append_assoc]) (congrArg Span.start hspan)] at hline
    split at hline
    · cases hline
    · rw [← Option.some.inj hline, String.toList_ofList]
  have hcolumn : d.span.start.column = (Source.lastLine before).length + 1 := by
    rw [hspan]
    exact Position.column_behind before
  have hlength : line.length = (Source.lineAround before (text ++ after)).length := by
    rw [← hquoted, String.length_toList]
  have hlines : d.span.stop.line = d.span.start.line + text.count '\n' := by
    rw [hspan]
    exact Position.line_behind_append before text
  refine ⟨before, text, after, hsource, hspan, hquoted ▸ Source.feed_not_mem_lineAround _ _, ?_⟩
  by_cases hfeed : '\n' ∈ text
  · have hcount := List.count_pos_iff.2 hfeed
    have hwidth : d.underlineWidth line = _ := underlineWidth_of_lines hspan hfeed
    -- The first character of the span is no line ending, so the line reaches beyond it.
    have hlonger : (Source.lastLine before).length < line.length := by
      obtain ⟨c, rest, rfl⟩ := List.exists_cons_of_ne_nil (List.ne_nil_of_mem hfeed)
      have hblank : isBlank c = false := hopens c rfl
      have hc : '\n' ∉ [c] := by
        rw [List.mem_singleton]
        rintro rfl
        cases hblank
      have hbegins := Source.prefix_lineAround before hc (show Stops isBlank ([c] ++ (rest ++ after)) from hopens)
        (.inr (show Stops isBlank [c] by rintro _ ⟨⟩; exact hblank))
      have hle := hbegins.length_le
      rw [List.length_append, List.length_singleton] at hle
      rw [hlength]
      exact hle
    exact ⟨by omega, by omega, fun _ hsame => by omega, fun _ => by omega⟩
  · have hwidth : d.underlineWidth line = _ := underlineWidth_of_line hspan hfeed
    rw [List.count_eq_zero.2 hfeed] at hlines
    obtain ⟨rest, hrest⟩ := Source.prefix_lineAround before hfeed hopens hcloses
    have hsum := congrArg List.length hrest
    rw [List.length_append, List.length_append, ← hlength] at hsum
    refine ⟨by omega, by omega, fun hne _ => ?_, fun hlt => by omega⟩
    have hpos := List.length_pos_iff.2 hne
    rw [hwidth, Nat.max_eq_left hpos, hcolumn, Nat.add_sub_cancel, hquoted, ← hrest,
      List.append_assoc, List.drop_left,
      List.take_left]

/-! ### Drawings -/

/-- What stands in front of the quoted line in its row. -/
def gutter (d : Diagnostic) : String := padLeft 3 (toString d.span.start.line) ++ " | "

/-- What stands in front of the underline in its row. -/
def margin (d : Diagnostic) : String := "   | " ++ blanks (d.underlineStart - 1)

def underline (d : Diagnostic) (line : String) : String :=
  "^" ++ String.ofList (List.replicate (d.underlineWidth line - 1) '~')

/-- How far the bar in the margin stands to the left of the bar in the gutter, which comes after the number of the
line and a blank. -/
def lag (d : Diagnostic) : Nat := max (toString d.span.start.line).length 3 - 2

private theorem length_underline (h : 1 ≤ d.underlineWidth line) :
    (d.underline line).length = d.underlineWidth line := by
  have hmark : "^".length = 1 := rfl
  simp only [underline, String.length_append, String.length_ofList, List.length_replicate, hmark]
  omega

private theorem lag_pos (d : Diagnostic) : 1 ≤ d.lag := by
  unfold lag
  omega

private theorem length_margin (h : d.span.start = .behind before) :
    d.margin.length + d.lag = d.gutter.length + (d.span.start.column - 1) := by
  have hmargin : "   | ".length = 5 := rfl
  have hbar : " | ".length = 3 := rfl
  rw [margin, gutter, lag, underlineStart_eq h, padLeft]
  simp only [String.length_append, blanks, String.length_ofList, List.length_replicate, hmargin, hbar]
  omega

/-- Below a bar stand the row of the quoted line and the row of the underline. -/
private theorem drawing_rows (hline : d.context = some line) :
    ∃ above below, d.drawing =
      above ++ "   |\n" ++ (d.gutter ++ line) ++ "\n" ++ (d.margin ++ d.underline line) ++ "\n" ++ below := by
  refine ⟨d.severity.name ++ "[" ++ d.code ++ "]: " ++ d.message ++ "\n" ++ "  --> " ++ d.file ++ ":" ++
    toString d.span.start.line ++ ":" ++ toString d.span.start.column ++ "\n",
    String.join (d.hints.map fun hint => "   = help: " ++ hint ++ "\n") ++ "\n", ?_⟩
  unfold drawing
  simp only [hline, Option.map_some, Option.getD_some]
  unfold excerpt gutter margin underline
  dsimp only
  simp only [String.append_assoc]

end Diagnostic

/-! ### The first source of a session -/

namespace Session

variable {builtins : Registry} {maxDepth fuel : Nat} {output : Output} {source file : String} {finished : Finished}

/-- In the first source of a session all code that runs is code of this source, and so is the code that fails. -/
private theorem run_fresh_blames {P : Span → Prop} (hbuiltins : ∀ b ∈ builtins.entries, b.CodesNothing)
    (h : (fresh builtins maxDepth output).run fuel source file = some finished) {p : Parsed}
    (hp : Program.parse source file = .ok p) (hall : ∀ st ∈ p.program.contents, st.outline.All P) {e : RuntimeError}
    (hfailed : p.program.run fuel (fresh builtins maxDepth output) = .failed e finished.session) : P e.span := by
  have hcoded := (Ran.run fuel source file (.fresh maxDepth output hbuiltins) h).coded
  obtain ⟨new, hnew, hblamed⟩ : Outcome.Blames P (fresh builtins maxDepth output) (.failed e finished.session) :=
    hfailed ▸ Program.blames_run hall fuel _
  refine hblamed fun d closure hmem => ?_
  have hcalled : (Stmt.function d).ComesFrom [source] :=
    hcoded.called d closure true (hnew ▸ List.mem_append_left _ hmem)
  have hinside := Stmt.all_listParts p.program.contents hall _ (hcalled.mem hp)
  rwa [Stmt.outline] at hinside

/-- The diagnostics about the first source of a session are about anchored spans and quote the lines of the
source. -/
theorem run_anchored (hbuiltins : ∀ b ∈ builtins.entries, b.CodesNothing)
    (h : (fresh builtins maxDepth output).run fuel source file = some finished) {d : Diagnostic}
    (hd : d ∈ finished.diagnostics) :
    d.span.Anchored source ∧ d.context = Diagnostic.contextIn (Source.lines source) d.span := by
  have hrun := h
  rw [run_eq_evaluate] at h
  have hcaution : ∀ d ∈ Diagnostic.cautions source file,
      d.span.Anchored source ∧ d.context = Diagnostic.contextIn (Source.lines source) d.span :=
    fun d hd => Program.check_anchored (List.mem_filter.1 hd).1
  have hparse := Program.parse_anchored source file
  cases hp : Program.parse source file with
  | error e =>
    rw [hp] at hparse
    rw [evaluate_of_error hp] at h
    cases h
    rcases List.mem_append.1 hd with hd | hd
    · exact hcaution d hd
    · obtain rfl := List.mem_singleton.1 hd
      exact ⟨hparse, rfl⟩
  | ok p =>
    rw [hp] at hparse
    rw [evaluate_of_ok hp, execute] at h
    cases hended : p.program.run fuel (fresh builtins maxDepth output) with
    | done v t =>
      rw [hended] at h
      cases h
      exact hcaution d hd
    | failed e t =>
      rw [hended] at h
      cases h
      rcases List.mem_append.1 hd with hd | hd
      · exact hcaution d hd
      · obtain rfl := List.mem_singleton.1 hd
        exact ⟨run_fresh_blames hbuiltins hrun hp hparse.2 hended, rfl⟩
    | exhausted t =>
      rw [hended] at h
      cases h

/-- A diagnostic about the first source of a session that quotes a line is drawn with an underline in the row below
the line.  If the two rows are laid side by side behind what stands in front of them, the underline starts in the
column of the span, has at least one mark and does not go beyond the line, a span that is empty at the end of a line
apart.  It stands below the text of the span, if this lies on one line, and else goes up to the end of the line.  In
the drawing it is shifted to the left, by one column if the number of the line has up to three digits and by more if
it is longer. -/
theorem run_underlines (hbuiltins : ∀ b ∈ builtins.entries, b.CodesNothing)
    (h : (fresh builtins maxDepth output).run fuel source file = some finished) {d : Diagnostic}
    (hd : d ∈ finished.diagnostics) {line : String} (hline : d.context = some line) :
    (∃ above below, d.drawing =
      above ++ "   |\n" ++ (d.gutter ++ line) ++ "\n" ++ (d.margin ++ d.underline line) ++ "\n" ++ below) ∧
    '\n' ∉ line.toList ∧ d.margin.length + d.lag = d.gutter.length + (d.span.start.column - 1) ∧ 1 ≤ d.lag ∧
    ∃ before text after, source.toList = before ++ text ++ after ∧
    d.span = ⟨.behind before, .behind (before ++ text)⟩ ∧
      1 ≤ (d.underline line).length ∧
      d.span.start.column - 1 + (d.underline line).length ≤ max d.span.start.column line.length ∧
      (text ≠ [] → d.span.stop.line = d.span.start.line →
        (line.toList.drop (d.span.start.column - 1)).take (d.underline line).length = text) ∧
      (d.span.start.line < d.span.stop.line → d.span.start.column - 1 + (d.underline line).length =
        line.length) := by
  obtain ⟨hanchored, hcontext⟩ := run_anchored hbuiltins h hd
  obtain ⟨before, text, after, hsource, hspan, hfeed, hwidth, hcolumns⟩ :=
    Diagnostic.underlines_of_anchored hanchored hcontext hline
  refine ⟨Diagnostic.drawing_rows hline, hfeed, Diagnostic.length_margin (congrArg Span.start hspan),
    d.lag_pos, before, text,
    after, hsource, hspan, ?_⟩
  rw [Diagnostic.length_underline hwidth]
  exact ⟨hwidth, hcolumns⟩

/-- A name in the second of two lines with carriage returns. -/
theorem run_underlines_name :
    ∃ finished d before after,
      (fresh (.default 0) 4 .empty).run 40 "let x := 1;\r\n  x + nope;\r\n" "m" = some finished ∧
      d ∈ finished.diagnostics ∧
      d.drawing = "error[E201]: `nope` is not declared\n  --> m:2:7\n   |\n  2 |   x + nope;\n   |       ^~~~\n" ++
        "   = help: declare it first with `let nope := ...;`\n\n" ∧
      d.margin.length + 1 = d.gutter.length + 6 ∧
      "let x := 1;\r\n  x + nope;\r\n".toList = before ++ "nope".toList ++ after ∧
      d.span = ⟨.behind before, .behind (before ++ "nope".toList)⟩ := by
  have hdrawn : ((fresh (.default 0) 4 .empty).run 40 "let x := 1;\r\n  x + nope;\r\n" "m").map (fun finished =>
      finished.diagnostics.map fun d => (d.context, d.drawing, d.span)) =
      some [(some "  x + nope;",
        "error[E201]: `nope` is not declared\n  --> m:2:7\n   |\n  2 |   x + nope;\n   |       ^~~~\n" ++
          "   = help: declare it first with `let nope := ...;`\n\n", ⟨⟨2, 7, 19⟩, ⟨2, 11, 23⟩⟩)] := by
    decide +kernel
  obtain ⟨finished, hfinished, hlist⟩ := Option.map_eq_some_iff.1 hdrawn
  obtain ⟨d, hone, hparts⟩ := List.map_eq_singleton_iff.1 hlist
  obtain ⟨hline, hrest⟩ := Prod.mk.inj hparts
  obtain ⟨hdrawing, hspan⟩ := Prod.mk.inj hrest
  have hd : d ∈ finished.diagnostics := hone ▸ List.mem_singleton_self d
  have hlag : d.lag = 1 := by
    rw [Diagnostic.lag, hspan]
    decide
  have hlength : (d.underline "  x + nope;").length = 4 := by
    rw [Diagnostic.underline, Diagnostic.underlineWidth, Diagnostic.underlineStart, hspan]
    decide
  obtain ⟨-, -, hshifted, -, before, text, after, hsource, hplace, -, -, hcovered, -⟩ :=
    run_underlines (Registry.codesNothing_default 0) hfinished hd hline
  rw [hlag, hspan] at hshifted
  have hne : text ≠ [] := by
    rintro rfl
    rw [hspan, List.append_nil] at hplace
    obtain ⟨hstart, hstop⟩ := Span.mk.inj hplace
    exact absurd (hstart.trans hstop.symm) (by decide)
  have htext := hcovered hne (by rw [hspan])
  rw [hlength, hspan] at htext
  have htext : "nope".toList = text := htext
  rw [← htext] at hsource hplace
  exact ⟨finished, d, before, after, hfinished, hd, hdrawing, hshifted, hsource, hplace⟩

end Session

end BraceScript
