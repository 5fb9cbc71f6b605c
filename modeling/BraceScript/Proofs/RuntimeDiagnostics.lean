import BraceScript.Proofs.Blame
import BraceScript.Proofs.Code
import BraceScript.Proofs.EntryPoints
import BraceScript.Proofs.Lines

/-!
# Diagnostics of runtime errors

When a source is run, a runtime error is reported with the span of the code that failed and the line of the source on
which the span starts.  Functions outlast the source that declared them, and their code keeps its spans.  So an error
in a function of an earlier source has a span of that source, and the line is looked up in the wrong text.  This is
the only exception: if no function of an earlier source is called, the span is a stretch of the source that is run
and the line is the one that it starts on (`Session.run_locates_errors`).
-/

namespace BraceScript

/-! ### Spans in a source -/

/-- The span is a stretch of the source, and something stands behind its start. -/
def Span.StandsIn (source : String) (s : Span) : Prop :=
  ∃ before text after, source.toList = before ++ text ++ after ∧ text ++ after ≠ [] ∧
    s = ⟨.behind before, .behind (before ++ text)⟩

private theorem Token.Bounds.standsIn {source : String} {t : List Token} {s : Span} (h : Bounds t s)
    (hplaces : ∀ token ∈ t, token.span.start.Occurs source.toList ∧ token.span.stop.Occurs source.toList)
    (hnonempty : ∀ token ∈ t, token.span.start.offset < token.span.stop.offset) : s.StandsIn source := by
  obtain ⟨before, text, after, hsource, hspan⟩ := (h.exact hplaces).places
  refine ⟨before, text, after, hsource, ?_, hspan⟩
  intro hnil
  obtain ⟨first, hfirst, hstart⟩ := h.start
  have hle := (hplaces first hfirst).2.offset_le
  have hlt := hnonempty first hfirst
  rw [hsource, List.append_assoc, hnil, List.append_nil] at hle
  rw [← hstart, hspan] at hlt
  exact Nat.lt_irrefl _ (Nat.lt_of_lt_of_le hlt hle)

/-- The statements of a program stand in its text. -/
private theorem Program.standsIn_of_parse {source file : String} {p : Parsed} (h : parse source file = .ok p) :
    ∀ st ∈ p.program.contents, st.outline.All (Span.StandsIn source) := by
  unfold parse at h
  split at h
  · rename_i tokens htokens
    obtain ⟨heof, hordered, hplaces, hnonempty⟩ := Token.ordered_of_tokenize htokens
    obtain ⟨t, ht, hkinds, hall⟩ := contents_of_ofTokens heof hordered h
    intro st hst
    refine (hall st hst).mono fun s hs => hs.standsIn (fun token htoken => hplaces token (ht htoken))
      fun token htoken => ?_
    exact hnonempty token (ht htoken) (hkinds token htoken)
  · cases h

/-- The context of a diagnostic about a stretch of the source is the line on which it starts. -/
private theorem Span.StandsIn.contextIn {source : String} {s : Span} (h : s.StandsIn source) :
    ∃ before text after, source.toList = before ++ text ++ after ∧ s = ⟨.behind before, .behind (before ++ text)⟩ ∧
      Diagnostic.contextIn (Source.lines source) s = some (.ofList (Source.lineAround before (text ++ after))) := by
  obtain ⟨before, text, after, hsource, hne, rfl⟩ := h
  refine ⟨before, text, after, hsource, rfl, ?_⟩
  have hlist : source = .ofList (before ++ (text ++ after)) := by
    rw [← List.append_assoc, ← hsource, String.ofList_toList]
  rw [hlist]
  refine (Source.lineAt?_behind before (text ++ after)).trans (if_neg ?_)
  rintro ⟨-, hnil⟩
  exact hne hnil

/-! ### Code in a source -/

section
variable {P : Span → Prop}

private theorem Stmt.all_of_inner {whole : Stmt} {inner : List Stmt} (hwhole : whole.parts = whole :: inner)
    (h : whole.outline.All P) (hinner : ∀ part ∈ inner, part.outline.All P) :
    ∀ part ∈ whole.parts, part.outline.All P := by
  intro part hpart
  rw [hwhole] at hpart
  rcases List.mem_cons.1 hpart with rfl | hpart
  · exact h
  · exact hinner part hpart

mutual

private theorem Block.all_parts : ∀ b : Block, b.outline.All P → ∀ part ∈ b.parts, part.outline.All P
  | ⟨statements, _⟩, h, part, hpart => by
    rw [Block.parts] at hpart
    exact Stmt.all_listParts statements (Block.all_outline.1 h).2 part hpart

private theorem FunctionDecl.all_parts : ∀ d : FunctionDecl, d.outline.All P → ∀ part ∈ d.parts, part.outline.All P
  | ⟨_, _, _, ⟨statements, _⟩, _⟩, h, part, hpart => by
    rw [FunctionDecl.parts, Block.parts] at hpart
    obtain ⟨-, -, hbody⟩ := FunctionDecl.all_outline h
    exact Stmt.all_listParts statements hbody part hpart

private theorem IfStmt.all_parts : ∀ i : IfStmt, i.outline.All P → ∀ part ∈ i.parts, part.outline.All P
  | ⟨_, consequent, alternate, _⟩, h, part, hpart => by
    obtain ⟨-, hconsequent, halternate⟩ := IfStmt.all_outline h
    rw [IfStmt.parts] at hpart
    rcases List.mem_append.1 hpart with hpart | hpart
    · exact Block.all_parts consequent hconsequent part hpart
    · exact Alternate.all_parts alternate halternate part hpart

private theorem Alternate.all_parts :
    ∀ a : Alternate, (∀ o ∈ a.outlines, o.All P) → ∀ part ∈ a.parts, part.outline.All P
  | .nothing, _, part, hpart => by
    rw [Alternate.parts] at hpart
    cases hpart
  | .elseIf next, h, part, hpart => by
    rw [Alternate.parts] at hpart
    exact IfStmt.all_parts next (h _ (by simp [Alternate.outlines])) part hpart
  | .otherwise body, h, part, hpart => by
    rw [Alternate.parts] at hpart
    exact Block.all_parts body (h _ (by simp [Alternate.outlines])) part hpart

/-- The outlines of the parts are in the outline of the whole. -/
private theorem Stmt.all_parts : ∀ st : Stmt, st.outline.All P → ∀ part ∈ st.parts, part.outline.All P
  | .block body, h => Stmt.all_of_inner rfl h (Block.all_parts body (by rwa [Stmt.outline] at h))
  | .function d, h => Stmt.all_of_inner rfl h (FunctionDecl.all_parts d (by rwa [Stmt.outline] at h))
  | .branch s, h => Stmt.all_of_inner rfl h (IfStmt.all_parts s (by rwa [Stmt.outline] at h))
  | .whileLoop condition body span, h => by
    have hbody : body.outline.All P := by
      rw [Stmt.outline, Outline.all_node_iff] at h
      exact h.2 _ List.mem_cons_self _ (by simp)
    exact Stmt.all_of_inner rfl h (Block.all_parts body hbody)
  | .forLoop counter init condition post body span, h => by
    have hbody : body.outline.All P := by
      rw [Stmt.outline, Outline.all_node_iff] at h
      exact h.2 _ List.mem_cons_self _ (by simp)
    exact Stmt.all_of_inner rfl h (Block.all_parts body hbody)
  | .foreach value position iterable body span, h => by
    have hbody : body.outline.All P := by
      rw [Stmt.outline, Outline.all_node_iff] at h
      exact h.2 _ List.mem_cons_self _ (by simp)
    exact Stmt.all_of_inner rfl h (Block.all_parts body hbody)
  | .expression .., h | .declare _, h | .ret .., h | .struct _, h | .imports _, h =>
    Stmt.all_of_inner rfl h (by simp)

theorem Stmt.all_listParts :
    ∀ ss : List Stmt, (∀ st ∈ ss, st.outline.All P) → ∀ part ∈ Stmt.listParts ss, part.outline.All P
  | [], _, part, hpart => by cases hpart
  | st :: ss, h, part, hpart => by
    rw [Stmt.listParts] at hpart
    rcases List.mem_append.1 hpart with hpart | hpart
    · exact Stmt.all_parts st (h st (by simp)) part hpart
    · exact Stmt.all_listParts ss (fun s hs => h s (by simp [hs])) part hpart

end

end

/-- The statement is part of a program whose text is among the sources. -/
def Stmt.ComesFrom (sources : List String) (st : Stmt) : Prop :=
  ∃ source ∈ sources, ∃ file p, Program.parse source file = .ok p ∧ st ∈ listParts p.program.contents

namespace Stmt

variable {sources : List String} {source file : String} {st : Stmt}

private theorem closed_comesFrom (sources : List String) : Closed (ComesFrom sources) := by
  rintro st ⟨source, hsource, file, p, hparse, hst⟩ part hpart
  exact ⟨source, hsource, file, p, hparse, listParts_trans _ hst hpart⟩

private theorem ComesFrom.cons (h : st.ComesFrom sources) (source : String) : st.ComesFrom (source :: sources) := by
  obtain ⟨source', hsource, rest⟩ := h
  exact ⟨source', List.mem_cons_of_mem _ hsource, rest⟩

private theorem ComesFrom.all_outline (h : st.ComesFrom sources) :
    st.outline.All fun s => ∃ source ∈ sources, s.StandsIn source := by
  obtain ⟨source, hsource, file, p, hparse, hst⟩ := h
  refine Stmt.all_listParts p.program.contents (fun st hst => ?_) st hst
  exact (Program.standsIn_of_parse hparse st hst).mono fun s hs => ⟨source, hsource, hs⟩

/-- The statements of a source do not depend on its file name. -/
theorem ComesFrom.mem {p : Parsed} (h : st.ComesFrom [source]) (hp : Program.parse source file = .ok p) :
    st ∈ listParts p.program.contents := by
  obtain ⟨source', hsource, file', p', hparse, hst⟩ := h
  obtain rfl := List.mem_singleton.1 hsource
  obtain ⟨q, hq, hcontents⟩ := Program.parse_file hparse file
  obtain rfl : q = p := Except.ok.inj (hq.symm.trans hp)
  rwa [hcontents]

end Stmt

/-! ### Sessions in which sources are run -/

/-- The default built-in functions yield no functions. -/
theorem Registry.codesNothing_default (now : Nat) : ∀ b ∈ (Registry.default now).entries, b.CodesNothing := by
  intro b hb S args output v rest _ hcall
  rcases call_default hb hcall with rfl | ⟨n, -, rfl⟩
  · exact trivial
  · exact trivial

namespace Session

/-- What running a source comes to: it is rejected, it has run, or it has failed. -/
private theorem run_cases {fuel : Nat} {source file : String} {s : Session} {finished : Finished}
    (h : s.run fuel source file = some finished) :
    (∃ e, Program.parse source file = .error e ∧ finished.session = s) ∨ ∃ p, Program.parse source file = .ok p ∧
      ((∃ v, p.program.run fuel s = .done v finished.session ∧ Diagnostic.errors finished.diagnostics = []) ∨
        ∃ e, p.program.run fuel s = .failed e finished.session ∧
          Diagnostic.errors finished.diagnostics = [.ofFault file (Source.lines source) (.runtime e)]) := by
  rw [run_eq_evaluate] at h
  cases hparse : Program.parse source file with
  | error e =>
    rw [evaluate_of_error hparse] at h
    cases h
    exact .inl ⟨e, rfl, rfl⟩
  | ok p =>
    rw [evaluate_of_ok hparse, execute] at h
    refine .inr ⟨p, rfl, ?_⟩
    cases hrun : p.program.run fuel s with
    | done v t =>
      rw [hrun] at h
      cases h
      exact .inl ⟨v, rfl, Diagnostic.errors_cautions source file⟩
    | failed e t =>
      rw [hrun] at h
      cases h
      exact .inr ⟨e, rfl, Diagnostic.errors_append_ofFault source file _ _⟩
    | exhausted t =>
      rw [hrun] at h
      cases h

/-- The session has come about by running the sources, latest first, with built-in functions that are `ok`. -/
inductive Ran (ok : Builtin → Prop) : List String → Session → Prop
  | fresh {builtins : Registry} (maxDepth : Nat) (output : Output) (h : ∀ b ∈ builtins.entries, ok b) :
    Ran ok [] (.fresh builtins maxDepth output)
  | run {sources : List String} {s : Session} {finished : Finished} (fuel : Nat) (source file : String) :
    Ran ok sources s → s.run fuel source file = some finished → Ran ok (source :: sources) finished.session

variable {sources : List String} {s : Session}

private theorem Ran.reachable {ok : Builtin → Prop} (h : s.Ran ok sources) : s.Reachable := by
  induction h with
  | fresh maxDepth output _ => exact .fresh _ maxDepth output
  | run fuel source file _ hrun ih =>
    rcases run_cases hrun with ⟨e, -, hsame⟩ | ⟨p, -, ⟨v, hdone, -⟩ | ⟨e, hfailed, -⟩⟩
    · rwa [hsame]
    · exact .run p.program fuel ih (by rw [hdone]; rfl)
    · exact .run p.program fuel ih (by rw [hfailed]; rfl)

/-- All code in the session comes from the sources that have been run. -/
theorem Ran.coded (h : s.Ran Builtin.CodesNothing sources) : s.Coded (Stmt.ComesFrom sources) := by
  induction h with
  | fresh maxDepth output h => exact .fresh h maxDepth output
  | @run sources s finished fuel source file hs hrun ih =>
    have hold : s.Coded (Stmt.ComesFrom (source :: sources)) := ih.mono fun _ hst => hst.cons source
    rcases run_cases hrun with ⟨e, -, hsame⟩ | ⟨p, hparse, hended⟩
    · rwa [hsame]
    · have hnew := Program.run_coded (Stmt.closed_comesFrom (source :: sources)) hs.reachable.sound hold p.program
        (fun st hst => ⟨source, List.mem_cons_self, file, p, hparse, hst⟩) fuel
      rcases hended with ⟨v, hdone, -⟩ | ⟨e, hfailed, -⟩
      · rwa [hdone] at hnew
      · rwa [hfailed] at hnew

/-- A runtime error is at a stretch of the source that is run, and its context is the line on which the stretch
starts, if this is the first source or if only functions of this source have been called.  In any case it is at a
stretch of this source or of one that has been run before. -/
theorem run_locates_errors (hs : s.Ran Builtin.CodesNothing sources) {fuel : Nat} {source file : String} {p : Parsed}
    (hp : Program.parse source file = .ok p) {finished : Finished} (h : s.run fuel source file = some finished)
    {d : Diagnostic} (hd : d ∈ Diagnostic.errors finished.diagnostics) :
    ∃ new, finished.session.events = new ++ s.events ∧
      ((sources = [] ∨ ∀ f closure, .called f closure true ∈ new → .function f ∈ Stmt.listParts p.program.contents) →
        ∃ before text after, source.toList = before ++ text ++ after ∧
        d.span = ⟨.behind before, .behind (before ++ text)⟩ ∧
          d.context = some (.ofList (Source.lineAround before (text ++ after)))) ∧
      ∃ source' ∈ source :: sources, d.span.StandsIn source' := by
  have hcoded := (Ran.run fuel source file hs h).coded
  rcases run_cases h with ⟨e, herror, -⟩ | ⟨q, hq, hended⟩
  · cases herror.symm.trans hp
  obtain rfl : q = p := Except.ok.inj (hq.symm.trans hp)
  rcases hended with ⟨v, -, hnone⟩ | ⟨e, hfailed, hone⟩
  · rw [hnone] at hd
    cases hd
  rw [hone] at hd
  obtain rfl := List.mem_singleton.1 hd
  have hown := Program.standsIn_of_parse hp
  obtain ⟨new, hnew, hhere⟩ : Outcome.Blames (Span.StandsIn source) s (.failed e finished.session) :=
    hfailed ▸ Program.blames_run hown fuel s
  have hany : ∀ st ∈ q.program.contents, st.outline.All fun place => ∃ source' ∈ source :: sources,
      place.StandsIn source' :=
    fun st hst => (hown st hst).mono fun place hplace => ⟨source, List.mem_cons_self, hplace⟩
  obtain ⟨new', hnew', hsome⟩ :
      Outcome.Blames (fun place => ∃ source' ∈ source :: sources, place.StandsIn source') s
      (.failed e finished.session) :=
    hfailed ▸ Program.blames_run hany fuel s
  obtain rfl : new' = new := List.append_cancel_right (hnew'.symm.trans hnew)
  have hcalled : ∀ f closure, .called f closure true ∈ new' → (Stmt.function f).ComesFrom (source :: sources) :=
    fun f closure hmem => hcoded.called f closure true (hnew ▸ List.mem_append_left _ hmem)
  refine ⟨new', hnew, fun hfunctions => ?_, hsome fun f closure hmem => ?_⟩
  · have hinside : ∀ f closure, .called f closure true ∈ new' → .function f ∈ Stmt.listParts q.program.contents := by
      rcases hfunctions with rfl | hfunctions
      · exact fun f closure hmem => (hcalled f closure hmem).mem hp
      · exact hfunctions
    refine (hhere fun f closure hmem => ?_).contextIn
    have hall := Stmt.all_listParts q.program.contents hown _ (hinside f closure hmem)
    rwa [Stmt.outline] at hall
  · have hall := (hcalled f closure hmem).all_outline
    rwa [Stmt.outline] at hall

/-- Whether the statement declares a function. -/
private def declaresFunction : Stmt → Bool
  | .function _ => true
  | _ => false

/-- The place and the context of the only error after both sources have been run, if the first has no functions. -/
private def laterError (first second : String) : Option (Span × Option String) :=
  match Program.parse first "main", Program.parse second "main",
    (Session.fresh (.default 0) 4 .empty).run 40 first "main" with
  | .ok p, .ok _, some past =>
    match past.session.run 40 second "main" with
    | some finished =>
      match Diagnostic.errors finished.diagnostics with
      | [d] => if (Stmt.listParts p.program.contents).any declaresFunction then none else some (d.span, d.context)
      | _ => none
    | none => none
  | _, _, _ => none

/-- In the second source of a session a function of its own fails. -/
theorem run_locates_errors_later :
    ∃ past finished p d before text after,
      (Session.fresh (.default 0) 4 .empty).run 40 "let x := 1;" "main" = some past ∧
      Program.parse "fn g() \x7b\n  ret x / 0;\n\x7d\ng();" "main" = .ok p ∧
      past.session.run 40 "fn g() \x7b\n  ret x / 0;\n\x7d\ng();" "main" = some finished ∧
      d ∈ Diagnostic.errors finished.diagnostics ∧ d.span = ⟨⟨2, 9, 17⟩, ⟨2, 10, 18⟩⟩ ∧
      "fn g() \x7b\n  ret x / 0;\n\x7d\ng();".toList = before ++ text ++ after ∧
      d.span = ⟨.behind before, .behind (before ++ text)⟩ ∧
      d.context = some (.ofList (Source.lineAround before (text ++ after))) ∧ d.context = some "  ret x / 0;" := by
  have hlater : laterError "let x := 1;" "fn g() \x7b\n  ret x / 0;\n\x7d\ng();" =
      some (⟨⟨2, 9, 17⟩, ⟨2, 10, 18⟩⟩, some "  ret x / 0;") := by
    decide +kernel
  unfold laterError at hlater
  split at hlater
  case h_2 => cases hlater
  rename_i p q past hp hq hpast
  split at hlater
  case h_2 => cases hlater
  rename_i finished hfinished
  split at hlater
  case h_2 => cases hlater
  rename_i d hone
  split at hlater
  case isTrue => cases hlater
  rename_i hnone
  obtain ⟨hspan, hcontext⟩ := Prod.mk.inj (Option.some.inj hlater)
  have hfresh : Ran Builtin.CodesNothing [] (.fresh (.default 0) 4 .empty) :=
    .fresh 4 .empty (Registry.codesNothing_default 0)
  have hran := hfresh.run 40 _ "main" hpast
  have hd : d ∈ Diagnostic.errors finished.diagnostics := by simp [hone]
  have hcoded := (hran.run 40 _ "main" hfinished).coded
  obtain ⟨new, hnew, hlocated, -⟩ := run_locates_errors hran hq hfinished hd
  -- The first source has no function that could have been called.
  have hown : ∀ f closure, .called f closure true ∈ new → .function f ∈ Stmt.listParts q.program.contents := by
    intro f closure hmem
    have hevent : .called f closure true ∈ finished.session.events := hnew ▸ List.mem_append_left _ hmem
    obtain ⟨source, hsource, file, p', hparse, hf⟩ := hcoded.called f closure true hevent
    rcases List.mem_cons.1 hsource with rfl | hsource
    · exact Stmt.ComesFrom.mem ⟨_, List.mem_singleton_self _, file, p', hparse, hf⟩ hq
    · have hfirst := Stmt.ComesFrom.mem ⟨source, hsource, file, p', hparse, hf⟩ hp
      exact absurd (List.any_eq_true.2 ⟨_, hfirst, rfl⟩) hnone
  obtain ⟨before, text, after, hsplit, hplace, hline⟩ := hlocated (.inr hown)
  exact ⟨past, finished, q, d, before, text, after, hpast, hq, hfinished, hd, hspan, hsplit, hplace, hline, hcontext⟩

-- A function that an earlier source has declared fails: the place is in the earlier source, and the later one has no
-- such line.
example :
    (((Session.fresh (.default 0) 4 .empty).run 40 "\n\nfn f() \x7b ret 1 / 0; \x7d" "main").bind fun first =>
      (first.session.run 40 "f();" "main").map fun second =>
        (Diagnostic.errors second.diagnostics).map fun d => (d.span, d.context)) =
      some [(⟨⟨3, 16, 17⟩, ⟨3, 17, 18⟩⟩, none)] := by
  decide +kernel

end Session

end BraceScript
