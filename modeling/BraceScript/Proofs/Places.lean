import BraceScript.Proofs.ErasedRuns
import BraceScript.Proofs.Erasure
import BraceScript.Proofs.Steps
import BraceScript.Run

/-!
# Places are for diagnostics only

Two sessions are alike if they differ only in the places that their functions and structs come from
(`Session.Alike`).  Two texts with the same tokens at different places are both programs or both not, and for the
same reason; as programs they do the same in sessions that are alike, and leave sessions that are alike
(`Program.layout_irrelevant`).
-/

namespace BraceScript

/-! ### Sessions that differ only in places -/

/-- The sessions differ only in places, and in what has happened before. -/
structure Session.Alike (s t : Session) : Prop where
  scopes : s.scopes.erase = t.scopes.erase
  builtins : s.builtins.erase = t.builtins.erase
  output : s.output = t.output
  maxDepth : s.maxDepth = t.maxDepth
  depth : s.depth = t.depth

/-- The computations have ended in the same way: with one value up to places, with errors of one cause, or both for
lack of fuel; and in sessions that are alike. -/
inductive Outcome.Alike : Outcome Value → Outcome Value → Prop where
  | done {v w : Value} {s t : Session} (hvalue : v.erase = w.erase) (h : s.Alike t) : Alike (.done v s) (.done w t)
  | failed {e f : RuntimeError} {s t : Session} (hcause : e.cause = f.cause) (h : s.Alike t) :
    Alike (.failed e s) (.failed f t)
  | exhausted {s t : Session} (h : s.Alike t) : Alike (.exhausted s) (.exhausted t)

namespace Session

/-- The session without places. -/
def erase (s : Session) : Session := { s.moveTo s.scopes.erase s.depth with builtins := s.builtins.erase }

theorem Alike.refl (s : Session) : s.Alike s := ⟨rfl, rfl, rfl, rfl, rfl⟩

private theorem Alike.erases {s t : Session} (h : s.Alike t) (hblind : ∀ b ∈ t.builtins.entries, b.Blind) :
    t.Erases s.erase :=
  ⟨h.scopes, h.builtins, hblind, h.output, h.maxDepth, h.depth⟩

private theorem Erases.alike {s t u : Session} (hs : s.Erases u) (ht : t.Erases u) : s.Alike t where
  scopes := hs.scopes.symm.trans ht.scopes
  builtins := hs.builtins.symm.trans ht.builtins
  output := hs.output.symm.trans ht.output
  maxDepth := hs.maxDepth.symm.trans ht.maxDepth
  depth := hs.depth.symm.trans ht.depth

end Session

private theorem Outcome.Erases.alike {o₁ o₂ o : Outcome Value} (h₁ : o₁.Erases Value.erase o)
    (h₂ : o₂.Erases Value.erase o) : o₁.Alike o₂ := by
  cases h₁ with
  | done hv hs =>
    cases h₂ with
    | done hw ht => exact .done (hv.symm.trans hw) (hs.alike ht)
  | failed he hs =>
    cases h₂ with
    | failed hf ht => exact .failed (he.symm.trans hf) (hs.alike ht)
  | exhausted hs =>
    cases h₂ with
    | exhausted ht => exact .exhausted (hs.alike ht)

/-! ### Built-in functions that do not look at places -/

namespace Builtin

private theorem blind_of_call {b : Builtin}
    (h : ∀ args output, b.call (args.map Value.erase) output = b.call args output) : b.Blind := by
  intro args output
  simp only [erase, h]

private theorem blind_print : print.Blind := by
  refine blind_of_call fun args output => ?_
  rw [Value.erase_eq, print_relabel]

private theorem blind_len : len.Blind := by
  refine blind_of_call fun args output => ?_
  simp only [len, Value.erase_eq, lengthOf_relabel]

private theorem blind_time (now : Nat) : (time now).Blind := blind_of_call fun _ _ => rfl

end Builtin

namespace Registry

theorem blind_default (now : Nat) : ∀ b ∈ (Registry.default now).entries, b.Blind := by
  intro b hb
  rcases mem_register hb with rfl | hb
  · exact Builtin.blind_time now
  rcases mem_register hb with rfl | hb
  · exact Builtin.blind_len
  rcases mem_register hb with rfl | hb
  · exact Builtin.blind_print
  · cases hb

/-- Whether its functions look at places can be told from the registry without places. -/
private theorem blind_of_erase_eq {r r' : Registry} (h : r.erase = r'.erase) (hblind : ∀ b ∈ r.entries, b.Blind) :
    ∀ b ∈ r'.entries, b.Blind := by
  intro b hb args output
  have hmem : b.erase ∈ r.erase.entries := by
    rw [h]
    exact List.mem_map_of_mem hb
  obtain ⟨b', hb', heq⟩ := List.mem_map.1 hmem
  rw [← heq]
  exact hblind b' hb' args output

end Registry

/-! ### Programs that differ only in places -/

namespace Program

/-- Programs that differ only in places do the same in sessions that differ only in places. -/
theorem run_alike {p₁ p₂ : Program} (hp : p₁.erase = p₂.erase) {s₁ s₂ : Session} (hs : s₁.Alike s₂)
    (hblind : ∀ b ∈ s₁.builtins.entries, b.Blind) (fuel : Nat) : (p₁.run fuel s₁).Alike (p₂.run fuel s₂) := by
  have hblind₂ := Registry.blind_of_erase_eq hs.builtins hblind
  have hrun₁ := erases_run fuel p₁ s₁ s₁.erase ((Session.Alike.refl s₁).erases hblind)
  have hrun₂ := erases_run fuel p₂ s₂ s₁.erase (hs.erases hblind₂)
  rw [hp] at hrun₁
  exact hrun₁.alike hrun₂

theorem parse_of_tokenize {source : String} {tokens : List Token} (h : Token.tokenize source = .ok tokens)
    (file : String) : parse source file = ofTokens tokens file := by
  rw [parse, h]

end Program

/-- Tokens of the same kinds and texts are the same tokens up to places. -/
theorem Token.erase_eq_of_contents {ts₁ ts₂ : List Token}
    (h : ts₁.map (fun t => (t.kind, t.text)) = ts₂.map (fun t => (t.kind, t.text))) :
    ts₁.map Token.erase = ts₂.map Token.erase := by
  have herase : Token.erase = (fun c : Kind × String => (⟨c.1, c.2, default⟩ : Token)) ∘ fun t => (t.kind, t.text) :=
    rfl
  rw [herase, ← List.map_map, h, List.map_map]

private theorem SyntaxWarning.causes_of_erase_eq {ws₁ ws₂ : List SyntaxWarning}
    (h : ws₁.map SyntaxWarning.erase = ws₂.map SyntaxWarning.erase) : ws₁.map cause = ws₂.map cause := by
  have hcauses := congrArg (List.map cause) h
  rwa [List.map_map, List.map_map] at hcauses

/-- An error says the same wherever it is. -/
private theorem ParseError.says_of_erase_eq {e₁ e₂ : ParseError} (h : e₁.erase = e₂.erase) :
    (Fault.parse e₁).code = (Fault.parse e₂).code ∧ (Fault.parse e₁).message = (Fault.parse e₂).message ∧
      (Fault.parse e₁).hints = (Fault.parse e₂).hints := by
  have hsays : ∀ e : ParseError, (Fault.parse e.erase).code = (Fault.parse e).code ∧
      (Fault.parse e.erase).message = (Fault.parse e).message ∧
      (Fault.parse e.erase).hints = (Fault.parse e).hints := by
    intro e
    cases e <;> exact ⟨rfl, rfl, rfl⟩
  obtain ⟨hcode₁, hmessage₁, hhints₁⟩ := hsays e₁
  obtain ⟨hcode₂, hmessage₂, hhints₂⟩ := hsays e₂
  rw [← hcode₁, ← hmessage₁, ← hhints₁, h]
  exact ⟨hcode₂, hmessage₂, hhints₂⟩

/-- Two texts with tokens of the same kinds and texts, whatever stands between the tokens, are both programs or both
not.  If they are programs, these differ only in places, they give rise to the same warnings, and in sessions that
differ only in places, whose built-in functions do not look at places, they do the same with any amount of fuel.  If
they are not, the error has the same code, message and hints. -/
theorem Program.layout_irrelevant {source₁ source₂ : String} {ts₁ ts₂ : List Token}
    (h₁ : Token.tokenize source₁ = .ok ts₁) (h₂ : Token.tokenize source₂ = .ok ts₂)
    (hsame : ts₁.map (fun t => (t.kind, t.text)) = ts₂.map (fun t => (t.kind, t.text))) (file : String) :
    (∃ p₁ p₂, parse source₁ file = .ok p₁ ∧ parse source₂ file = .ok p₂ ∧ p₁.program.erase = p₂.program.erase ∧
      p₁.warnings.map SyntaxWarning.cause = p₂.warnings.map SyntaxWarning.cause ∧
      ∀ s₁ s₂ : Session, s₁.Alike s₂ → (∀ b ∈ s₁.builtins.entries, b.Blind) →
        ∀ fuel, (p₁.program.run fuel s₁).Alike (p₂.program.run fuel s₂)) ∨
    ∃ e₁ e₂, parse source₁ file = .error e₁ ∧ parse source₂ file = .error e₂ ∧
      (Fault.parse e₁).code = (Fault.parse e₂).code ∧ (Fault.parse e₁).message = (Fault.parse e₂).message ∧
      (Fault.parse e₁).hints = (Fault.parse e₂).hints := by
  have hread₁ := ofTokens_erase ts₁ file
  have hread₂ := ofTokens_erase ts₂ file
  rw [Token.erase_eq_of_contents hsame, hread₂] at hread₁
  rw [parse_of_tokenize h₁, parse_of_tokenize h₂]
  cases hr₁ : ofTokens ts₁ file with
  | ok p₁ =>
    cases hr₂ : ofTokens ts₂ file with
    | ok p₂ =>
      rw [hr₁, hr₂] at hread₁
      have herase : p₂.erase = p₁.erase := Except.ok.inj hread₁
      have hprogram : p₁.program.erase = p₂.program.erase := (congrArg Parsed.program herase).symm
      refine .inl ⟨p₁, p₂, rfl, rfl, hprogram, ?_, fun s₁ s₂ hs hblind fuel => run_alike hprogram hs hblind fuel⟩
      exact SyntaxWarning.causes_of_erase_eq (congrArg Parsed.warnings herase).symm
    | error e₂ =>
      rw [hr₁, hr₂] at hread₁
      cases hread₁
  | error e₁ =>
    cases hr₂ : ofTokens ts₂ file with
    | ok p₂ =>
      rw [hr₁, hr₂] at hread₁
      cases hread₁
    | error e₂ =>
      rw [hr₁, hr₂] at hread₁
      exact .inr ⟨e₁, e₂, rfl, rfl, ParseError.says_of_erase_eq (Except.error.inj hread₁).symm⟩

private def compactText : String := "fn f()\x7bprint(1);\x7df();f;"

private def spacedText : String := "/* prints */ fn f()\n\x7b\n  print( 1 ); // one\n\x7d\n\nf();\nf;\n"

private theorem Token.tokenize_of_scan {source : String} (h : (scan source).2.isNone = true) :
    tokenize source = .ok (scan source).1 := by
  unfold tokenize
  generalize scan source = found at h
  obtain ⟨tokens, fault⟩ := found
  cases fault with
  | none => rfl
  | some e => cases h

/-- The value that a text yields and the bytes that it prints. -/
private def yieldOf (source : String) : Option (String × List UInt8) :=
  match Program.parse source "m" with
  | .ok p =>
    match p.program.run 30 (.fresh (.default 0) 64 .empty) with
    | .done v t => some (v.text, t.output.bytes.data.toList)
    | _ => none
  | .error _ => none

private theorem run_of_yieldOf {source text : String} {bytes : List UInt8}
    (h : yieldOf source = some (text, bytes)) :
    ∃ p v t, Program.parse source "m" = .ok p ∧ p.program.run 30 (.fresh (.default 0) 64 .empty) = .done v t ∧
      v.text = text ∧ t.output.bytes.data.toList = bytes := by
  unfold yieldOf at h
  split at h
  · rename_i p hparse
    split at h
    · rename_i v t hrun
      cases h
      exact ⟨p, v, t, hparse, hrun, rfl, rfl⟩
    · cases h
  · cases h

/-- A program on one line and the same program over several lines with comments, whose tokens are at other places:
both print a line and end with a function, the same up to places. -/
theorem Program.layout_irrelevant_spaced :
    (Token.scan compactText).1 ≠ (Token.scan spacedText).1 ∧
      ∃ p₁ p₂ v w t u, parse compactText "m" = .ok p₁ ∧ parse spacedText "m" = .ok p₂ ∧
        p₁.program.erase = p₂.program.erase ∧
        p₁.program.run 30 (.fresh (.default 0) 64 .empty) = .done v t ∧
        p₂.program.run 30 (.fresh (.default 0) 64 .empty) = .done w u ∧
        v.text = "<fn f>" ∧ t.output.bytes.data.toList = [49, 10] ∧ v.erase = w.erase ∧ t.Alike u := by
  have hdiffer : (Token.scan compactText).1 ≠ (Token.scan spacedText).1 := by decide +kernel
  have hsame : (Token.scan compactText).1.map (fun t => (t.kind, t.text)) =
      (Token.scan spacedText).1.map (fun t => (t.kind, t.text)) := by decide +kernel
  have h₁ := @Token.tokenize_of_scan compactText (by decide +kernel)
  have h₂ := @Token.tokenize_of_scan spacedText (by decide +kernel)
  have hyield : yieldOf compactText = some ("<fn f>", [49, 10]) := by decide +kernel
  obtain ⟨p, v, t, hparse, hrun, htext, hbytes⟩ := run_of_yieldOf hyield
  refine ⟨hdiffer, ?_⟩
  rcases Program.layout_irrelevant h₁ h₂ hsame "m" with ⟨p₁, p₂, hp₁, hp₂, hprogram, -, halike⟩ | ⟨e₁, e₂, he₁, -⟩
  · cases hp₁.symm.trans hparse
    have hruns := halike _ _ (.refl (.fresh (.default 0) 64 .empty)) (Registry.blind_default 0) 30
    rw [hrun] at hruns
    generalize hrun₂ : p₂.program.run 30 (.fresh (.default 0) 64 .empty) = o at hruns
    cases hruns with
    | @done _ w _ u hvalue hstate =>
      exact ⟨p, p₂, v, w, t, u, hparse, hp₂, hprogram, hrun, hrun₂, htext, hbytes, hvalue, hstate⟩
  · cases he₁.symm.trans hparse

end BraceScript
