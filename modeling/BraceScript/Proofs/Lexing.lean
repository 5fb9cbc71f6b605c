import BraceScript.Token.Lexer
import BraceScript.Number.Reader

/-!
# Cutting text into known tokens

`Token.Cuts cs rest P` says that the scanner, at the characters `cs` with `rest` behind them, takes off exactly `cs`
and adds tokens with the property `P`.  There is one lemma for each kind of lexeme, with the condition on `rest`
under which the lexeme ends where it should, and `Token.Cuts.append` puts texts together.

In the other direction, `Token.tokenize_valid` says what the tokens of any text look like: `Token.Valid`.
-/

namespace BraceScript

/-! ### One lexeme -/

namespace Lexeme

variable {c d : Char} {cs part rest : List Char}

/-- Nothing in front of `rest` can be continued by a character of the class `p`. -/
def Stops (p : Char → Bool) (rest : List Char) : Prop := ∀ c ∈ rest.head?, p c = false

theorem takeWhile_eq {p : Char → Bool} (hpart : ∀ c ∈ part, p c = true) (hrest : Stops p rest) :
    (part ++ rest).takeWhile p = part := by
  rw [List.takeWhile_append_of_pos hpart]
  cases rest with
  | nil => simp
  | cons c rest =>
    rw [List.takeWhile_cons_of_neg (by simp [hrest c (by simp)]), List.append_nil]

theorem takeWhile_eq_nil {p : Char → Bool} (hrest : Stops p rest) : rest.takeWhile p = [] := by
  have hnil : ∀ c ∈ ([] : List Char), p c = true := by simp
  exact takeWhile_eq hnil hrest

theorem dropWhile_eq {p : Char → Bool} (hpart : ∀ c ∈ part, p c = true) (hrest : Stops p rest) :
    (part ++ rest).dropWhile p = rest := by
  rw [List.dropWhile_append_of_pos hpart]
  cases rest with
  | nil => rfl
  | cons c rest => exact List.dropWhile_cons_of_neg (by simp [hrest c (by simp)])

theorem isDigit_of_isIdentStart (h : isIdentStart c = true) : c.isDigit = false := by
  have h9 : '9'.toNat = 57 := rfl
  have hA : 'A'.val.toNat = 65 := rfl
  have ha : 'a'.val.toNat = 97 := rfl
  have hval : c.toNat = c.val.toNat := rfl
  rw [Bool.eq_false_iff, Ne, Char.isDigit_iff_toNat]
  change ((decide ('A'.val ≤ c.val ∧ c.val ≤ 'Z'.val) || (decide ('a'.val ≤ c.val) && decide (c.val ≤ 'z'.val))) ||
    decide (c = '_')) = true at h
  simp only [Bool.or_eq_true, Bool.and_eq_true, decide_eq_true_eq, UInt32.le_iff_toNat_le] at h
  rcases h with (h | h) | rfl
  · omega
  · omega
  · decide

theorem isBlank_cases (h : isBlank c = true) : isIdentStart c = false ∧ c.isDigit = false := by
  simp only [isBlank, Bool.or_eq_true, decide_eq_true_eq] at h
  rcases h with (((rfl | rfl) | rfl) | rfl) | rfl <;> decide

theorem isBlank_of_isIdentStart (h : isIdentStart c = true) : isBlank c = false := by
  rw [Bool.eq_false_iff]
  intro hb
  rw [(isBlank_cases hb).1] at h
  cases h

theorem isBlank_of_isDigit (h : c.isDigit = true) : isBlank c = false := by
  rw [Bool.eq_false_iff]
  intro hb
  rw [(isBlank_cases hb).2] at h
  cases h

/-- A word is a reserved word or an identifier. -/
theorem read_word (hc : isIdentStart c = true) (hpart : ∀ d ∈ part, isIdentPart d = true)
    (hrest : Stops isIdentPart rest) :
    read c (part ++ rest) =
      ⟨.token (((Keyword.ofWord? (String.ofList (c :: part))).map Kind.keyword).getD .ident), part.length⟩ := by
  have hblank := isBlank_of_isIdentStart hc
  have hdigit := isDigit_of_isIdentStart hc
  unfold read
  rw [if_neg (by simp [hblank]), if_neg (by simp [hdigit]), if_pos hc]
  simp only [readWord, takeWhile_eq hpart hrest]
  cases Keyword.ofWord? (String.ofList (c :: part)) <;> rfl

/-- A number without a fraction ends where no digit follows and no point with a digit. -/
theorem read_number (hc : c.isDigit = true) (hpart : ∀ d ∈ part, d.isDigit = true) (hrest : Stops Char.isDigit rest)
    (hpoint : ∀ ds, rest = '.' :: ds → Stops Char.isDigit ds) :
    read c (part ++ rest) = ⟨.token .number, part.length⟩ := by
  have hblank := isBlank_of_isDigit hc
  unfold read
  rw [if_neg (by simp [hblank]), if_pos hc]
  simp only [numberTail, takeWhile_eq hpart hrest, dropWhile_eq hpart hrest]
  split
  · rename_i ds
    rw [takeWhile_eq_nil (hpoint ds rfl)]
  · rfl

theorem read_string (hbody : '"' ∉ part) : read '"' (part ++ '"' :: rest) = ⟨.token .string, part.length + 1⟩ := by
  have hwhile : (part ++ '"' :: rest).takeWhile (· ≠ '"') = part := by
    apply takeWhile_eq
    · intro c hc
      exact decide_eq_true fun h : c = '"' => hbody (h ▸ hc)
    · simp [Stops]
  change readString _ = _
  unfold readString
  rw [hwhile]
  simp

theorem read_char (hc : c ≠ '\'') : read '\'' (c :: '\'' :: rest) = ⟨.token .char, 2⟩ := by
  change readChar (c :: '\'' :: rest) = _
  exact if_neg hc

private theorem read_blank (hrest : Stops isBlank rest) : read ' ' rest = ⟨.blank, 0⟩ := by
  change Lexeme.mk _ (rest.takeWhile isBlank).length = _
  rw [takeWhile_eq_nil hrest]
  rfl

/-- The characters that can start a symbol, and others that start nothing. -/
def isMark (c : Char) : Bool := !isBlank c && !c.isDigit && !isIdentStart c && c ≠ '"' && c ≠ '\''

/-- Outside of comments, such a character starts a symbol. -/
theorem read_mark (hc : isMark c = true) (hcomment : c = '/' → ∀ d ∈ cs.head?, d ≠ '/' ∧ d ≠ '*') :
    read c cs = readSymbol c cs := by
  simp only [isMark, Bool.and_eq_true, Bool.not_eq_true', decide_eq_true_eq] at hc
  obtain ⟨⟨⟨⟨hblank, hdigit⟩, hstart⟩, hquote⟩, hchar⟩ := hc
  unfold read
  rw [if_neg (by simp [hblank]), if_neg (by simp [hdigit]), if_neg (by simp [hstart]), if_neg hquote, if_neg hchar]
  split
  · exact absurd rfl (hcomment rfl '/' rfl).1
  · exact absurd rfl (hcomment rfl '*' rfl).2
  · rfl

end Lexeme

namespace Symbol

/-- Whether the character `d` right behind the symbol makes it another symbol or a comment. -/
def joins (s : Symbol) (d : Char) : Bool :=
  match s.text.toList with
  | [c] => (ofPair? c d).isSome || c = '/' && (d = '/' || d = '*')
  | _ => false

/-- Every symbol is one or two characters long, and read from them. -/
theorem text_cases (s : Symbol) :
    (∃ c, s.text.toList = [c] ∧ ofChar? c = some s ∧ Lexeme.isMark c = true) ∨
      ∃ c d, s.text.toList = [c, d] ∧ ofPair? c d = some s ∧ Lexeme.isMark c = true ∧ d ≠ '/' ∧ d ≠ '*' := by
  cases s <;>
    first
    | exact .inl ⟨_, rfl, rfl, rfl⟩
    | exact .inr ⟨_, _, rfl, rfl, rfl, by decide, by decide⟩

theorem joins_eq_false {d : Char} (s : Symbol) (h : d ∉ ['=', '|', '&', '.', '>', '+', '-', '/', '*']) :
    s.joins d = false := by
  simp only [List.mem_cons, List.not_mem_nil, or_false, not_or] at h
  cases s <;> simp [joins, text, ofPair?, h]

end Symbol

/-- A symbol ends where nothing joins it. -/
private theorem Lexeme.read_symbol {c : Char} {cs rest : List Char} {s : Symbol} (hs : s.text.toList = c :: cs)
    (hrest : Stops s.joins rest) : read c (cs ++ rest) = ⟨.token (.symbol s), cs.length⟩ := by
  rcases s.text_cases with ⟨c', hc', hchar, hmark⟩ | ⟨c', d, hc', hpair, hmark, hslash, hstar⟩
  · obtain ⟨rfl, rfl⟩ := List.cons.inj (hc'.symm.trans hs)
    have hjoin : ∀ d ∈ rest.head?, (Symbol.ofPair? c' d).isSome = false ∧ ¬ (c' = '/' ∧ (d = '/' ∨ d = '*')) := by
      intro d hd
      have := hrest d hd
      simp only [Symbol.joins, hc', Bool.or_eq_false_iff] at this
      exact ⟨this.1, by simpa using this.2⟩
    rw [List.nil_append, read_mark hmark fun hslash d hd =>
      ⟨fun h => (hjoin d hd).2 ⟨hslash, .inl h⟩, fun h => (hjoin d hd).2 ⟨hslash, .inr h⟩⟩]
    unfold readSymbol
    cases rest with
    | nil => simp [hchar]
    | cons d rest =>
      have hnone := (hjoin d rfl).1
      simp only [Option.isSome_eq_false_iff, Option.isNone_iff_eq_none] at hnone
      simp [hnone, hchar]
  · obtain ⟨rfl, rfl⟩ := List.cons.inj (hc'.symm.trans hs)
    rw [List.singleton_append, read_mark hmark fun _ e he => by
      obtain rfl : d = e := Option.some.inj he
      exact ⟨hslash, hstar⟩]
    simp [readSymbol, hpair]

/-! ### The tokens of a text -/

/-- A word that is not reserved. -/
def IsName (w : String) : Prop :=
  ∃ c part, w.toList = c :: part ∧ Lexeme.isIdentStart c = true ∧ (∀ d ∈ part, Lexeme.isIdentPart d = true) ∧
    Keyword.ofWord? w = none

/-- What the text of a token can be. -/
def Token.Valid (t : Token) : Prop :=
  match t.kind with
  | .ident => IsName t.text
  | .string => '"' ∉ t.text.toList
  | .char => ∃ c, t.text.toList = [c] ∧ c ≠ '\''
  | _ => True

namespace Lexeme

variable {c : Char} {cs : List Char} {kind : Kind} {n : Nat}

private theorem take_takeWhile_length (p : Char → Bool) (cs : List Char) :
    cs.take (cs.takeWhile p).length = cs.takeWhile p :=
  (List.prefix_iff_eq_take.1 (List.takeWhile_prefix p)).symm

private theorem readWord_valid (hc : isIdentStart c = true) (h : readWord c cs = ⟨.token kind, n⟩) (span : Span) :
    Token.Valid ⟨kind, Token.textOf kind (c :: cs.take n), span⟩ := by
  simp only [readWord] at h
  split at h
  · cases h
    trivial
  · rename_i hnone
    cases h
    rw [take_takeWhile_length]
    refine ⟨c, cs.takeWhile isIdentPart, String.toList_ofList, hc, ?_, hnone⟩
    exact fun d hd => List.all_eq_true.1 List.all_takeWhile d hd

private theorem readString_valid (h : readString cs = ⟨.token kind, n⟩) (span : Span) :
    Token.Valid ⟨kind, Token.textOf kind ('"' :: cs.take n), span⟩ := by
  simp only [readString] at h
  split at h
  · rename_i hlt
    cases h
    have htext : Token.textOf .string ('"' :: cs.take ((cs.takeWhile (· ≠ '"')).length + 1)) =
        String.ofList (cs.takeWhile (· ≠ '"')) := by
      rw [← List.take_append_getElem hlt, take_takeWhile_length]
      simp [Token.textOf]
    rw [htext]
    intro hmem
    rw [String.toList_ofList] at hmem
    simpa using List.all_eq_true.1 List.all_takeWhile _ hmem
  · cases h

private theorem readChar_valid (h : readChar cs = ⟨.token kind, n⟩) (span : Span) :
    Token.Valid ⟨kind, Token.textOf kind ('\'' :: cs.take n), span⟩ := by
  unfold readChar at h
  split at h
  · split at h
    · cases h
    · rename_i hc
      cases h
      exact ⟨_, String.toList_ofList, hc⟩
  · cases h

private theorem read_valid (h : read c cs = ⟨.token kind, n⟩) (span : Span) :
    Token.Valid ⟨kind, Token.textOf kind (c :: cs.take n), span⟩ := by
  unfold read at h
  split at h
  · cases h
  split at h
  · cases h
    trivial
  split at h
  · rename_i hstart
    exact readWord_valid hstart h span
  split at h
  · rename_i hquote
    exact hquote ▸ readString_valid h span
  split at h
  · rename_i hquote
    exact hquote ▸ readChar_valid h span
  split at h
  · cases h
  · split at h <;> cases h
  · unfold readSymbol at h
    split at h <;> cases h <;> trivial

end Lexeme

namespace Token

variable {c : Char} {cs rest : List Char} {kind : Kind} {n : Nat}

theorem scanFrom_token (h : Lexeme.read c cs = ⟨.token kind, n⟩) (p : Position) (done : List Token) :
    scanFrom p done (c :: cs) = scanFrom (p.advance (c :: cs.take n))
      (⟨kind, textOf kind (c :: cs.take n), ⟨p, p.advance (c :: cs.take n)⟩⟩ :: done) (cs.drop n) := by
  rw [scanFrom]
  simp only [h]

theorem scanFrom_blank (h : Lexeme.read c cs = ⟨.blank, n⟩) (p : Position) (done : List Token) :
    scanFrom p done (c :: cs) = scanFrom (p.advance (c :: cs.take n)) done (cs.drop n) := by
  rw [scanFrom]
  simp only [h]

/-- All tokens of a text without faults are valid, and the last one is the end of the text. -/
private theorem scanFrom_valid {cs : List Char} {p : Position} {done tokens : List Token}
    (h : scanFrom p done cs = (tokens, none)) (hdone : ∀ t ∈ done, t.Valid) :
    (∀ t ∈ tokens, t.Valid) ∧ ∃ front stop, tokens = front ++ [eofAt stop] := by
  -- each round adds a valid token to those found so far, or skips a blank, or ends with a fault
  induction p, done, cs using scanFrom.induct with
  | case1 p done =>
    rw [scanFrom] at h
    cases h
    refine ⟨fun t ht => ?_, done.reverse, p, by simp⟩
    rcases List.mem_cons.1 (List.mem_reverse.1 ht) with rfl | ht
    · trivial
    · exact hdone t ht
  | case2 p done c cs lexeme spelled span kind hrole ih =>
    have hread : Lexeme.read c cs = ⟨.token kind, lexeme.tail⟩ := by rw [← hrole]
    rw [scanFrom_token hread] at h
    refine ih h fun t ht => ?_
    rcases List.mem_cons.1 ht with rfl | ht
    · exact Lexeme.read_valid hread _
    · exact hdone t ht
  | case3 p done c cs lexeme spelled span hrole ih =>
    have hread : Lexeme.read c cs = ⟨.blank, lexeme.tail⟩ := by rw [← hrole]
    rw [scanFrom_blank hread] at h
    exact ih h hdone
  | case4 p done c cs lexeme hrole =>
    rw [scanFrom] at h
    simp only [show (Lexeme.read c cs).role = .unterminatedComment from hrole] at h
    cases h
  | case5 p done c cs lexeme hrole =>
    rw [scanFrom] at h
    simp only [show (Lexeme.read c cs).role = .unexpected from hrole] at h
    cases h

theorem tokenize_valid {source : String} {tokens : List Token} (h : tokenize source = .ok tokens) :
    (∀ t ∈ tokens, t.Valid) ∧ ∃ front stop, tokens = front ++ [eofAt stop] := by
  unfold tokenize at h
  split at h
  · rename_i tokens' hscan
    cases h
    exact scanFrom_valid hscan (by simp)
  · cases h

/-! ### Texts that are cut as intended -/

/-- With `rest` behind it, the text `cs` is cut off and gives tokens with the property `P`. -/
def Cuts (cs rest : List Char) (P : List Token → Prop) : Prop :=
  ∀ (p : Position) (done : List Token), ∃ stop tokens,
    scanFrom p done (cs ++ rest) = scanFrom stop (tokens.reverse ++ done) rest ∧ P tokens

/-- A single token of the given kind and text. -/
def Only (kind : Kind) (text : String) (tokens : List Token) : Prop := ∃ span, tokens = [⟨kind, text, span⟩]

namespace Cuts

variable {ds : List Char} {P Q : List Token → Prop}

theorem mono (h : Cuts cs rest P) (hPQ : ∀ tokens, P tokens → Q tokens) : Cuts cs rest Q := by
  intro p done
  obtain ⟨stop, tokens, hscan, hP⟩ := h p done
  exact ⟨stop, tokens, hscan, hPQ tokens hP⟩

/-- Two texts in a row give the tokens of both in a row. -/
theorem append (h : Cuts cs (ds ++ rest) P) (h' : Cuts ds rest Q) :
    Cuts (cs ++ ds) rest fun tokens => ∃ t u, tokens = t ++ u ∧ P t ∧ Q u := by
  intro p done
  obtain ⟨middle, t, hscan, hP⟩ := h p done
  obtain ⟨stop, u, hscan', hQ⟩ := h' middle (t.reverse ++ done)
  refine ⟨stop, t ++ u, ?_, t, u, rfl, hP, hQ⟩
  rw [List.append_assoc, hscan, hscan', List.reverse_append, List.append_assoc]

theorem of_read (h : Lexeme.read c (cs ++ rest) = ⟨.token kind, cs.length⟩) :
    Cuts (c :: cs) rest (Only kind (textOf kind (c :: cs))) := by
  intro p done
  refine ⟨p.advance (c :: cs), [⟨kind, textOf kind (c :: cs), ⟨p, p.advance (c :: cs)⟩⟩], ?_, _, rfl⟩
  rw [List.cons_append, scanFrom_token h, List.take_left, List.drop_left]
  rfl

end Cuts

/-! #### The lexemes of an expression -/

theorem cuts_word {c : Char} {part : List Char} (hc : Lexeme.isIdentStart c = true)
    (hpart : ∀ d ∈ part, Lexeme.isIdentPart d = true) (hrest : Lexeme.Stops Lexeme.isIdentPart rest) {w : String}
    (hw : w.toList = c :: part) :
    Cuts w.toList rest (Only (((Keyword.ofWord? w).map Kind.keyword).getD .ident) w) := by
  have hofList : String.ofList (c :: part) = w := by rw [← hw, String.ofList_toList]
  have hcut := Cuts.of_read (Lexeme.read_word hc hpart hrest)
  rw [hofList] at hcut
  rw [hw]
  cases hk : Keyword.ofWord? w with
  | none =>
    rw [hk] at hcut
    simpa [textOf, hofList] using hcut
  | some k =>
    rw [hk] at hcut
    simpa [textOf, hofList] using hcut

theorem cuts_name {w : String} (hw : IsName w) (hrest : Lexeme.Stops Lexeme.isIdentPart rest) :
    Cuts w.toList rest (Only .ident w) := by
  obtain ⟨c, part, htext, hc, hpart, hnone⟩ := hw
  have hcut := cuts_word hc hpart hrest htext
  rwa [hnone] at hcut

theorem cuts_number {n : Nat} (hrest : Lexeme.Stops Char.isDigit rest)
    (hpoint : ∀ ds, rest = '.' :: ds → Lexeme.Stops Char.isDigit ds) :
    Cuts (toString n).toList rest (Only .number (toString n)) := by
  rw [Nat.toString_eq_ofList_toDigits, String.toList_ofList]
  have hdigits : ∀ c ∈ Nat.toDigits 10 n, c.isDigit = true :=
    fun c hc => Nat.isDigit_of_mem_toDigits (by decide) (by decide) hc
  cases htext : Nat.toDigits 10 n with
  | nil => exact absurd htext Nat.toDigits_ne_nil
  | cons c part =>
    rw [htext] at hdigits
    exact Cuts.of_read (Lexeme.read_number (hdigits c (by simp)) (fun d hd => hdigits d (by simp [hd])) hrest hpoint)

theorem cuts_string {w : String} (hw : '"' ∉ w.toList) :
    Cuts ("\"" ++ w ++ "\"").toList rest (Only .string w) := by
  have hread : Lexeme.read '"' ((w.toList ++ ['"']) ++ rest) = ⟨.token .string, (w.toList ++ ['"']).length⟩ := by
    rw [List.append_assoc, List.length_append]
    exact Lexeme.read_string hw
  have hcut := Cuts.of_read hread
  simpa [textOf] using hcut

theorem cuts_char {c : Char} (hc : c ≠ '\'') :
    Cuts ("'" ++ c.toString ++ "'").toList rest (Only .char c.toString) := by
  have hread : Lexeme.read '\'' ([c, '\''] ++ rest) = ⟨.token .char, [c, '\''].length⟩ := Lexeme.read_char hc
  have hcut := Cuts.of_read hread
  simpa [textOf, Char.toString] using hcut

theorem cuts_symbol (s : Symbol) (hrest : Lexeme.Stops s.joins rest) :
    Cuts s.text.toList rest (Only (.symbol s) s.text) := by
  cases htext : s.text.toList with
  | nil => rcases s.text_cases with ⟨c, hc, -⟩ | ⟨c, d, hc, -⟩ <;> rw [htext] at hc <;> cases hc
  | cons c cs =>
    have hcut := Cuts.of_read (Lexeme.read_symbol htext hrest)
    simpa [textOf, ← htext] using hcut

/-- A blank in front gives no token. -/
theorem Cuts.blank (h : Cuts cs rest P) (hstop : Lexeme.Stops Lexeme.isBlank (cs ++ rest)) :
    Cuts (' ' :: cs) rest P := by
  intro p done
  obtain ⟨stop, tokens, hscan, hP⟩ := h (p.advance [' ']) done
  refine ⟨stop, tokens, ?_, hP⟩
  rw [← hscan, List.cons_append, scanFrom_blank (Lexeme.read_blank hstop)]
  rfl

end Token

end BraceScript
