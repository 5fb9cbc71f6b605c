import BraceScript.Proofs.Coverage

/-!
# Tokens written with separators are read back

`Lexeme.Item` lists what can be written as one token, and `Lexeme.Separator` what can stand between two of them: a
blank, then blanks and closed comments.  Written one after another with separators around them, items are read back
as they are, in their order and with nothing added (`Token.tokenize_render`), however they would run together without
the separators.
-/

namespace BraceScript

/-! ### Reserved words -/

namespace Keyword

/-- The ways to spell a reserved word. -/
def words : Keyword → List String
  | access => ["pub", "priv"]
  | k => [k.word]

private theorem mem_words_iff {w : String} {k : Keyword} : w ∈ k.words ↔ ofWord? w = some k := by
  constructor
  · intro h
    cases k <;> simp only [words, word, List.mem_cons, List.not_mem_nil, or_false] at h <;>
      rcases h with rfl | rfl <;> rfl
  · intro h
    unfold ofWord? at h
    split at h <;> cases h <;> simp [words, word]

/-- Reserved words are spelled like names. -/
private theorem exists_of_mem_words {w : String} {k : Keyword} (h : w ∈ k.words) :
    ∃ c part, w.toList = c :: part ∧ Lexeme.isIdentStart c = true ∧ ∀ d ∈ part, Lexeme.isIdentPart d = true := by
  cases k <;> simp only [words, word, List.mem_cons, List.not_mem_nil, or_false] at h <;>
    rcases h with rfl | rfl <;> exact ⟨_, _, rfl, by decide, List.all_eq_true.1 (by decide)⟩

end Keyword

namespace Lexeme

/-! ### Items -/

/-- What can be written as one token. -/
inductive Item where
  | whole (digits : List Char) (hne : digits ≠ []) (h : ∀ c ∈ digits, c.isDigit = true)
  | fraction (digits places : List Char) (hne : digits ≠ []) (h : ∀ c ∈ digits, c.isDigit = true)
      (hne' : places ≠ [])
      (h' : ∀ c ∈ places, c.isDigit = true)
  | string (body : List Char) (h : '"' ∉ body)
  | char (c : Char) (h : c ≠ '\'')
  | name (c : Char) (part : List Char) (hc : isIdentStart c = true) (h : ∀ d ∈ part, isIdentPart d = true)
      (hfree : ∀ k : Keyword, String.ofList (c :: part) ∉ k.words)
  | reserved (k : Keyword) (w : String) (h : w ∈ k.words)
  | symbol (s : Symbol)

namespace Item

/-- How the item is written. -/
def spelled : Item → List Char
  | whole digits .. => digits
  | fraction digits places .. => digits ++ '.' :: places
  | string body _ => '"' :: body ++ ['"']
  | char c _ => ['\'', c, '\'']
  | name c part .. => c :: part
  | reserved _ w _ => w.toList
  | symbol s => s.text.toList

/-- The kind of the token. -/
def kind : Item → Kind
  | whole .. | fraction .. => .number
  | string .. => .string
  | char .. => .char
  | name .. => .ident
  | reserved k .. => .keyword k
  | symbol s => .symbol s

/-- The text of the token. -/
def text : Item → String
  | whole digits .. => String.ofList digits
  | fraction digits places .. => String.ofList (digits ++ '.' :: places)
  | string body _ => String.ofList body
  | char c _ => String.singleton c
  | name c part .. => String.ofList (c :: part)
  | reserved _ w _ => w
  | symbol s => s.text

end Item

/-! ### Separators -/

/-- Blanks and comments, each comment with its end. -/
inductive Filler : List Char → Prop where
  | nil : Filler []
  | blank {c : Char} {cs : List Char} (hc : isBlank c = true) (h : Filler cs) : Filler (c :: cs)
  | line {body cs : List Char} (hbody : '\n' ∉ body) (h : Filler cs) : Filler ('/' :: '/' :: body ++ '\n' :: cs)
  | block {body cs : List Char} (hbody : ¬ ['*', '/'] <:+: body) (h : Filler cs) :
      Filler ('/' :: '*' :: body ++ '*' :: '/' :: cs)

/-- A blank, then blanks and comments. -/
structure Separator where
  first : Char
  others : List Char
  blank : isBlank first = true
  filler : Filler others

namespace Separator

def spelled (s : Separator) : List Char := s.first :: s.others

end Separator

/-- Items, each with the separator behind it, after a leading separator. -/
def render (lead : Separator) (items : List (Item × Separator)) : String :=
  String.ofList (lead.spelled ++ items.flatMap fun i => i.1.spelled ++ i.2.spelled)

variable {c d : Char} {cs body rest : List Char}

/-- Whatever text follows, a filler is a gap before it. -/
private theorem Filler.gap (h : Filler cs) (rest : List Char) : Gap cs rest := by
  induction h with
  | nil => exact .nil rest
  | blank hc _ ih => exact .blank hc ih
  | line hbody _ ih =>
    have hfeed : isBlank '\n' = true := rfl
    exact .line hbody (by simp) (.blank hfeed ih)
  | block hbody _ ih => exact .block hbody ih

/-! ### Nothing is joined to a blank -/

private theorem stops_blank (p : Char → Bool) (h : isBlank d = true) (hp : ∀ c, isBlank c = true → p c = false) :
    Stops p (d :: rest) := by
  intro c hc
  obtain rfl : d = c := Option.some.inj hc
  exact hp d h

private theorem isDigit_of_isBlank (h : isBlank c = true) : c.isDigit = false := (isBlank_cases h).2

theorem isIdentPart_of_isBlank (h : isBlank c = true) : isIdentPart c = false := by
  simp only [isBlank, Bool.or_eq_true, decide_eq_true_eq] at h
  rcases h with (((rfl | rfl) | rfl) | rfl) | rfl <;> decide

private theorem joins_of_isBlank (s : Symbol) (h : isBlank c = true) : s.joins c = false := by
  apply s.joins_eq_false
  simp only [isBlank, Bool.or_eq_true, decide_eq_true_eq] at h
  rcases h with (((rfl | rfl) | rfl) | rfl) | rfl <;> decide

private theorem noFraction_of_isBlank (h : isBlank d = true) : NoFraction (d :: rest) := by
  intro ds hds
  obtain ⟨rfl, -⟩ := List.cons.inj hds
  exact absurd h (by decide)

end Lexeme

namespace Token

open Lexeme

variable {c d : Char} {cs body rest : List Char}

/-! ### Gaps are skipped -/

/-- Blanks are skipped one at a time as well as together. -/
theorem scanFrom_skip_blank (hc : isBlank c = true) (p : Position) (done : List Token) (cs : List Char) :
    scanFrom p done (c :: cs) = scanFrom (p.step c) done cs := by
  have hread : ∀ d ds, isBlank d = true → read d ds = ⟨.blank, (ds.takeWhile isBlank).length⟩ :=
    fun d ds hd => if_pos hd
  rw [scanFrom_blank (hread c cs hc)]
  cases cs with
  | nil => rfl
  | cons d ds =>
    by_cases hd : isBlank d = true
    · rw [List.takeWhile_cons_of_pos hd, scanFrom_blank (hread d ds hd)]
      rfl
    · rw [List.takeWhile_cons_of_neg hd]
      rfl

private theorem scanFrom_skip_line (hbody : '\n' ∉ body) (hrest : ∀ d ∈ rest.head?, d = '\n') (p : Position)
    (done : List Token) :
    scanFrom p done ('/' :: '/' :: body ++ rest) = scanFrom (p.advance ('/' :: '/' :: body)) done rest := by
  have hall : ∀ d ∈ body, decide (d ≠ '\n') = true := by
    intro d hd
    exact decide_eq_true fun h : d = '\n' => hbody (h ▸ hd)
  have hstop : Stops (fun d => decide (d ≠ '\n')) rest := fun d hd => by simp [hrest d hd]
  have hread : read '/' ('/' :: (body ++ rest)) = ⟨.blank, 1 + body.length⟩ := by
    change Lexeme.mk .blank (1 + ((body ++ rest).takeWhile (· ≠ '\n')).length) = _
    rw [takeWhile_eq hall hstop]
  rw [List.cons_append, List.cons_append, scanFrom_blank hread, Nat.add_comm, List.take_succ_cons,
    List.drop_succ_cons,
    List.take_left, List.drop_left]

private theorem scanFrom_skip_block (hbody : ¬ ['*', '/'] <:+: body) (p : Position) (done : List Token) :
    scanFrom p done ('/' :: '*' :: body ++ '*' :: '/' :: rest) =
      scanFrom (p.advance ('/' :: '*' :: body ++ ['*', '/'])) done rest := by
  have hread : read '/' ('*' :: (body ++ '*' :: '/' :: rest)) = ⟨.blank, 1 + (body.length + 2)⟩ :=
    read_comment (commentEnd?_append hbody rest)
  have hlength : body.length + 2 = (body ++ ['*', '/']).length := by simp
  have hsplit : body ++ '*' :: '/' :: rest = (body ++ ['*', '/']) ++ rest := by simp
  rw [List.cons_append, List.cons_append, scanFrom_blank hread, Nat.add_comm, List.take_succ_cons,
    List.drop_succ_cons,
    hlength, hsplit, List.take_left, List.drop_left]
  rfl

private theorem scanFrom_skip_gap {gap : List Char} (h : Gap gap rest) (p : Position) (done : List Token) :
    scanFrom p done (gap ++ rest) = scanFrom (p.advance gap) done rest := by
  induction h generalizing p with
  | nil => rfl
  | blank hc _ ih => rw [List.cons_append, scanFrom_skip_blank hc, ih]; rfl
  | @line body cs rest hbody hend _ ih =>
    rw [List.append_assoc, scanFrom_skip_line hbody hend, ih, ← Position.advance_append]
  | @block body cs rest hbody _ ih =>
    have hassoc : '/' :: '*' :: body ++ '*' :: '/' :: cs ++ rest = '/' :: '*' :: body ++ '*' :: '/' ::
        (cs ++ rest) := by
      simp
    rw [hassoc, scanFrom_skip_block hbody, ih, ← Position.advance_append, List.append_assoc]
    rfl

/-! ### Items are cut off before a blank -/

private theorem cuts_digits {digits : List Char} (hne : digits ≠ []) (h : ∀ e ∈ digits, e.isDigit = true)
    (hrest : Stops Char.isDigit rest) (hpoint : NoFraction rest) :
    Cuts digits rest (Only .number (String.ofList digits)) := by
  obtain ⟨c, part, rfl⟩ := List.exists_cons_of_ne_nil hne
  obtain ⟨hc, hpart⟩ := List.forall_mem_cons.1 h
  exact Cuts.of_read (read_number hc hpart hrest hpoint)

private theorem cuts_fraction {digits places : List Char} (hne : digits ≠ []) (h : ∀ e ∈ digits, e.isDigit = true)
    (hne' : places ≠ []) (h' : ∀ e ∈ places, e.isDigit = true) (hrest : Stops Char.isDigit rest) :
    Cuts (digits ++ '.' :: places) rest (Only .number (String.ofList (digits ++ '.' :: places))) := by
  obtain ⟨c, part, rfl⟩ := List.exists_cons_of_ne_nil hne
  obtain ⟨d, ds, rfl⟩ := List.exists_cons_of_ne_nil hne'
  obtain ⟨hc, hpart⟩ := List.forall_mem_cons.1 h
  obtain ⟨hd, hds⟩ := List.forall_mem_cons.1 h'
  have hread : read c ((part ++ '.' :: d :: ds) ++ rest) = ⟨.token .number, (part ++ '.' :: d :: ds).length⟩ := by
    unfold Lexeme.read
    have hlength : part.length + 1 + (ds.length + 1) = (part ++ '.' :: d :: ds).length := by simp; omega
    rw [if_neg (by simp [isBlank_of_isDigit hc]), if_pos hc, numberTail_fraction hpart hd hds hrest, hlength]
  exact Cuts.of_read hread

/-- Before a blank every item is cut off as one token. -/
private theorem cuts_item (i : Item) (hd : isBlank d = true) : Cuts i.spelled (d :: rest) (Only i.kind i.text) := by
  cases i with
  | whole digits hne h =>
    exact cuts_digits hne h (stops_blank _ hd fun _ => isDigit_of_isBlank) (noFraction_of_isBlank hd)
  | fraction digits places hne h hne' h' =>
    exact cuts_fraction hne h hne' h' (stops_blank _ hd fun _ => isDigit_of_isBlank)
  | string body h =>
    have hbody : '"' ∉ (String.ofList body).toList := by rwa [String.toList_ofList]
    have hcut : Cuts _ (d :: rest) _ := cuts_string hbody
    simpa [Item.spelled, Item.kind, Item.text] using hcut
  | char c h =>
    have hcut : Cuts _ (d :: rest) _ := cuts_char h
    simpa [Item.spelled, Item.kind, Item.text] using hcut
  | name c part hc h hfree =>
    have hnone : Keyword.ofWord? (String.ofList (c :: part)) = none := by
      rw [Option.eq_none_iff_forall_ne_some]
      exact fun k hk => hfree k (Keyword.mem_words_iff.2 hk)
    have hstop : Stops isIdentPart (d :: rest) := stops_blank _ hd fun _ => isIdentPart_of_isBlank
    have hcut := cuts_word hc h hstop (String.toList_ofList (l := c :: part))
    rw [hnone, String.toList_ofList] at hcut
    exact hcut
  | reserved k w h =>
    obtain ⟨c, part, hw, hc, hpart⟩ := Keyword.exists_of_mem_words h
    have hstop : Stops isIdentPart (d :: rest) := stops_blank _ hd fun _ => isIdentPart_of_isBlank
    have hcut := cuts_word hc hpart hstop hw
    rw [Keyword.mem_words_iff.1 h] at hcut
    exact hcut
  | symbol s => exact cuts_symbol s (stops_blank _ hd fun _ => joins_of_isBlank s)

/-! ### The whole text -/

private theorem cuts_separator (s : Separator) (rest : List Char) : Cuts s.spelled rest (· = []) := by
  intro p done
  have hgap : Gap s.spelled rest := .blank s.blank (s.filler.gap rest)
  exact ⟨p.advance s.spelled, [], scanFrom_skip_gap hgap p done, rfl⟩

private theorem cuts_items (items : List (Item × Separator)) :
    Cuts (items.flatMap fun i => i.1.spelled ++ i.2.spelled) []
      fun tokens => tokens.map (fun t => (t.kind, t.text)) = items.map fun i => (i.1.kind, i.1.text) := by
  induction items with
  | nil => exact fun p done => ⟨p, [], rfl, rfl⟩
  | cons i items ih =>
    obtain ⟨item, sep⟩ := i
    have hitem : ∀ rest, Cuts item.spelled (sep.spelled ++ rest) (Only item.kind item.text) :=
      fun rest => cuts_item item sep.blank
    have hcut := ((hitem _).append (cuts_separator sep _)).append ih
    rw [List.flatMap_cons]
    refine hcut.mono ?_
    rintro tokens ⟨t, u, rfl, ⟨t, none, rfl, ⟨span, rfl⟩, rfl⟩, hu⟩
    simpa using hu

/-- Any items, written with any separators between and around them, are the tokens of the text, with the end of the
text behind them. -/
theorem tokenize_render (lead : Separator) (items : List (Item × Separator)) :
    ∃ tokens stop, tokenize (render lead items) = .ok (tokens ++ [eofAt stop]) ∧
      tokens.map (fun t => (t.kind, t.text)) = items.map fun i => (i.1.kind, i.1.text) := by
  have hcut := (cuts_separator lead _).append (cuts_items items)
  obtain ⟨stop, tokens, hscan, t, u, rfl, rfl, hcontents⟩ := hcut .start []
  refine ⟨u, stop, ?_, hcontents⟩
  have hlist : scan (render lead items) = (u ++ [eofAt stop], none) := by
    unfold scan render
    rw [String.toList_ofList, ← List.append_nil (lead.spelled ++ _), hscan, scanFrom]
    simp
  rw [tokenize, hlist]

end Token

end BraceScript
