import BraceScript.Proofs.LexicalRules

/-!
# The tokens of a text cover it

Nothing of a text is lost when it is cut into tokens.  `Token.Cover` says that tokens stand in a text one after
another, each spelled as it is spelled there and by the longest match of a rule, with nothing but blanks and comments
around them (`Lexeme.Gap`), and that their spans are exact: `Position.behind` computes a place from the text before
it.

The result is `Token.tokenize_covers`, for texts that are tokens throughout and for texts with a fault: there it
describes the text before the fault, and `LexicalError.Explains` what stands at the fault.
-/

namespace BraceScript

/-! ### Places -/

namespace Position

/-- The place behind the text `before`: its line is one more than there are line feeds, its column one more than
there are characters since the last one, and its offset the number of bytes. -/
def behind (before : List Char) : Position where
  line := 1 + before.count '\n'
  column := 1 + (before.reverse.takeWhile (· ≠ '\n')).length
  offset := (String.ofList before).utf8ByteSize

@[simp] theorem behind_nil : behind [] = start := rfl

private theorem step_behind (before : List Char) (c : Char) : (behind before).step c = behind (before ++ [c]) := by
  unfold step behind
  by_cases hc : c = '\n'
  · subst hc
    have hsize : '\n'.utf8Size = "\n".utf8ByteSize := rfl
    simp [Nat.add_assoc, hsize]
  · simp [hc, Nat.add_comm]

theorem advance_behind (before cs : List Char) : (behind before).advance cs = behind (before ++ cs) := by
  induction cs generalizing before with
  | nil => simp
  | cons c cs ih => rw [advance_cons, step_behind, ih, List.append_assoc, List.singleton_append]

private theorem offset_behind (before : List Char) :
    (behind before).offset = (String.ofList before).toByteArray.size :=
  String.size_toByteArray.symm

theorem offset_behind_append (before cs : List Char) :
    (behind (before ++ cs)).offset = (behind before).offset + (behind cs).offset := by
  simp [behind]

theorem offset_behind_pos {cs : List Char} (h : cs ≠ []) : 0 < (behind cs).offset := by
  rw [Nat.pos_iff_ne_zero]
  simpa [behind] using h

/-- The bytes between two places of a text are those of the characters between them. -/
private theorem extract_between (pre cs post : List Char) :
    (String.ofList (pre ++ cs ++ post)).toByteArray.extract (behind pre).offset (behind (pre ++ cs)).offset =
      (String.ofList cs).toByteArray := by
  have hstart : (behind pre).offset = (String.ofList pre).toByteArray.size + 0 := offset_behind pre
  have hstop : (behind (pre ++ cs)).offset =
      (String.ofList pre).toByteArray.size + (String.ofList cs).toByteArray.size := by
    rw [offset_behind_append, offset_behind, offset_behind]
  rw [List.append_assoc, String.ofList_append, String.toByteArray_append, String.ofList_append,
    String.toByteArray_append, hstart, hstop, ByteArray.extract_append_size_add,
    ByteArray.extract_append_eq_left rfl]

end Position

/-! ### Gaps -/

namespace Lexeme

/-- Blanks and comments with `rest` behind them.  A comment after `//` goes on to the next line feed or to the end of
the text, one after `/*` to the first `*/`. -/
inductive Gap : List Char → List Char → Prop where
  | nil (rest : List Char) : Gap [] rest
  | blank {c : Char} {cs rest : List Char} (hc : isBlank c = true) (h : Gap cs rest) : Gap (c :: cs) rest
  | line {body cs rest : List Char} (hbody : '\n' ∉ body) (hend : ∀ c ∈ (cs ++ rest).head?, c = '\n')
      (h : Gap cs rest) : Gap ('/' :: '/' :: body ++ cs) rest
  | block {body cs rest : List Char} (hbody : ¬ ['*', '/'] <:+: body) (h : Gap cs rest) :
      Gap ('/' :: '*' :: body ++ '*' :: '/' :: cs) rest

variable {c : Char} {cs : List Char} {n : Nat}

/-- In front of the text `behind`, the text `piece` makes a gap longer. -/
def Widens (piece behind : List Char) : Prop :=
  ∀ gap rest, gap ++ rest = behind → Gap gap rest → Gap (piece ++ gap) rest

private theorem widens_blanks {piece behind : List Char} (h : ∀ c ∈ piece, isBlank c = true) :
    Widens piece behind := by
  intro gap rest _ hgap
  induction piece with
  | nil => exact hgap
  | cons c cs ih => exact .blank (h c (by simp)) (ih fun d hd => h d (by simp [hd]))

private theorem readSymbol_role (c : Char) (cs : List Char) :
    (∃ kind, (readSymbol c cs).role = .token kind) ∨ (readSymbol c cs).role = .unexpected := by
  unfold readSymbol
  split
  · exact .inl ⟨_, rfl⟩
  · exact .inl ⟨_, rfl⟩
  · exact .inr rfl

/-- Besides tokens and faults in them there are blanks and the two kinds of comment. -/
private theorem read_cases (c : Char) (cs : List Char) :
    ((∃ kind, (read c cs).role = .token kind) ∨ (read c cs).role = .unexpected) ∨
    (isBlank c = true ∧ read c cs = ⟨.blank, (cs.takeWhile isBlank).length⟩) ∨
    (∃ rest, c :: cs = '/' :: '/' :: rest ∧ read c cs = ⟨.blank, 1 + (rest.takeWhile (· ≠ '\n')).length⟩) ∨
    (∃ rest n, c :: cs = '/' :: '*' :: rest ∧ commentEnd? rest = some n ∧ read c cs = ⟨.blank, 1 + n⟩) ∨
    (∃ rest, c :: cs = '/' :: '*' :: rest ∧ commentEnd? rest = none ∧
      read c cs = ⟨.unterminatedComment, 1 + rest.length⟩) := by
  unfold read
  split
  · rename_i hblank
    exact .inr (.inl ⟨hblank, rfl⟩)
  split
  · exact .inl (.inl ⟨_, rfl⟩)
  split
  · simp only [readWord]
    split <;> exact .inl (.inl ⟨_, rfl⟩)
  split
  · simp only [readString]
    split
    · exact .inl (.inl ⟨_, rfl⟩)
    · exact .inl (.inr rfl)
  split
  · unfold readChar
    split
    · split
      · exact .inl (.inr rfl)
      · exact .inl (.inl ⟨_, rfl⟩)
    · exact .inl (.inr rfl)
  split
  · exact .inr (.inr (.inl ⟨_, rfl, rfl⟩))
  · split
    · rename_i hend
      exact .inr (.inr (.inr (.inl ⟨_, _, rfl, hend, rfl⟩)))
    · rename_i hend
      exact .inr (.inr (.inr (.inr ⟨_, rfl, hend, rfl⟩)))
  · exact .inl (readSymbol_role _ _)

/-- What is read as blank belongs to a gap. -/
private theorem widens_of_read (h : read c cs = ⟨.blank, n⟩) : Widens (c :: cs.take n) (cs.drop n) := by
  rcases read_cases c cs with (⟨kind, hrole⟩ | hrole) | ⟨hblank, hread⟩ | ⟨rest, heq, hread⟩ |
    ⟨rest, m, heq, hend, hread⟩ | ⟨rest, -, -, hread⟩
  · simp [h] at hrole
  · simp [h] at hrole
  · obtain rfl := (Lexeme.mk.inj (hread.symm.trans h)).2
    obtain ⟨part, rest, rfl, hpart, hrest⟩ := exists_run isBlank cs
    rw [takeWhile_eq hpart hrest, List.take_left]
    exact widens_blanks (List.forall_mem_cons.2 ⟨hblank, hpart⟩)
  · obtain rfl := (Lexeme.mk.inj (hread.symm.trans h)).2
    obtain ⟨rfl, rfl⟩ := List.cons.inj heq
    obtain ⟨body, behind, rfl, hbody, hstop⟩ := exists_run (· ≠ '\n') rest
    rw [takeWhile_eq hbody hstop, Nat.add_comm, List.take_succ_cons, List.drop_succ_cons, List.take_left,
      List.drop_left]
    rintro gap rest rfl hgap
    exact .line (fun hmem => by simpa using hbody _ hmem) (fun d hd => by simpa using hstop d hd) hgap
  · obtain rfl := (Lexeme.mk.inj (hread.symm.trans h)).2
    obtain ⟨rfl, rfl⟩ := List.cons.inj heq
    obtain ⟨body, behind, rfl, rfl, hbody⟩ := commentEnd?_eq_some hend
    have hlength : body.length + 2 = (body ++ ['*', '/']).length := by simp
    have hsplit : body ++ '*' :: '/' :: behind = (body ++ ['*', '/']) ++ behind := by simp
    rw [Nat.add_comm, List.take_succ_cons, List.drop_succ_cons, hlength, hsplit, List.take_left, List.drop_left]
    intro gap rest _ hgap
    have hblock := Gap.block hbody hgap
    simpa using hblock
  · cases hread.symm.trans h

private theorem read_eq_unterminated (h : (read c cs).role = .unterminatedComment) :
    ∃ body, c :: cs = '/' :: '*' :: body ∧ ¬ ['*', '/'] <:+: body := by
  rcases read_cases c cs with (⟨kind, hrole⟩ | hrole) | ⟨-, hread⟩ | ⟨rest, -, hread⟩ | ⟨rest, m, -, -, hread⟩ |
    ⟨rest, heq, hend, -⟩
  · cases hrole.symm.trans h
  · cases hrole.symm.trans h
  · simp [hread] at h
  · simp [hread] at h
  · simp [hread] at h
  · exact ⟨rest, heq, commentEnd?_eq_none hend⟩

end Lexeme

/-! ### Tokens in their text -/

namespace Token

open Lexeme

/-- The characters of a token in its text: strings and characters have their quotes around them. -/
def spelling (t : Token) : List Char :=
  match t.kind with
  | .string => '"' :: t.text.toList ++ ['"']
  | .char => '\'' :: t.text.toList ++ ['\'']
  | _ => t.text.toList

private theorem spelling_mk {kind : Kind} {cs : List Char} (h : Rule (.token kind) cs) (span : Span) :
    spelling ⟨kind, textOf kind cs, span⟩ = cs := by
  generalize hrole : Role.token kind = role at h
  cases h with
  | blanks | lineComment | blockComment => cases hrole
  | whole | fraction | symbol => cases hrole; simp [spelling, textOf]
  | @word c part hc hpart =>
    cases hrole
    cases Keyword.ofWord? (String.ofList (c :: part)) <;> simp [spelling, textOf]
  | string | char => cases hrole; simp [spelling, textOf]

/-- The tokens stand in the text `cs`, with `before` in front of it and `rest` behind: around them is nothing but
blanks and comments, each is spelled by a rule and no rule reaches further there, and spans are exact. -/
inductive Cover : List Char → List Token → List Char → List Char → Prop where
  | gap {before cs rest : List Char} (h : Gap cs rest) : Cover before [] cs rest
  | token {before gap cs rest : List Char} {t : Token} {tokens : List Token}
      (hgap : Gap gap (t.spelling ++ cs ++ rest)) (hrule : Rule (.token t.kind) t.spelling)
      (hlongest : ∀ role ds, Rule role ds → ds <+: t.spelling ++ cs ++ rest → ds.length ≤ t.spelling.length)
      (hspan : t.span = ⟨.behind (before ++ gap), .behind (before ++ gap ++ t.spelling)⟩)
      (h : Cover (before ++ gap ++ t.spelling) tokens cs rest) :
      Cover before (t :: tokens) (gap ++ t.spelling ++ cs) rest

variable {before cs rest : List Char} {tokens : List Token}

private theorem Cover.widen {piece : List Char} (hpiece : Widens piece (cs ++ rest))
    (h : Cover (before ++ piece) tokens cs rest) : Cover before tokens (piece ++ cs) rest := by
  cases h with
  | gap h => exact .gap (hpiece _ _ rfl h)
  | @token _ gap cs _ t tokens hgap hrule hlongest hspan h =>
    have hwide : Gap (piece ++ gap) (t.spelling ++ cs ++ rest) := hpiece _ _ (by simp) hgap
    have hcover : Cover before (t :: tokens) (piece ++ gap ++ t.spelling ++ cs) rest :=
      .token hwide hrule hlongest (by simpa using hspan) (by simpa using h)
    simpa using hcover

theorem kind_ne_eof_of_rule {kind : Kind} (h : Rule (.token kind) cs) : kind ≠ .eof := by
  rintro rfl
  generalize hrole : Role.token Kind.eof = role at h
  cases h with
  | @word c part hc hpart =>
    generalize Keyword.ofWord? _ = keyword at hrole
    cases keyword <;> simp at hrole
  | _ => cases hrole

theorem spelling_ne_nil_of_rule {role : Role} (h : Rule role cs) : cs ≠ [] := by
  cases h with
  | blanks hne => exact hne
  | symbol s => cases s <;> simp [Symbol.text]
  | _ => simp

/-- Each token stands somewhere in the text, and its span says where. -/
theorem Cover.mem (h : Cover before tokens cs rest) {t : Token} (ht : t ∈ tokens) :
    Rule (.token t.kind) t.spelling ∧ ∃ pre post, cs = pre ++ t.spelling ++ post ∧
      t.span = ⟨.behind (before ++ pre), .behind (before ++ pre ++ t.spelling)⟩ := by
  induction h with
  | gap => simp at ht
  | @token before gap cs rest u tokens hgap hrule _ hspan _ ih =>
    rcases List.mem_cons.1 ht with rfl | ht
    · exact ⟨hrule, gap, cs, rfl, hspan⟩
    · obtain ⟨hrule, pre, post, rfl, hspan⟩ := ih ht
      exact ⟨hrule, gap ++ u.spelling ++ pre, post, by simp, by simpa using hspan⟩

/-- A token ends before the next one starts. -/
private theorem Cover.pairwise (h : Cover before tokens cs rest) :
    tokens.Pairwise fun t u => t.span.stop.offset ≤ u.span.start.offset := by
  induction h with
  | gap => exact .nil
  | @token before gap cs rest t tokens hgap hrule _ hspan h ih =>
    refine .cons (fun u hu => ?_) ih
    obtain ⟨-, pre, post, -, hu⟩ := h.mem hu
    rw [hspan, hu, Position.offset_behind_append _ pre]
    exact Nat.le_add_right _ _

/-- The tokens of a text `text` that `rest` follows. -/
structure Laid (tokens : List Token) (text rest : List Char) : Prop where
  cover : Cover [] tokens text rest
  ordered : tokens.Pairwise fun t u => t.span.stop.offset ≤ u.span.start.offset
  placed : ∀ t ∈ tokens, ∃ pre post, text = pre ++ t.spelling ++ post ∧
    t.span = ⟨.behind pre, .behind (pre ++ t.spelling)⟩
  ne_eof : ∀ t ∈ tokens, t.kind ≠ .eof
  nonempty : ∀ t ∈ tokens, t.span.start.offset < t.span.stop.offset
  bytes : ∀ t ∈ tokens, (String.ofList text).toByteArray.extract t.span.start.offset t.span.stop.offset =
    (String.ofList t.spelling).toByteArray

theorem Cover.laid {text : List Char} (h : Cover [] tokens text rest) : Laid tokens text rest where
  cover := h
  ordered := h.pairwise
  placed t ht := (h.mem ht).2
  ne_eof t ht := kind_ne_eof_of_rule (h.mem ht).1
  nonempty t ht := by
    obtain ⟨hrule, pre, post, -, hspan⟩ := h.mem ht
    have hpos := Position.offset_behind_pos (spelling_ne_nil_of_rule hrule)
    rw [hspan, Position.offset_behind_append _ t.spelling]
    exact Nat.lt_add_of_pos_right hpos
  bytes t ht := by
    obtain ⟨-, pre, post, rfl, hspan⟩ := h.mem ht
    rw [hspan]
    exact Position.extract_between pre t.spelling post

end Token

/-- The fault stands behind the text `before`, where `rest` begins: a comment that is never closed, or a character at
which no rule applies. -/
def LexicalError.Explains (e : LexicalError) (before rest : List Char) : Prop :=
  e.span.start = .behind before ∧ (∃ n, e.span.stop = .behind (before ++ rest.take (n + 1))) ∧
  match e.cause with
  | .unterminatedComment => ∃ body, rest = '/' :: '*' :: body ∧ ¬ ['*', '/'] <:+: body
  | .unexpectedCharacter c line =>
    rest.head? = some c ∧ line = e.span.start.line ∧ ∀ role ds, Lexeme.Rule role ds → ¬ ds <+: rest

namespace Token

open Lexeme

variable {c : Char} {n : Nat} {kind : Kind}

private theorem longest_of_read (h : read c cs = ⟨.token kind, n⟩) {role : Role} {ds : List Char}
    (hrule : Rule role ds) (hds : ds <+: c :: cs) : ds.length ≤ (c :: cs.take n).length := by
  obtain ⟨-, hreach⟩ := hrule.reaches hds
  have hlength := hds.length_le
  rw [h] at hreach
  simp only [List.length_cons, List.length_take] at *
  omega

/-- Text cut off behind a stretch that was read does not change what was read. -/
private theorem read_take_append {pre : List Char} (hunexpected : (read c cs).role ≠ .unexpected)
    (hcomment : (read c cs).role ≠ .unterminatedComment) (hn : (read c cs).tail = n) (hpre : pre <+: cs.drop n) :
    read c (cs.take n ++ pre) = read c cs ∧ (cs.take n ++ pre).take n = cs.take n ∧
      (cs.take n ++ pre).drop n = pre := by
  have htake : cs.take n ++ pre = cs.take (n + pre.length) := by
    rw [List.take_add, ← List.prefix_iff_eq_take.1 hpre]
  rw [htake]
  refine ⟨read_take hunexpected hcomment (by omega), ?_, ?_⟩
  · rw [List.take_take, Nat.min_eq_left (by omega)]
  · rw [List.drop_take, Nat.add_sub_cancel_left, ← List.prefix_iff_eq_take.1 hpre]

/-- How far the tokens of `cs` go: up to a text `rest`, which is empty if there is no fault and else explains it, and
the text before it has the same tokens alone. -/
theorem scanFrom_cover (done : List Token) (cs : List Char) (before : List Char) :
    ∃ front pre rest, cs = pre ++ rest ∧ Cover before front pre rest ∧
      scanFrom (.behind before) done pre = (done.reverse ++ front ++ [eofAt (.behind (before ++ pre))], none) ∧
      (rest = [] ∨ ∃ e, scanFrom (.behind before) done cs = (done.reverse ++ front, some e) ∧
        e.Explains (before ++ pre) rest) := by
  generalize hp : Position.behind before = p
  induction p, done, cs using scanFrom.induct generalizing before with
  | case1 p done =>
    subst hp
    exact ⟨[], [], [], rfl, .gap (.nil _), by simp [scanFrom], .inl rfl⟩
  | case2 p done c cs lexeme spelled span kind hrole ih =>
    subst hp
    have hread : read c cs = ⟨.token kind, lexeme.tail⟩ := by rw [← hrole]
    have hstop : span.stop = .behind (before ++ spelled) := Position.advance_behind _ _
    have hrule : Rule (.token kind) spelled := read_rule hread
    obtain ⟨front, pre, rest, hcs, hcover, hscan, hfault⟩ := ih (before ++ spelled) hstop.symm
    obtain ⟨hsame, htake, hdrop⟩ : read c (cs.take lexeme.tail ++ pre) = read c cs ∧ _ :=
      read_take_append (by simp [hread]) (by simp [hread]) rfl ⟨rest, hcs.symm⟩
    let t : Token := ⟨kind, textOf kind spelled, span⟩
    have hspelling : t.spelling = spelled := spelling_mk hrule span
    have htext : c :: cs = spelled ++ pre ++ rest := by
      rw [List.append_assoc, ← hcs, List.cons_append, List.take_append_drop]
    refine ⟨t :: front, spelled ++ pre, rest, htext, ?_, ?_, ?_⟩
    · have hlongest : ∀ role ds, Rule role ds → ds <+: spelled ++ pre ++ rest → ds.length ≤ spelled.length :=
        fun role ds hds hbefore => longest_of_read hread hds (htext ▸ hbefore)
      have hspan : t.span = ⟨.behind (before ++ []), .behind (before ++ [] ++ spelled)⟩ := by
        rw [List.append_nil, ← hstop]
      have hcover : Cover (before ++ [] ++ spelled) front pre rest := by rwa [List.append_nil]
      rw [← hspelling] at hrule hlongest hspan hcover ⊢
      exact .token (.nil _) hrule hlongest hspan hcover
    · have hstep : scanFrom (.behind before) done (spelled ++ pre) = scanFrom span.stop (t :: done) pre := by
        rw [List.cons_append, scanFrom_token (hsame.trans hread), htake, hdrop]
      rw [hstep, ← List.append_assoc before]
      simpa using hscan
    · have hstep : scanFrom (.behind before) done (c :: cs) = scanFrom span.stop (t :: done) (cs.drop lexeme.tail) :=
        scanFrom_token hread _ _
      rw [hstep]
      simpa using hfault
  | case3 p done c cs lexeme spelled span hrole ih =>
    subst hp
    have hread : read c cs = ⟨.blank, lexeme.tail⟩ := by rw [← hrole]
    have hstop : span.stop = .behind (before ++ spelled) := Position.advance_behind _ _
    obtain ⟨front, pre, rest, hcs, hcover, hscan, hfault⟩ := ih (before ++ spelled) hstop.symm
    obtain ⟨hsame, htake, hdrop⟩ : read c (cs.take lexeme.tail ++ pre) = read c cs ∧ _ :=
      read_take_append (by simp [hread]) (by simp [hread]) rfl ⟨rest, hcs.symm⟩
    refine ⟨front, spelled ++ pre, rest, ?_, hcover.widen ?_, ?_, ?_⟩
    · rw [List.append_assoc, ← hcs, List.cons_append, List.take_append_drop]
    · rw [← hcs]
      exact widens_of_read hread
    · have hstep : scanFrom (.behind before) done (spelled ++ pre) = scanFrom span.stop done pre := by
        rw [List.cons_append, scanFrom_blank (hsame.trans hread), htake, hdrop]
      rw [hstep, ← List.append_assoc before]
      exact hscan
    · have hstep : scanFrom (.behind before) done (c :: cs) = scanFrom span.stop done (cs.drop lexeme.tail) :=
        scanFrom_blank hread _ _
      rw [hstep, ← List.append_assoc before]
      exact hfault
  | case4 p done c cs lexeme hrole =>
    subst hp
    have hstop := Position.advance_behind before (c :: cs.take lexeme.tail)
    have hscan : scanFrom (.behind before) done (c :: cs) = (done.reverse, some ⟨.unterminatedComment,
        ⟨.behind before, (Position.behind before).advance (c :: cs.take lexeme.tail)⟩⟩) := by
      rw [scanFrom]
      simp only [show (read c cs).role = .unterminatedComment from hrole, lexeme]
    refine ⟨[], [], c :: cs, rfl, .gap (.nil _), by simp [scanFrom], .inr ⟨_, by simpa using hscan, ?_⟩⟩
    rw [List.append_nil]
    exact ⟨rfl, ⟨lexeme.tail, hstop⟩, read_eq_unterminated hrole⟩
  | case5 p done c cs lexeme hrole =>
    subst hp
    have hstop := Position.advance_behind before (c :: cs.take lexeme.tail)
    have hscan : scanFrom (.behind before) done (c :: cs) = (done.reverse,
        some ⟨.unexpectedCharacter c (Position.behind before).line,
          ⟨.behind before, (Position.behind before).advance (c :: cs.take lexeme.tail)⟩⟩) := by
      rw [scanFrom]
      simp only [show (read c cs).role = .unexpected from hrole, lexeme]
    refine ⟨[], [], c :: cs, rfl, .gap (.nil _), by simp [scanFrom], .inr ⟨_, by simpa using hscan, ?_⟩⟩
    rw [List.append_nil]
    exact ⟨rfl, ⟨lexeme.tail, hstop⟩, rfl, rfl, fun role ds hrule hds => (hrule.reaches hds).1 hrole⟩

/-- The tokens of a text are laid out in it and end with its end.  Where there is a fault, the text before it is cut
into the tokens found so far, and the fault is explained by what follows. -/
theorem tokenize_covers (source : String) :
    match tokenize source with
    | .ok tokens => ∃ front, tokens = front ++ [eofAt (.behind source.toList)] ∧ Laid front source.toList []
    | .error e => ∃ front before rest, source.toList = before ++ rest ∧ scan source = (front, some e) ∧
        tokenize (String.ofList before) = .ok (front ++ [eofAt (.behind before)]) ∧ Laid front before rest ∧
        e.Explains before rest := by
  obtain ⟨front, before, rest, htext, hcover, hscan, hfault⟩ := scanFrom_cover [] source.toList []
  have hbefore : tokenize (String.ofList before) = .ok (front ++ [eofAt (.behind before)]) := by
    have hscan : scan (String.ofList before) = (front ++ [eofAt (.behind before)], none) := by
      simpa [scan] using hscan
    simp only [tokenize, hscan]
  rcases hfault with rfl | ⟨e, hfault, hexplains⟩
  · rw [List.append_nil] at htext
    rw [← htext, String.ofList_toList] at hbefore
    rw [hbefore, htext]
    exact ⟨front, rfl, hcover.laid⟩
  · have hscan : scan source = (front, some e) := by simpa [scan] using hfault
    have herror : tokenize source = .error e := by simp only [tokenize, hscan]
    rw [herror]
    exact ⟨front, before, rest, htext, hscan, hbefore, hcover.laid, by simpa using hexplains⟩

end Token

end BraceScript
