import BraceScript.Proofs.Lexing

/-!
# The lexical rules and longest match

`Lexeme.Rule` lists the rules for the stretches of a text, one constructor each.  `Lexeme.read` applies them by
longest match: a token is spelled by a rule (`read_rule`), no rule reaches further than what is read, and where a
character is unexpected no rule applies at all (`Rule.reaches`).  What is read does not depend on the text further on
(`read_take`).
-/

namespace BraceScript.Lexeme

/-- The rules.  The one for `/*` only says where a comment starts; it ends with the first `*/`, if there is one. -/
inductive Rule : Role → List Char → Prop where
  | blanks {cs : List Char} (hne : cs ≠ []) (h : ∀ c ∈ cs, isBlank c = true) : Rule .blank cs
  | lineComment {body : List Char} (h : '\n' ∉ body) : Rule .blank ('/' :: '/' :: body)
  | blockComment : Rule .unterminatedComment ['/', '*']
  | whole {c : Char} {cs : List Char} (hc : c.isDigit = true) (h : ∀ d ∈ cs, d.isDigit = true) :
      Rule (.token .number) (c :: cs)
  | fraction {c d : Char} {cs ds : List Char} (hc : c.isDigit = true) (h : ∀ e ∈ cs, e.isDigit = true)
      (hd : d.isDigit = true) (h' : ∀ e ∈ ds, e.isDigit = true) : Rule (.token .number) (c :: cs ++ '.' :: d :: ds)
  | word {c : Char} {part : List Char} (hc : isIdentStart c = true) (h : ∀ d ∈ part, isIdentPart d = true) :
      Rule (.token (((Keyword.ofWord? (String.ofList (c :: part))).map Kind.keyword).getD .ident)) (c :: part)
  | string {body : List Char} (h : '"' ∉ body) : Rule (.token .string) ('"' :: body ++ ['"'])
  | char {c : Char} (h : c ≠ '\'') : Rule (.token .char) ['\'', c, '\'']
  | symbol (s : Symbol) : Rule (.token (.symbol s)) s.text.toList

variable {c : Char} {cs part rest : List Char}

/-! ### Runs of characters -/

private theorem length_le_takeWhile {p : Char → Bool} (hpart : ∀ c ∈ part, p c = true) (h : part <+: cs) :
    part.length ≤ (cs.takeWhile p).length := by
  obtain ⟨rest, rfl⟩ := h
  rw [List.takeWhile_append_of_pos hpart, List.length_append]
  omega

private theorem takeWhile_take {p : Char → Bool} {k : Nat} (h : (cs.takeWhile p).length ≤ k) :
    (cs.take k).takeWhile p = cs.takeWhile p := by
  rw [← List.take_takeWhile, List.take_of_length_le h]

/-- A text is the run of characters of a class, then something that does not continue it. -/
theorem exists_run (p : Char → Bool) (cs : List Char) :
    ∃ part rest, cs = part ++ rest ∧ (∀ c ∈ part, p c = true) ∧ Stops p rest := by
  refine ⟨cs.takeWhile p, cs.dropWhile p, List.takeWhile_append_dropWhile.symm,
    fun c hc => List.all_eq_true.1 List.all_takeWhile c hc, ?_⟩
  intro c hc
  have hnot := List.head?_dropWhile_not p cs
  rw [Option.mem_def.1 hc] at hnot
  simpa using hnot

/-! ### Numbers -/

/-- A point that starts no fraction. -/
def NoFraction (rest : List Char) : Prop := ∀ ds, rest = '.' :: ds → Stops Char.isDigit ds

theorem numberTail_whole (hpart : ∀ d ∈ part, d.isDigit = true) (hrest : Stops Char.isDigit rest)
    (hpoint : NoFraction rest) : numberTail (part ++ rest) = part.length := by
  simp only [numberTail, takeWhile_eq hpart hrest, dropWhile_eq hpart hrest]
  split
  · rename_i ds
    rw [takeWhile_eq_nil (hpoint ds rfl)]
  · rfl

theorem numberTail_fraction {d : Char} {ds : List Char} (hpart : ∀ e ∈ part, e.isDigit = true)
    (hd : d.isDigit = true) (hds : ∀ e ∈ ds, e.isDigit = true) (hrest : Stops Char.isDigit rest) :
    numberTail (part ++ '.' :: d :: ds ++ rest) = part.length + 1 + (ds.length + 1) := by
  have hstop : Stops Char.isDigit ('.' :: d :: ds ++ rest) := by simp [Stops]
  have hfraction : (d :: ds ++ rest).takeWhile Char.isDigit = d :: ds :=
    takeWhile_eq (List.forall_mem_cons.2 ⟨hd, hds⟩) hrest
  simp only [List.cons_append] at hstop hfraction
  simp only [numberTail, List.append_assoc, List.cons_append, takeWhile_eq hpart hstop, dropWhile_eq hpart hstop,
    hfraction, List.length_cons]

/-- The digits of a number are a whole number, or also a fraction. -/
theorem number_cases (cs : List Char) :
    (∃ part rest, cs = part ++ rest ∧ (∀ d ∈ part, d.isDigit = true) ∧ Stops Char.isDigit rest ∧ NoFraction rest) ∨
      ∃ part d ds rest, cs = part ++ '.' :: d :: ds ++ rest ∧ (∀ e ∈ part, e.isDigit = true) ∧ d.isDigit = true ∧
        (∀ e ∈ ds, e.isDigit = true) ∧ Stops Char.isDigit rest := by
  obtain ⟨part, rest, rfl, hpart, hrest⟩ := exists_run Char.isDigit cs
  by_cases hpoint : NoFraction rest
  · exact .inl ⟨part, rest, rfl, hpart, hrest, hpoint⟩
  · simp only [NoFraction, Classical.not_forall] at hpoint
    obtain ⟨more, rfl, hmore⟩ := hpoint
    obtain ⟨digits, behind, rfl, hdigits, hbehind⟩ := exists_run Char.isDigit more
    cases digits with
    | nil => exact absurd hbehind hmore
    | cons d ds =>
      refine .inr ⟨part, d, ds, behind, by simp, hpart, hdigits d (by simp), ?_, hbehind⟩
      exact fun e he => hdigits e (by simp [he])

/-! ### Comments -/

theorem commentEnd?_eq_none (h : commentEnd? cs = none) : ¬ ['*', '/'] <:+: cs := by
  fun_induction commentEnd? cs with
  | case1 => simp
  | case2 rest => cases h
  | case3 c cs hhead ih =>
    rw [Option.map_eq_none_iff] at h
    rw [List.infix_cons_iff]
    rintro (⟨more, hmore⟩ | hinfix)
    · obtain ⟨rfl, rfl⟩ := List.cons.inj hmore
      exact hhead _ rfl rfl
    · exact ih h hinfix

theorem commentEnd?_eq_some {n : Nat} (h : commentEnd? cs = some n) :
    ∃ body rest, cs = body ++ '*' :: '/' :: rest ∧ n = body.length + 2 ∧ ¬ ['*', '/'] <:+: body := by
  fun_induction commentEnd? cs generalizing n with
  | case1 => cases h
  | case2 rest =>
    cases h
    exact ⟨[], rest, rfl, rfl, by simp⟩
  | case3 c cs hhead ih =>
    obtain ⟨m, hm, rfl⟩ := Option.map_eq_some_iff.1 h
    obtain ⟨body, rest, rfl, rfl, hbody⟩ := ih hm
    refine ⟨c :: body, rest, rfl, by simp, ?_⟩
    rw [List.infix_cons_iff]
    rintro (⟨more, hmore⟩ | hinfix)
    · -- the comment would have ended at its first character
      obtain ⟨rfl, rfl⟩ := List.cons.inj hmore
      exact hhead _ rfl rfl
    · exact hbody hinfix

theorem commentEnd?_append {body : List Char} (hbody : ¬ ['*', '/'] <:+: body) (rest : List Char) :
    commentEnd? (body ++ '*' :: '/' :: rest) = some (body.length + 2) := by
  induction body with
  | nil => rfl
  | cons c body ih =>
    rw [List.infix_cons_iff, not_or] at hbody
    obtain ⟨hhead, htail⟩ := hbody
    rw [List.cons_append, commentEnd?, ih htail]
    · rfl
    · intro more hc hmore
      cases body with
      | nil => cases hmore
      | cons d body =>
        obtain ⟨rfl, -⟩ := List.cons.inj hmore
        exact hhead ⟨body, by rw [hc]; rfl⟩

private theorem commentEnd?_take {n k : Nat} (h : commentEnd? cs = some n) (hk : n ≤ k) :
    commentEnd? (cs.take k) = some n := by
  fun_induction commentEnd? cs generalizing n k with
  | case1 => cases h
  | case2 rest =>
    cases h
    obtain ⟨k, rfl⟩ := Nat.exists_eq_add_of_le' hk
    rfl
  | case3 c cs hhead ih =>
    obtain ⟨m, hm, rfl⟩ := Option.map_eq_some_iff.1 h
    obtain ⟨k, rfl⟩ := Nat.exists_eq_add_of_le' (Nat.le_of_add_left_le hk)
    rw [List.take_succ_cons, commentEnd?, ih hm (Nat.le_of_add_le_add_right hk)]
    · rfl
    · intro rest hc hrest
      cases cs with
      | nil => simp at hrest
      | cons d cs =>
        cases k with
        | zero => simp at hrest
        | succ k =>
          rw [List.take_succ_cons] at hrest
          exact hhead cs hc (by rw [(List.cons.inj hrest).1])

/-! ### What is read follows a rule -/

private theorem readString_rule {kind : Kind} {n : Nat} (h : readString cs = ⟨.token kind, n⟩) :
    Rule (.token kind) ('"' :: cs.take n) := by
  obtain ⟨body, rest, rfl, hbody, hrest⟩ := exists_run (· ≠ '"') cs
  have hquote : '"' ∉ body := fun hmem => by simpa using hbody _ hmem
  simp only [readString, takeWhile_eq hbody hrest] at h
  split at h
  · rename_i hlt
    cases h
    cases rest with
    | nil => simp at hlt
    | cons d rest =>
      have hd : d = '"' := by simpa using hrest d rfl
      have htake : (body ++ d :: rest).take (body.length + 1) = body ++ ['"'] := by
        rw [hd, List.take_length_add_append]
        rfl
      rw [htake]
      exact .string hquote
  · cases h

private theorem readSymbol_rule {kind : Kind} {n : Nat} (h : readSymbol c cs = ⟨.token kind, n⟩) :
    Rule (.token kind) (c :: cs.take n) := by
  unfold readSymbol at h
  split at h
  · rename_i s hpair
    cases h
    obtain ⟨d, hd, hof⟩ := Option.bind_eq_some_iff.1 hpair
    obtain ⟨rest, rfl⟩ : ∃ rest, cs = d :: rest := List.head?_eq_some_iff.1 hd
    have htext : s.text.toList = [c, d] := by
      unfold Symbol.ofPair? at hof
      split at hof <;> cases hof <;> rfl
    rw [List.take_succ_cons, List.take_zero, ← htext]
    exact .symbol s
  · rename_i s _ hchar
    cases h
    have htext : s.text.toList = [c] := by
      unfold Symbol.ofChar? at hchar
      split at hchar <;> cases hchar <;> rfl
    rw [List.take_zero, ← htext]
    exact .symbol s
  · cases h

private theorem number_rule (hc : c.isDigit = true) : Rule (.token .number) (c :: cs.take (numberTail cs)) := by
  rcases number_cases cs with
      ⟨part, rest, rfl, hpart, hrest, hpoint⟩ | ⟨part, d, ds, rest, rfl, hpart, hd, hds, hrest⟩
  · rw [numberTail_whole hpart hrest hpoint, List.take_left]
    exact .whole hc hpart
  · have hlength : part.length + 1 + (ds.length + 1) = (part ++ '.' :: d :: ds).length := by simp; omega
    rw [numberTail_fraction hpart hd hds hrest, hlength, List.take_left]
    exact .fraction hc hpart hd hds

theorem read_rule {kind : Kind} {n : Nat} (h : read c cs = ⟨.token kind, n⟩) :
    Rule (.token kind) (c :: cs.take n) := by
  unfold read at h
  split at h
  · cases h
  split at h
  · rename_i hdigit
    cases h
    exact number_rule hdigit
  split at h
  · rename_i hstart
    obtain ⟨part, rest, rfl, hpart, hrest⟩ := exists_run isIdentPart cs
    have hword := Rule.word hstart hpart
    simp only [readWord, takeWhile_eq hpart hrest] at h
    split at h
    · rename_i hk
      cases h
      rw [hk] at hword
      rwa [List.take_left]
    · rename_i hk
      cases h
      rw [hk] at hword
      rwa [List.take_left]
  split at h
  · rename_i hquote
    exact hquote ▸ readString_rule h
  split at h
  · rename_i hquote
    unfold readChar at h
    split at h
    · split at h
      · cases h
      · rename_i hne
        cases h
        exact hquote ▸ .char hne
    · cases h
  split at h
  · cases h
  · split at h <;> cases h
  · exact readSymbol_rule h

/-! ### No rule reaches further -/

/-- What a rule spells at the head of a text is not unexpected, and reading takes off no less. -/
def Reaches (ds : List Char) (c : Char) (cs : List Char) : Prop :=
  (read c cs).role ≠ .unexpected ∧ ds.length ≤ (read c cs).tail + 1

private theorem reaches_number (hc : c.isDigit = true) {ds : List Char} (h : ds.length ≤ numberTail cs + 1) :
    Reaches ds c cs := by
  have hread : read c cs = ⟨.token .number, numberTail cs⟩ := by
    unfold read
    rw [if_neg (by simp [isBlank_of_isDigit hc]), if_pos hc]
  rw [Reaches, hread]
  exact ⟨by simp, h⟩

private theorem reaches_whole (hc : c.isDigit = true) (hpart : ∀ d ∈ part, d.isDigit = true) (h : part <+: cs) :
    Reaches (c :: part) c cs := by
  apply reaches_number hc
  have hle := length_le_takeWhile hpart h
  have htail : (cs.takeWhile Char.isDigit).length ≤ numberTail cs := by
    simp only [numberTail]
    split
    · split <;> omega
    · omega
  simp only [List.length_cons]
  omega

private theorem reaches_fraction (hc : c.isDigit = true) {d : Char} {ds : List Char}
    (hpart : ∀ e ∈ part, e.isDigit = true) (hd : d.isDigit = true) (hds : ∀ e ∈ ds, e.isDigit = true)
    (h : part ++ '.' :: d :: ds <+: cs) : Reaches (c :: part ++ '.' :: d :: ds) c cs := by
  apply reaches_number hc
  obtain ⟨behind, rfl⟩ := h
  -- the digits after the point may go on behind what the rule spells
  obtain ⟨more, rest, rfl, hmore, hrest⟩ := exists_run Char.isDigit behind
  have hall : ∀ e ∈ ds ++ more, e.isDigit = true := by
    intro e he
    rcases List.mem_append.1 he with he | he
    · exact hds e he
    · exact hmore e he
  have htail := numberTail_fraction hpart hd hall hrest
  have hsame : part ++ '.' :: d :: ds ++ (more ++ rest) = part ++ '.' :: d :: (ds ++ more) ++ rest := by simp
  rw [hsame, htail]
  simp only [List.length_append, List.length_cons]
  omega

private theorem reaches_word (hc : isIdentStart c = true) (hpart : ∀ d ∈ part, isIdentPart d = true)
    (h : part <+: cs) : Reaches (c :: part) c cs := by
  have hle := length_le_takeWhile hpart h
  obtain ⟨run, rest, rfl, hrun, hrest⟩ := exists_run isIdentPart cs
  rw [takeWhile_eq hrun hrest] at hle
  rw [Reaches, read_word hc hrun hrest]
  exact ⟨by simp, by simp only [List.length_cons]; omega⟩

theorem read_lineComment (cs : List Char) : read '/' ('/' :: cs) = ⟨.blank, 1 + (cs.takeWhile (· ≠ '\n')).length⟩ :=
  rfl

theorem read_comment {n : Nat} (h : commentEnd? cs = some n) : read '/' ('*' :: cs) = ⟨.blank, 1 + n⟩ := by
  simp [read, isBlank, isIdentStart, h]

theorem read_openComment (h : commentEnd? cs = none) :
    read '/' ('*' :: cs) = ⟨.unterminatedComment, 1 + cs.length⟩ := by
  simp [read, isBlank, isIdentStart, h]

private theorem read_slash {d : Char} (hd : d = '/' ∨ d = '*') :
    (read '/' (d :: cs)).role ≠ .unexpected ∧ 1 ≤ (read '/' (d :: cs)).tail := by
  rcases hd with rfl | rfl
  · rw [read_lineComment]
    exact ⟨by simp, by simp⟩
  · cases hend : commentEnd? cs with
    | some n =>
      rw [read_comment hend]
      exact ⟨by simp, by simp⟩
    | none =>
      rw [read_openComment hend]
      exact ⟨by simp, by simp⟩

private theorem reaches_symbol {s : Symbol} (h : s.text.toList <+: c :: cs) : Reaches s.text.toList c cs := by
  rcases s.text_cases with ⟨c', htext, hchar, hmark⟩ | ⟨c', d, htext, hpair, hmark, hd, hd'⟩
  · rw [htext] at h ⊢
    obtain rfl : c' = c := by simpa using h
    by_cases hcomment : c' = '/' → ∀ d ∈ cs.head?, d ≠ '/' ∧ d ≠ '*'
    · rw [Reaches, read_mark hmark hcomment]
      unfold readSymbol
      split
      · exact ⟨by simp, by simp⟩
      · exact ⟨by simp, by simp⟩
      · rename_i hnone
        rw [hchar] at hnone
        cases hnone
    · -- the symbol is a slash that starts a comment
      simp only [Classical.not_forall] at hcomment
      obtain ⟨rfl, d, hd, hne⟩ := hcomment
      obtain ⟨rest, rfl⟩ := List.head?_eq_some_iff.1 (Option.mem_def.1 hd)
      have hstart : d = '/' ∨ d = '*' := by
        by_cases hslash : d = '/'
        · exact .inl hslash
        · exact .inr (Classical.byContradiction fun hstar => hne ⟨hslash, hstar⟩)
      exact ⟨(read_slash hstart).1, by simp⟩
  · rw [htext] at h ⊢
    obtain ⟨rfl, ⟨rest, rfl⟩⟩ : c' = c ∧ ∃ rest, cs = d :: rest := by
      obtain ⟨rest, hrest⟩ := h
      obtain ⟨rfl, rfl⟩ := List.cons.inj hrest
      exact ⟨rfl, rest, rfl⟩
    rw [Reaches, read_mark hmark fun _ e he => by
      obtain rfl : d = e := Option.some.inj he
      exact ⟨hd, hd'⟩]
    simp [readSymbol, hpair]

theorem Rule.reaches {role : Role} {ds : List Char} (hrule : Rule role ds) (h : ds <+: c :: cs) :
    Reaches ds c cs := by
  cases hrule with
  | blanks hne hall =>
    obtain ⟨d, part, rfl⟩ := List.exists_cons_of_ne_nil hne
    obtain ⟨rfl, hpart⟩ := List.cons_prefix_cons.1 h
    have hle := length_le_takeWhile (fun e he => hall e (by simp [he])) hpart
    have hread : read d cs = ⟨.blank, (cs.takeWhile isBlank).length⟩ := by
      unfold read
      rw [if_pos (hall d (by simp))]
    rw [Reaches, hread]
    exact ⟨by simp, by simp only [List.length_cons]; omega⟩
  | lineComment hbody =>
    rename_i body
    obtain ⟨rfl, hrest⟩ := List.cons_prefix_cons.1 h
    cases cs with
    | nil => simp at hrest
    | cons d cs =>
      obtain ⟨rfl, hprefix⟩ := List.cons_prefix_cons.1 hrest
      have hall : ∀ e ∈ body, decide (e ≠ '\n') = true := fun e he => by
        simp only [decide_eq_true_eq]
        rintro rfl
        exact hbody he
      have hle := length_le_takeWhile hall hprefix
      change Role.blank ≠ .unexpected ∧ body.length + 1 + 1 ≤ 1 + (cs.takeWhile (· ≠ '\n')).length + 1
      exact ⟨by simp, by omega⟩
  | blockComment =>
    obtain ⟨rfl, hrest⟩ := List.cons_prefix_cons.1 h
    cases cs with
    | nil => simp at hrest
    | cons d cs =>
      obtain ⟨rfl, -⟩ := List.cons_prefix_cons.1 hrest
      obtain ⟨hrole, htail⟩ := read_slash (d := '*') (.inr rfl)
      exact ⟨hrole, Nat.succ_le_succ htail⟩
  | whole hc hpart =>
    obtain ⟨rfl, hrest⟩ := List.cons_prefix_cons.1 h
    exact reaches_whole hc hpart hrest
  | fraction hc hpart hd hds =>
    obtain ⟨rfl, hrest⟩ := List.cons_prefix_cons.1 h
    exact reaches_fraction hc hpart hd hds hrest
  | word hc hpart =>
    obtain ⟨rfl, hrest⟩ := List.cons_prefix_cons.1 h
    exact reaches_word hc hpart hrest
  | string hbody =>
    rename_i body
    obtain ⟨rfl, rest, hrest⟩ := List.cons_prefix_cons.1 h
    obtain rfl : body ++ '"' :: rest = cs := by simpa using hrest
    rw [Reaches, read_string hbody]
    exact ⟨by simp, by simp⟩
  | char hne =>
    rename_i d
    obtain ⟨rfl, rest, hrest⟩ := List.cons_prefix_cons.1 h
    obtain rfl : d :: '\'' :: rest = cs := by simpa using hrest
    rw [Reaches, read_char hne]
    exact ⟨by simp, by simp⟩
  | symbol s => exact reaches_symbol h

/-! ### Texts that are cut off -/

private theorem numberTail_take {k : Nat} (hk : numberTail cs ≤ k) : numberTail (cs.take k) = numberTail cs := by
  rcases number_cases cs with
      ⟨part, rest, rfl, hpart, hrest, hpoint⟩ | ⟨part, d, ds, rest, rfl, hpart, hd, hds, hrest⟩
  · rw [numberTail_whole hpart hrest hpoint] at hk ⊢
    obtain ⟨n, rfl⟩ := Nat.exists_eq_add_of_le hk
    rw [List.take_length_add_append]
    have hcut : ∀ {ds : List Char} (m : Nat), Stops Char.isDigit ds → Stops Char.isDigit (ds.take m) := by
      intro ds m hds e he
      cases ds with
      | nil => simp at he
      | cons d ds =>
        cases m with
        | zero => simp at he
        | succ m => exact hds e he
    apply numberTail_whole hpart (hcut n hrest)
    intro ds hds
    cases rest with
    | nil => simp at hds
    | cons e rest =>
      cases n with
      | zero => simp at hds
      | succ n =>
        rw [List.take_succ_cons] at hds
        obtain ⟨rfl, rfl⟩ := List.cons.inj hds
        exact hcut n (hpoint rest rfl)
  · rw [numberTail_fraction hpart hd hds hrest] at hk ⊢
    have hlength : part.length + 1 + (ds.length + 1) = (part ++ '.' :: d :: ds).length := by simp; omega
    rw [hlength] at hk
    obtain ⟨n, rfl⟩ := Nat.exists_eq_add_of_le hk
    rw [List.take_length_add_append]
    apply numberTail_fraction hpart hd hds
    intro e he
    cases rest with
    | nil => simp at he
    | cons f rest =>
      cases n with
      | zero => simp at he
      | succ n => exact hrest e he

private theorem readString_take {k : Nat} (hrole : (readString cs).role ≠ .unexpected)
    (hk : (readString cs).tail ≤ k) : readString (cs.take k) = readString cs := by
  by_cases hlt : (cs.takeWhile (· ≠ '"')).length < cs.length
  · have hread : readString cs = ⟨.token .string, (cs.takeWhile (· ≠ '"')).length + 1⟩ := if_pos hlt
    rw [hread] at hk ⊢
    simp only at hk
    have hrun : (cs.take k).takeWhile (· ≠ '"') = cs.takeWhile (· ≠ '"') := takeWhile_take (by omega)
    simp only [readString, hrun, List.length_take]
    exact if_pos (by omega)
  · have hread : readString cs = ⟨.unexpected, cs.length⟩ := if_neg hlt
    rw [hread] at hrole
    exact absurd rfl hrole

private theorem readChar_take {k : Nat} (hrole : (readChar cs).role ≠ .unexpected) (hk : (readChar cs).tail ≤ k) :
    readChar (cs.take k) = readChar cs := by
  obtain ⟨d, rest, rfl, hd⟩ : ∃ d rest, cs = d :: '\'' :: rest ∧ d ≠ '\'' := by
    unfold readChar at hrole
    split at hrole
    · split at hrole
      · exact absurd rfl hrole
      · rename_i hne
        exact ⟨_, _, rfl, hne⟩
    · exact absurd rfl hrole
  have hread : ∀ rest, readChar (d :: '\'' :: rest) = ⟨.token .char, 2⟩ := fun _ => if_neg hd
  rw [hread] at hk ⊢
  obtain ⟨n, rfl⟩ := Nat.exists_eq_add_of_le' hk
  exact hread _

private theorem readSymbol_take {k : Nat} (hk : (readSymbol c cs).tail ≤ k) :
    readSymbol c (cs.take k) = readSymbol c cs := by
  cases k with
  | succ k =>
    unfold readSymbol
    rw [List.head?_take]
    rfl
  | zero =>
    cases hpair : cs.head?.bind (Symbol.ofPair? c) with
    | some s =>
      simp only [readSymbol, hpair] at hk
      omega
    | none => simp [readSymbol, hpair]

/-- The rule for a text is chosen by its first character, unless this is a mark. -/
inductive FirstChar (c : Char) : Prop where
  | blank (hblank : isBlank c = true) (hread : ∀ cs, read c cs = ⟨.blank, (cs.takeWhile isBlank).length⟩)
  | digit (hread : ∀ cs, read c cs = ⟨.token .number, numberTail cs⟩)
  | word (hread : ∀ cs, read c cs = readWord c cs)
  | quote (hread : ∀ cs, read c cs = readString cs)
  | apostrophe (hread : ∀ cs, read c cs = readChar cs)
  | mark (hmark : isMark c = true)

theorem firstChar (c : Char) : FirstChar c := by
  by_cases hblank : isBlank c = true
  · exact .blank hblank fun _ => if_pos hblank
  by_cases hdigit : c.isDigit = true
  · refine .digit fun cs => ?_
    unfold read
    rw [if_neg hblank, if_pos hdigit]
  by_cases hstart : isIdentStart c = true
  · refine .word fun cs => ?_
    unfold read
    rw [if_neg hblank, if_neg hdigit, if_pos hstart]
  by_cases hquote : c = '"'
  · subst hquote
    exact .quote fun _ => rfl
  by_cases hapostrophe : c = '\''
  · subst hapostrophe
    exact .apostrophe fun _ => rfl
  exact .mark (by simp [isMark, hblank, hdigit, hstart, hquote, hapostrophe])

/-- A mark starts a comment or stands for itself. -/
theorem comment_cases (c : Char) (cs : List Char) :
    (c = '/' → ∀ d ∈ cs.head?, d ≠ '/' ∧ d ≠ '*') ∨ (∃ rest, c = '/' ∧ cs = '/' :: rest) ∨
      ∃ rest, c = '/' ∧ cs = '*' :: rest := by
  by_cases hplain : c = '/' → ∀ d ∈ cs.head?, d ≠ '/' ∧ d ≠ '*'
  · exact .inl hplain
  · simp only [Classical.not_forall] at hplain
    obtain ⟨rfl, d, hd, hne⟩ := hplain
    obtain ⟨rest, rfl⟩ := List.head?_eq_some_iff.1 (Option.mem_def.1 hd)
    by_cases hslash : d = '/'
    · exact .inr (.inl ⟨rest, rfl, by rw [hslash]⟩)
    · have hstar : d = '*' := Classical.byContradiction fun hstar => hne ⟨hslash, hstar⟩
      exact .inr (.inr ⟨rest, rfl, by rw [hstar]⟩)

private theorem readMark_take {k : Nat} (hmark : isMark c = true)
    (hcomment : (read c cs).role ≠ .unterminatedComment) (hk : (read c cs).tail ≤ k) :
    read c (cs.take k) = read c cs := by
  rcases comment_cases c cs with hplain | ⟨rest, rfl, rfl⟩ | ⟨rest, rfl, rfl⟩
  · have hplain' : c = '/' → ∀ d ∈ (cs.take k).head?, d ≠ '/' ∧ d ≠ '*' := by
      intro hc d hd
      rw [List.head?_take] at hd
      split at hd
      · cases hd
      · exact hplain hc d hd
    rw [read_mark hmark hplain] at hk ⊢
    rw [read_mark hmark hplain']
    exact readSymbol_take hk
  · rw [read_lineComment] at hk
    obtain ⟨n, rfl⟩ := Nat.exists_eq_add_of_le' (Nat.le_of_add_right_le hk)
    rw [List.take_succ_cons, read_lineComment, read_lineComment, takeWhile_take (by simp only at hk; omega)]
  · cases hend : commentEnd? rest with
    | none =>
      rw [read_openComment hend] at hcomment
      exact absurd rfl hcomment
    | some n =>
      rw [read_comment hend] at hk
      change 1 + n ≤ k at hk
      obtain ⟨m, rfl⟩ := Nat.exists_eq_add_of_le' (Nat.le_of_add_right_le hk)
      rw [List.take_succ_cons, read_comment hend, read_comment (commentEnd?_take hend (by omega))]

/-- What is read stays the same if the text is cut off behind it. -/
theorem read_take {k : Nat} (hunexpected : (read c cs).role ≠ .unexpected)
    (hcomment : (read c cs).role ≠ .unterminatedComment) (hk : (read c cs).tail ≤ k) :
    read c (cs.take k) = read c cs := by
  cases firstChar c with
  | blank _ hread =>
    rw [hread] at hk
    rw [hread, hread, takeWhile_take hk]
  | digit hread =>
    rw [hread] at hk
    rw [hread, hread, numberTail_take hk]
  | word hread =>
    have htail : (readWord c cs).tail = (cs.takeWhile isIdentPart).length := by
      simp only [readWord]
      split <;> rfl
    rw [hread, htail] at hk
    rw [hread, hread]
    simp only [readWord, takeWhile_take hk]
  | quote hread =>
    rw [hread] at hunexpected hk
    rw [hread, hread, readString_take hunexpected hk]
  | apostrophe hread =>
    rw [hread] at hunexpected hk
    rw [hread, hread, readChar_take hunexpected hk]
  | mark hmark => exact readMark_take hmark hcomment hk

end BraceScript.Lexeme
