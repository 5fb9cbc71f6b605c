import BraceScript.Proofs.Contract

/-!
# Integers and their tags

Every integer is tagged with a type.  Literals, operators and types choose a tag that the integer fits, and so do
built-in functions; the one exception is a range, whose items get the width of its wider end and a sign, whether they
fit or not.  If the last item of every range fits its tag, all integers of a run do (`Program.run_honest`).
-/

namespace BraceScript

/-! ### Choosing a width -/

private theorem IntType.widest_of_signed {w : Width} {n : Int} (h : IntType.holds ⟨w, true⟩ n = true) :
    widest.holds n = true := by
  rw [holds_iff] at h ⊢
  cases w <;> simp only [minValue, maxValue, widest] at h ⊢ <;> omega

namespace Width

variable {n : Int}

theorem holds_joined {a b : Width} {signed : Bool} (h : IntType.widest.holds n = true)
    (hsign : signed = true ∨ 0 ≤ n) : IntType.holds ⟨joined a b signed n, signed⟩ n = true := by
  unfold joined
  cases hfind : all.find? fun w => max a.bits b.bits ≤ w.bits && IntType.holds ⟨w, signed⟩ n with
  | some w =>
    have hw := List.find?_some hfind
    rw [Bool.and_eq_true] at hw
    exact hw.2
  | none =>
    -- no width is found only if there is none between the operands and 128 bits
    change IntType.holds ⟨w128, signed⟩ n = true
    cases signed with
    | true => exact h
    | false =>
      have hn : 0 ≤ n := by simpa using hsign
      rw [IntType.holds_iff] at h ⊢
      simp only [IntType.minValue, IntType.maxValue, IntType.widest] at h ⊢
      omega

end Width

/-! ### Values that fit their tags -/

/-- If the value is an integer, it is in the range of its type. -/
def Value.Fits : Value → Prop
  | .integer n t => t.holds n = true
  | _ => True

/-- All integers in the value are in the range of their types. -/
def Value.Honest (v : Value) : Prop := v.All Fits

/-- If the literal is an integer, it is in the range of its width. -/
def Literal.Fits : Literal → Prop
  | .integer n w => IntType.holds ⟨w, true⟩ n = true
  | _ => True

namespace Value

/-- What is known of a single value: an integer, provided `P`, fits its tag and does not take more than 128 bits, and
the literals in a function fit. -/
def Reliable (P : Prop) : Value → Prop
  | integer n t => P → t.holds n = true ∧ IntType.widest.holds n = true
  | function d _ => ∀ l span, .literal l span ∈ d.exprs → l.Fits
  | _ => True

variable {P Q : Prop}

private theorem Reliable.mono {v : Value} (h : v.Reliable P) (hPQ : Q → P) : v.Reliable Q := by
  cases v with
  | integer n t => exact fun hQ => h (hPQ hQ)
  | _ => exact h

private theorem Reliable.fits {v : Value} (h : v.Reliable P) (hP : P) : v.Fits := by
  cases v with
  | integer n t => exact (h hP).1
  | _ => exact trivial

private theorem reliable_signed {n : Int} {w : Width} (h : P → IntType.holds ⟨w, true⟩ n = true) :
    (integer n ⟨w, true⟩).Reliable P :=
  fun hP => ⟨h hP, IntType.widest_of_signed (h hP)⟩

/-- The remainder lies between zero and the dividend. -/
private theorem widest_tmod {a : Int} (b : Int) (h : IntType.widest.holds a = true) :
    IntType.widest.holds (a.tmod b) = true := by
  have habs : (a.tmod b).natAbs ≤ a.natAbs := by
    rw [Int.natAbs_tmod]
    exact Nat.mod_le _ _
  rw [IntType.holds_iff] at h ⊢
  simp only [IntType.minValue, IntType.maxValue, IntType.widest] at h ⊢
  by_cases ha : 0 ≤ a
  · have hsign := Int.tmod_nonneg b ha
    omega
  · have hsign : 0 ≤ -(a.tmod b) := by
      rw [← Int.neg_tmod]
      exact Int.tmod_nonneg b (by omega)
    omega

theorem widest_exactArith {op : ArithOp} {a b : Int} (ha : IntType.widest.holds a = true)
    (h : overflows op a b = false) : IntType.widest.holds (exactArith op a b) = true := by
  cases op with
  | mod => exact widest_tmod b ha
  | _ => simpa [overflows] using h

private theorem closed_reliable (P : Prop) : Closed (Reliable P) where
  plain := by
    intro v hv
    cases v with
    | integer | function => exact hv.elim
    | _ => exact trivial
  zero := by
    intro t
    obtain ⟨width, signed⟩ := t
    cases width <;> cases signed <;> exact fun _ => ⟨rfl, rfl⟩
  fits hn ht hP := ⟨ht, (hn hP).2⟩
  combine := by
    intro op a s b t w ha _ h
    unfold integerArith at h
    split at h
    · cases h
    · split at h
      · cases h
      · rename_i hflow
        cases h
        intro hP
        have hwidest := widest_exactArith (ha hP).2 (by simpa using hflow)
        exact ⟨Width.holds_joined hwidest (signed_or_nonneg _ _), hwidest⟩
  step := by
    intro op t signed n w hsign h
    unfold stepped at h
    split at h
    · rename_i hwidest
      cases h
      exact fun _ => ⟨Width.holds_joined hwidest hsign, hwidest⟩
    · cases h

/-! ### Ranges -/

/-- If the value is an array, its last item fits its tag. -/
def LastFits (w : Value) : Prop := ∀ items v, w = array items → items.getLast? = some v → v.Fits

private theorem minValue_widerOf (w u : Width) (signed : Bool) :
    IntType.minValue ⟨widerOf w u, true⟩ ≤ IntType.minValue ⟨w, signed⟩ := by
  cases w <;> cases u <;> cases signed <;> decide

theorem rangeSize_eq {a b : Int} (h : rangeSize a b ≤ maxRangeSize) : rangeSize a b = (b - a).toNat := by
  unfold rangeSize at h ⊢
  split at h
  · rename_i hholds
    rw [if_pos hholds]
  · -- such a range would be too large
    exact absurd h (by decide)

private theorem getLast?_range {a : Int} {t : IntType} {size : Nat} (h : 0 < size) :
    ((List.range size).map fun i : Nat => integer (a + i) t).getLast? = some (integer (a + (size - 1 : Nat)) t) := by
  rw [List.getLast?_eq_getElem?, List.length_map, List.length_range, List.getElem?_map,
    List.getElem?_range (by omega)]
  rfl

/-- The items of a range go up to the last one, so all of them fit if it does. -/
private theorem all_range {left right w : Value} (hl : left.All (Reliable P)) (h : range left right = .ok w)
    (hw : P → w.LastFits) : w.All (Reliable P) := by
  obtain ⟨a, s, b, t, rfl, rfl, -, rfl⟩ := range_eq_ok h
  have hmin : IntType.minValue ⟨widerOf s.width t.width, true⟩ ≤ s.minValue := minValue_widerOf _ _ s.signed
  refine all_array.2 fun v hv => ?_
  obtain ⟨i, hi, rfl⟩ := List.mem_map.1 hv
  rw [List.mem_range] at hi
  refine reliable_signed fun hP => ?_
  have hs : s.holds a = true := (hl hP).1
  have hlast := hw hP _ _ rfl (getLast?_range (Nat.zero_lt_of_lt hi))
  have hmax := (IntType.holds_iff.1 hlast).2
  have hlow := (IntType.holds_iff.1 hs).1
  exact IntType.holds_iff.2 ⟨by omega, by omega⟩

/-- The last item of a range is the number before its upper end. -/
private theorem lastFits_range_iff {a b : Int} {s t : IntType} {w : Value}
    (h : range (integer a s) (integer b t) = .ok w) :
    w.LastFits ↔ (a < b → IntType.holds ⟨widerOf s.width t.width, true⟩ (b - 1) = true) := by
  obtain ⟨_, _, _, _, ⟨⟩, ⟨⟩, hsize, rfl⟩ := range_eq_ok h
  rw [rangeSize_eq hsize]
  by_cases hab : a < b
  · have hlast : a + ((b - a).toNat - 1 : Nat) = b - 1 := by omega
    have hitem := getLast?_range (a := a) (t := ⟨widerOf s.width t.width, true⟩) (show 0 < (b - a).toNat by omega)
    rw [hlast] at hitem
    constructor
    · exact fun hw _ => hw _ _ rfl hitem
    · rintro hfits items v ⟨⟩ hv
      rw [hitem, Option.some.injEq] at hv
      rw [← hv]
      exact hfits hab
  · rw [show (b - a).toNat = 0 by omega]
    constructor
    · exact fun _ h => absurd h hab
    · rintro - items v ⟨⟩ hv
      cases hv

example : range (integer 200 ⟨.w8, false⟩) (integer 203 ⟨.w8, false⟩) =
    .ok (array [integer 200 ⟨.w8, true⟩, integer 201 ⟨.w8, true⟩, integer 202 ⟨.w8, true⟩]) := rfl

end Value

/-! ### Runs -/

/-- The last item of every range that has been evaluated fits its tag. -/
def Event.RangesFit (es : List Event) : Prop :=
  ∀ op left right span w, op.value = .range → .value (.binary op left right span) w ∈ es → w.LastFits

/-- All parts of the value are reliable, provided that ranges fit. -/
def Value.ReliableAt (es : List Event) : Value → Prop := Value.All (Reliable (Event.RangesFit es))

private theorem Value.ReliableAt.mono {es es' : List Event} (hes : es <:+ es') (v : Value) (h : v.ReliableAt es) :
    v.ReliableAt es' := by
  refine Value.All.mono (fun u hu => hu.mono ?_) v h
  exact fun hfit op left right span w hop hmem => hfit op left right span w hop (hes.subset hmem)

private theorem Value.ReliableAt.honest {es : List Event} {v : Value} (h : v.ReliableAt es)
    (hes : Event.RangesFit es) : v.Honest :=
  Value.All.mono (fun _ hu => hu.fits hes) v h

/-- Everything that has been evaluated or bound up to now is reliable, provided that ranges fit. -/
structure Session.Reliable (now : Nat) (s : Session) : Prop where
  builtins : s.builtins = .default now
  states : ∀ scopes depth, .state scopes depth ∈ s.events → scopes.Holds (Value.ReliableAt s.events)
  values : ∀ e v, .value e v ∈ s.events → v.ReliableAt s.events

namespace Session.Reliable

variable {s : Session} {now : Nat}

private theorem bound (h : s.Reliable now) : s.scopes.Holds (Value.ReliableAt s.events) :=
  h.states s.scopes s.depth (history_iff.1 s.recorded)

private theorem note (h : s.Reliable now) {e : Event} (hstate : ∀ scopes depth, e ≠ .state scopes depth)
    (hvalue : ∀ d v, e = .value d v → v.ReliableAt (e :: s.events)) : (s.note e).Reliable now := by
  have hes : s.events <:+ e :: s.events := List.suffix_cons _ _
  refine ⟨h.builtins, ?_, ?_⟩
  · intro scopes depth hmem
    rw [events_note] at hmem ⊢
    rcases List.mem_cons.1 hmem with heq | hmem
    · exact absurd heq.symm (hstate scopes depth)
    · exact (h.states scopes depth hmem).mono (Value.ReliableAt.mono hes)
  · intro d v hmem
    rw [events_note] at hmem ⊢
    rcases List.mem_cons.1 hmem with heq | hmem
    · exact hvalue d v heq.symm
    · exact (h.values d v hmem).mono hes

private theorem moveTo (h : s.Reliable now) {scopes : Scopes} (depth : Nat)
    (hscopes : scopes.Holds (Value.ReliableAt s.events)) : (s.moveTo scopes depth).Reliable now := by
  have hes : s.events <:+ .state scopes depth :: s.events := List.suffix_cons _ _
  refine ⟨h.builtins, ?_, ?_⟩
  · intro scopes' depth' hmem
    rw [events_moveTo] at hmem ⊢
    rcases List.mem_cons.1 hmem with heq | hmem
    · obtain ⟨rfl, rfl⟩ := Event.state.inj heq
      exact hscopes.mono (Value.ReliableAt.mono hes)
    · exact (h.states scopes' depth' hmem).mono (Value.ReliableAt.mono hes)
  · intro d v hmem
    rw [events_moveTo] at hmem ⊢
    rcases List.mem_cons.1 hmem with heq | hmem
    · cases heq
    · exact (h.values d v hmem).mono hes

end Session.Reliable

namespace Contract

/-- Integers fit their tags, provided that ranges do. -/
def reliable (now : Nat) : Contract where
  inv := Session.Reliable now
  fault _ := Session.Reliable now
  good es v := v.ReliableAt es
  raw es e v := v.ReliableAt (.value e v :: es)
  literal := Literal.Fits

private theorem valueLaws_reliable (now : Nat) : (reliable now).ValueLaws := by
  refine .of_closed (fun _ _ => .rfl) (fun _ => Value.closed_reliable _) ?_ ?_ ?_ ?_ ?_ ?_ ?_
  · intro past now hpast v hv
    exact hv.mono fun hfit op left right span w hop hmem => hfit op left right span w hop (hpast.subset hmem)
  · intro now l hl
    cases l with
    | integer n w => exact Value.reliable_signed fun _ => hl
    | _ => exact trivial
  · intro now i
    refine Value.reliable_signed fun _ => Width.holds_narrowest ?_
    have hi : i.toNat < 18446744073709551616 := i.toNat_lt
    rw [IntType.holds_iff]
    simp only [IntType.minValue, IntType.maxValue, IntType.widest]
    omega
  · intro now op left right span a b w ha _ h hop
    refine Value.all_range (Value.ReliableAt.mono (List.suffix_cons _ _) a ha) h fun hfit => ?_
    exact hfit op left right span w hop List.mem_cons_self
  · intro now e v hv
    exact Value.ReliableAt.mono (List.suffix_cons _ _) v hv
  · intro now d closure h
    exact ⟨h, fun _ _ => trivial⟩
  · intro now d scope _ h
    exact h.exprs

private theorem stepLaws_reliable (now : Nat) : (reliable now).StepLaws where
  toValueLaws := valueLaws_reliable now
  bound h hb := h.bound _ _ _ hb
  struct _ _ := (Value.closed_reliable _).all_default _
  builtin := by
    intro s name b args v output h hb _ hcall
    rw [h.builtins] at hb
    rcases Registry.call_default (List.mem_of_find?_eq_some hb) hcall with rfl | ⟨n, hn, rfl⟩
    · exact trivial
    · exact Value.reliable_signed fun _ => hn
  output _ h := ⟨h.builtins, h.states, h.values⟩
  value h hv := ⟨h.note (by simp) (by rintro _ _ ⟨⟩; exact hv), hv⟩
  assign := by
    intro s scope owner name b w _ h _ _ _ _ hw
    have hnote : (s.note (.assigned s.scopes scope name)).Reliable now := h.note (by simp) (by simp)
    exact hnote.moveTo _ (hnote.bound.set (Value.ReliableAt.mono (s.suffix_note _) _ hw))
  declare _ h hget hnone hv := h.moveTo _ (h.bound.bind hget hnone hv)
  introduce := by
    intro s scope here name t v isConstant _ h hget hnone hv _
    have hbound : (Eval.bound s scope name ⟨v, isConstant⟩).Reliable now := h.moveTo _ (h.bound.bind hget hnone hv)
    exact hbound.note (by simp) (by simp)
  declareFunction := by
    intro s scope here d _ h hget hnone _ hcode
    have hbound : (Eval.bound s scope d.name.name ⟨.function d scope, true⟩).Reliable now :=
      h.moveTo _ (h.bound.bind hget hnone hcode.exprs)
    exact hbound.note (by simp) (by simp)
  declareStruct _ h _ _ := h.moveTo _ (h.bound.declareStruct _)
  enter := by
    intro s parent hs _ h
    have hnote : (s.note (.entered (s.scopes.push parent).2)).Reliable now := h.note (by simp) (by simp)
    exact hnote.moveTo _ (hnote.bound.push parent hs.nested.stored)
  leave := by
    intro s id _ _ h
    have hnote : (s.note (.leaving s.scopes id)).Reliable now := h.note (by simp) (by simp)
    exact hnote.moveTo _ hnote.bound.dropLast
  deeper depth h := h.moveTo depth h.bound

private theorem lawful_reliable (now : Nat) : (reliable now).Lawful :=
  (stepLaws_reliable now).lawful (fun _ _ => .rfl) fun h _ _ => h.note (by simp) (by simp)

end Contract

private theorem Session.reliable_fresh (now maxDepth : Nat) (output : Output) :
    (Session.fresh (.default now) maxDepth output).Reliable now := by
  refine ⟨rfl, ?_, ?_⟩
  · intro scopes depth hmem
    rw [events_fresh, List.mem_singleton] at hmem
    obtain ⟨rfl, rfl⟩ := Event.state.inj hmem
    exact Scopes.holds_initial
  · intro e v hmem
    rw [events_fresh] at hmem
    simp at hmem

/-- The integer literals of a program that was read from a text fit their widths. -/
private theorem Program.literals_fit {source file : String} {p : Parsed} (h : parse source file = .ok p)
    {l : Literal} {span : Span} (hl : .literal l span ∈ p.program.exprs) : l.Fits := by
  by_cases hfloat : (Expr.literal l span).holdsFloat = false
  · cases legible_of_parse h _ hl hfloat with
    | literal hlegible =>
      cases hlegible with
      | @integer n hmax =>
        refine Width.holds_narrowest ?_
        rw [IntType.holds_iff]
        simp only [IntType.minValue, IntType.maxValue, IntType.widest]
        omega
      | _ => exact trivial
  · cases l with
    | integer n w => exact absurd rfl hfloat
    | _ => exact trivial

/-- A program that was read from a text is run in a fresh session.  If the last item of each range fits the tag of
the items, which is so exactly if the number before its upper end does, then all integers fit their tags: those in
what expressions are evaluated to, those in variables at any time, and those in the result. -/
theorem Program.run_honest {source file : String} {p : Parsed} (h : parse source file = .ok p) (now maxDepth : Nat)
    (output : Output) (fuel : Nat) :
    (∀ a s b t w, Value.range (.integer a s) (.integer b t) = .ok w →
      (w.LastFits ↔ (a < b → IntType.holds ⟨Value.widerOf s.width t.width, true⟩ (b - 1) = true))) ∧
    (Event.RangesFit (p.program.run fuel (.fresh (.default now) maxDepth output)).session.events →
      (∀ e v, .value e v ∈ (p.program.run fuel (.fresh (.default now) maxDepth output)).session.events → v.Honest) ∧
      (∀ scopes depth owner name b,
        .state scopes depth ∈ (p.program.run fuel (.fresh (.default now) maxDepth output)).session.events →
        scopes.Binds owner name b → b.value.Honest) ∧
      ∀ v t, p.program.run fuel (.fresh (.default now) maxDepth output) = .done v t → v.Honest) := by
  have hrun :=
    (Contract.lawful_reliable now).run p.program (fun _ _ => literals_fit h) fuel (Session.sound_fresh _ _ _)
    (Session.reliable_fresh now maxDepth output)
  have hreliable := hrun.inv fun _ _ h => h
  refine ⟨fun _ _ _ _ _ => Value.lastFits_range_iff, fun hranges => ⟨?_, ?_, ?_⟩⟩
  · intro e v hmem
    exact (hreliable.values e v hmem).honest hranges
  · intro scopes depth owner name b hmem hb
    exact (hreliable.states scopes depth hmem owner name b hb).honest hranges
  · intro v t hdone
    rw [hdone] at hrun hranges
    exact Value.ReliableAt.honest (hrun.2.2.1 v (by simp)) hranges

/-- Two places of the first line. -/
private def onFirstLine (i j : Nat) : Span := ⟨⟨1, i + 1, i⟩, ⟨1, j + 1, j⟩⟩

/-- The tokens of `let b: u8 = 128; 126 .. b;`, a program whose range ends with the largest number of its type. -/
private def upToLargestTokens : List Token := [
  ⟨.keyword .letKw, "let", onFirstLine 0 3⟩, ⟨.ident, "b", onFirstLine 4 5⟩, ⟨.symbol .colon, ":", onFirstLine 5 6⟩,
  ⟨.ident, "u8", onFirstLine 7 9⟩, ⟨.symbol .assign, "=", onFirstLine 10 11⟩, ⟨.number, "128", onFirstLine 12 15⟩,
  ⟨.symbol .semicolon, ";", onFirstLine 15 16⟩, ⟨.number, "126", onFirstLine 17 20⟩,
  ⟨.symbol .dotDot, "..", onFirstLine 21 23⟩, ⟨.ident, "b", onFirstLine 24 25⟩,
  ⟨.symbol .semicolon, ";", onFirstLine 25 26⟩, ⟨.eof, "", onFirstLine 26 26⟩]

private def upToLargest : Program where
  moduleName := "m"
  imports := []
  contents := [
    .declare ⟨⟨"b", onFirstLine 4 5⟩, false, some (.integer ⟨.w8, false⟩),
      some (.literal (.integer 128 .w16) (onFirstLine 12 15)), onFirstLine 0 16⟩,
    .expression (.binary ⟨.range, onFirstLine 21 23⟩ (.literal (.integer 126 .w8) (onFirstLine 17 20))
      (.ident ⟨"b", onFirstLine 24 25⟩) (onFirstLine 17 25)) (onFirstLine 17 26)]
  span := onFirstLine 0 26

theorem Program.run_honest_upToLargest :
    ∃ v t, parse "let b: u8 = 128; 126 .. b;" "m" = .ok ⟨upToLargest, []⟩ ∧
      upToLargest.run 9 (.fresh (.default 0) 1 .empty) = .done v t ∧ Event.RangesFit t.events ∧
      v = .array [.integer 126 ⟨.w8, true⟩, .integer 127 ⟨.w8, true⟩] ∧ v.Honest := by
  have hscan : Token.scan "let b: u8 = 128; 126 .. b;" = (upToLargestTokens, none) := by decide +kernel
  have hparse : parse "let b: u8 = 128; 126 .. b;" "m" = .ok ⟨upToLargest, []⟩ := by
    rw [parse, Token.tokenize, hscan]
    exact rfl
  obtain ⟨v, t, hrun, hv, hfit⟩ : ∃ v t, upToLargest.run 9 (.fresh (.default 0) 1 .empty) = .done v t ∧
      v = .array [.integer 126 ⟨.w8, true⟩, .integer 127 ⟨.w8, true⟩] ∧ Event.RangesFit t.events := by
    refine ⟨_, _, rfl, rfl, ?_⟩
    apply Session.events_of_timeline (P := Event.RangesFit)
    · repeat apply Ghost.is_map
      exact rfl
    · intro op left right span w _ hmem
      simp only [List.mem_cons] at hmem
      rcases hmem with h | h | h | h | h | h | h | h <;> cases h
      rintro items v ⟨⟩ ⟨⟩
      exact rfl
  have hhonest := (Program.run_honest hparse 0 1 .empty 9).2
  rw [hrun] at hhonest
  exact ⟨v, t, hparse, hrun, hfit, hv, (hhonest hfit).2.2 v t rfl⟩

end BraceScript
