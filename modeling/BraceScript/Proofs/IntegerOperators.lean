import BraceScript.Proofs.IntegerTags

/-!
# Integer operators

What the operators yield on integers, said in powers of two and in terms of multiplication and addition.
`IntType.Contains` is the range of a type, `Truncates` says what it is to divide toward zero, and `ArithOp.Yields`
which integer an operation is to yield.  An operation yields it exactly if the integer it has to compute, for a
remainder the quotient, takes no more than 128 bits, and tags it with the smallest type that is allowed
(`Value.integer_operators_exact`).  A range is the interval from its left end up to its right end
(`Value.range_half_open`), except that no range goes down by more than 128 bits: such a range counts as too large,
although it is empty.
-/

namespace BraceScript

/-! ### Ranges of types -/

/-- `n` is one of the integers that the bits of the type can tell apart. -/
def IntType.Contains (t : IntType) (n : Int) : Prop :=
  if t.signed then -(Nat.pow 2 (t.width.bits - 1) : Int) ≤ n ∧ n < Nat.pow 2 (t.width.bits - 1)
  else 0 ≤ n ∧ n < Nat.pow 2 t.width.bits

private theorem IntType.contains_iff {t : IntType} {n : Int} : t.Contains n ↔ t.holds n = true := by
  rw [holds_iff]
  obtain ⟨width, signed⟩ := t
  cases signed <;> cases width <;>
    simp only [Contains, minValue, maxValue, Width.bits, Nat.pow_eq, ↓reduceIte, Bool.false_eq_true] <;> omega

/-- The width is no smaller than the given ones, holds `n`, and is the smallest with both properties. -/
structure Width.Smallest (operands : List Width) (signed : Bool) (n : Int) (w : Width) : Prop where
  wide : ∀ v ∈ operands, v.bits ≤ w.bits
  contains : IntType.Contains ⟨w, signed⟩ n
  least : ∀ u : Width, (∀ v ∈ operands, v.bits ≤ u.bits) → IntType.Contains ⟨u, signed⟩ n → w.bits ≤ u.bits

/-- The search for a width ends at the latest with 128 bits, which are enough. -/
private theorem Width.smallest_joined {a b : Width} {signed : Bool} {n : Int} (h : IntType.widest.holds n = true)
    (hsign : signed = true ∨ 0 ≤ n) : (joined a b signed n).Smallest [a, b] signed n := by
  have hfits : ∀ u : Width, (max a.bits b.bits ≤ u.bits && IntType.holds ⟨u, signed⟩ n) = true ↔
      (∀ v ∈ [a, b], v.bits ≤ u.bits) ∧ IntType.Contains ⟨u, signed⟩ n := by
    intro u
    rw [Bool.and_eq_true, decide_eq_true_iff, Nat.max_le, IntType.contains_iff, List.forall_mem_cons,
      List.forall_mem_singleton]
  have hholds := holds_joined (a := a) (b := b) h hsign
  unfold joined at hholds ⊢
  cases hfind : all.find? fun w => max a.bits b.bits ≤ w.bits && IntType.holds ⟨w, signed⟩ n with
  | some w =>
    have hw := List.find?_some hfind
    obtain ⟨hwide, hcontains⟩ := (hfits w).1 hw
    exact ⟨hwide, hcontains, fun u hu hcontains => bits_le_of_find? hfind ((hfits u).2 ⟨hu, hcontains⟩)⟩
  | none =>
    have hwide : ∀ v ∈ [a, b], v.bits ≤ w128.bits := fun v _ => by cases v <;> decide
    rw [hfind] at hholds
    exact absurd ((hfits w128).2 ⟨hwide, IntType.contains_iff.2 hholds⟩)
      (List.find?_eq_none.1 hfind w128 (mem_all w128))

/-! ### Exact results -/

/-- Dividing `a` by `b` toward zero gives `q` and leaves `r`, which is smaller than the divisor and has the sign of
the dividend. -/
structure Truncates (a b q r : Int) : Prop where
  sum : a = b * q + r
  small : r.natAbs < b.natAbs
  nonneg : 0 ≤ a → 0 ≤ r
  nonpos : a ≤ 0 → r ≤ 0

private theorem truncates_iff {a b q r : Int} : Truncates a b q r ↔ b ≠ 0 ∧ q = a.tdiv b ∧ r = a.tmod b := by
  constructor
  · rintro ⟨hsum, hsmall, hnonneg, hnonpos⟩
    have hb : b ≠ 0 := by omega
    rcases Int.le_total 0 a with ha | ha
    · have hr := hnonneg ha
      have hunique := (Int.tdiv_tmod_unique (q := q) (r := r) ha hb).2 ⟨by omega, hr, by omega⟩
      exact ⟨hb, hunique.1.symm, hunique.2.symm⟩
    · have hr := hnonpos ha
      have hunique := (Int.tdiv_tmod_unique' (q := q) (r := r) ha hb).2 ⟨by omega, by omega, hr⟩
      exact ⟨hb, hunique.1.symm, hunique.2.symm⟩
  · rintro ⟨hb, rfl, rfl⟩
    have hsmall : (a.tmod b).natAbs < b.natAbs := by
      rw [Int.natAbs_tmod]
      exact Nat.mod_lt _ (by omega)
    refine ⟨(Int.mul_tdiv_add_tmod a b).symm, hsmall, Int.tmod_nonneg b, fun ha => ?_⟩
    have hneg := Int.tmod_nonneg (a := -a) b (by omega)
    rw [Int.neg_tmod] at hneg
    omega

namespace ArithOp

/-- `n` is the result of the operation in the integers. -/
def Yields : ArithOp → Int → Int → Int → Prop
  | add, a, b, n => n = a + b
  | sub, a, b, n => n = a - b
  | mul, a, b, n => n = a * b
  | div, a, b, n => ∃ r, Truncates a b n r
  | mod, a, b, n => ∃ q, Truncates a b q n

/-- `m` is what the operation has to compute: its result, but for a remainder the quotient. -/
def Computes : ArithOp → Int → Int → Int → Prop
  | mod, a, b, m => div.Yields a b m
  | op, a, b, m => op.Yields a b m

end ArithOp

namespace Value

/-- The answer of the operator `symbol` on integers of the given widths.  It may be `Undefined`; otherwise it has to
compute an integer, which must not take more than 128 bits, and is to yield an integer, which is `signed` or not and
gets the smallest width that is allowed. -/
structure Exact (operands : List Width) (signed : Int → Bool) (symbol : String) (Undefined : Prop)
    (Computes Yields : Int → Prop) (r : Result) : Prop where
  undefined : r = .error .divisionByZero ↔ Undefined
  overflow : r = .error (.overflow symbol) ↔ ¬ Undefined ∧ ∃ m, Computes m ∧ ¬ IntType.widest.Contains m
  succeeds : (∃ v, r = .ok v) ↔ ¬ Undefined ∧ ∃ m, Computes m ∧ IntType.widest.Contains m
  exact : ∀ v, r = .ok v → ∃ n w, Yields n ∧ w.Smallest operands (signed n) n ∧ v = integer n ⟨w, signed n⟩

/-- An operator that has to compute `m` and to yield `n`, and checks nothing but that `m` is in range. -/
private theorem Exact.of_checked {operands : List Width} {signed : Int → Bool} {symbol : String} {Undefined : Prop}
    {Computes Yields : Int → Prop} {m n : Int} {w : Width} (hdefined : ¬ Undefined) (hm : ∀ k, Computes k ↔ k = m)
    (hn : Yields n) (hw : IntType.widest.holds m = true → w.Smallest operands (signed n) n) :
    Exact operands signed symbol Undefined Computes Yields
      (if IntType.widest.holds m then .ok (integer n ⟨w, signed n⟩) else .error (.overflow symbol)) := by
  by_cases hholds : IntType.widest.holds m = true
  · rw [if_pos hholds]
    refine ⟨⟨by simp, fun h => absurd h hdefined⟩, ⟨by simp, ?_⟩, ⟨fun _ => ?_, fun _ => ⟨_, rfl⟩⟩, ?_⟩
    · rintro ⟨-, k, hk, hout⟩
      rw [(hm k).1 hk] at hout
      exact absurd (IntType.contains_iff.2 hholds) hout
    · exact ⟨hdefined, m, (hm m).2 rfl, IntType.contains_iff.2 hholds⟩
    · rintro v ⟨⟩
      exact ⟨n, w, hn, hw hholds, rfl⟩
  · rw [if_neg hholds]
    have hout : ¬ IntType.widest.Contains m := fun h => hholds (IntType.contains_iff.1 h)
    refine ⟨⟨by simp, fun h => absurd h hdefined⟩, ⟨fun _ => ⟨hdefined, m, (hm m).2 rfl, hout⟩, fun _ => rfl⟩,
      ⟨by simp, ?_⟩, by simp⟩
    rintro ⟨-, k, hk, hin⟩
    rw [(hm k).1 hk] at hin
    exact absurd hin hout

/-! ### Operators on integers -/

variable {op : ArithOp} {a b : Int} {s t : IntType}

private theorem yields_iff {n : Int} (h : ¬ ((op = .div ∨ op = .mod) ∧ b = 0)) :
    op.Yields a b n ↔ n = exactArith op a b := by
  cases op with
  | div =>
    have hb : b ≠ 0 := fun hb => h ⟨.inl rfl, hb⟩
    simp [ArithOp.Yields, truncates_iff, exactArith, hb]
  | mod =>
    have hb : b ≠ 0 := fun hb => h ⟨.inr rfl, hb⟩
    simp [ArithOp.Yields, truncates_iff, exactArith, hb]
  | _ => exact Iff.rfl

/-- What has to be computed is what the check for overflow looks at. -/
private theorem exists_computes (h : ¬ ((op = .div ∨ op = .mod) ∧ b = 0)) :
    ∃ m, (∀ k, op.Computes a b k ↔ k = m) ∧ overflows op a b = !IntType.widest.holds m := by
  cases op with
  | mod =>
    have hb : b ≠ 0 := fun hb => h ⟨.inr rfl, hb⟩
    exact ⟨a.tdiv b, fun k => by simp [ArithOp.Computes, ArithOp.Yields, truncates_iff, hb], rfl⟩
  | _ => exact ⟨_, fun _ => yields_iff h, rfl⟩

private theorem integerArith_of_defined (h : ¬ ((op = .div ∨ op = .mod) ∧ b = 0)) {m : Int}
    (hm : overflows op a b = !IntType.widest.holds m) : integerArith op a s b t =
      if IntType.widest.holds m then .ok (combined s t (exactArith op a b)) else .error (.overflow op.symbol) := by
  have hdivides : (divides op && b == 0) = false := by
    cases op <;> simp_all [divides]
  unfold integerArith
  rw [hdivides, hm]
  cases IntType.widest.holds m <;> rfl

private theorem exact_integerArith (ha : IntType.widest.holds a = true) :
    Exact [s.width, t.width] (fun n => s.signed || t.signed || n < 0) op.symbol ((op = .div ∨ op = .mod) ∧ b = 0)
      (op.Computes a b) (op.Yields a b) (integerArith op a s b t) := by
  by_cases hundefined : (op = .div ∨ op = .mod) ∧ b = 0
  · have hanswer : integerArith op a s b t = .error .divisionByZero := by
      obtain ⟨rfl | rfl, rfl⟩ := hundefined <;> rfl
    rw [hanswer]
    exact ⟨by simp [hundefined], by simp [hundefined], by simp [hundefined], by simp⟩
  · obtain ⟨m, hcomputes, hm⟩ := exists_computes (a := a) hundefined
    rw [integerArith_of_defined hundefined hm]
    refine .of_checked hundefined hcomputes ((yields_iff hundefined).2 rfl) fun hholds => ?_
    have hwidest := widest_exactArith ha (by rw [hm, hholds]; rfl)
    exact Width.smallest_joined hwidest (signed_or_nonneg _ _)

private theorem exact_stepped (op : UnaryOp) {signed : Int → Bool} {n : Int} (hsign : signed n = true ∨ 0 ≤ n) :
    Exact [t.width] signed op.symbol False (· = n) (· = n) (stepped op t (signed n) n) := by
  refine .of_checked id (fun _ => .rfl) rfl fun hholds => ?_
  obtain ⟨hwide, hcontains, hleast⟩ := Width.smallest_joined (a := t.width) (b := t.width) hholds hsign
  exact ⟨by simpa using hwide, hcontains, by simpa using hleast⟩

/-- The operators on integers of 128 bits are those of the integers.  An operation fails with a division by zero
exactly if it divides by zero, and otherwise with an overflow exactly if what it has to compute is out of range.  A
result is signed if an operand is signed or if it is negative, that of unary `-` always; its width is the smallest
one that holds it and is no smaller than those of the operands. -/
theorem integer_operators_exact (a b : Int) (s t : IntType) (ha : IntType.widest.Contains a) :
    (∀ op : ArithOp, Exact [s.width, t.width] (fun n => s.signed || t.signed || n < 0) op.symbol
      ((op = .div ∨ op = .mod) ∧ b = 0) (op.Computes a b) (op.Yields a b)
      (binary (.arith op) (integer a s) (integer b t))) ∧
    Exact [s.width] (fun _ => true) "-" False (· = 0 - a) (· = 0 - a) (unary .minus (integer a s)) ∧
    Exact [s.width] (fun n => s.signed || n < 0) "++" False (· = a + 1) (· = a + 1)
      (unary .increment (integer a s)) ∧
    Exact [s.width] (fun n => s.signed || n < 0) "--" False (· = a - 1) (· = a - 1)
      (unary .decrement (integer a s)) := by
  refine ⟨fun op => exact_integerArith (IntType.contains_iff.1 ha), ?_, ?_, ?_⟩
  · rw [Int.zero_sub]
    exact exact_stepped .minus (.inl rfl)
  · exact exact_stepped .increment (signed_or_nonneg _ _)
  · exact exact_stepped .decrement (signed_or_nonneg _ _)

/-- The least integer of 128 bits has no remainder by `-1`, since the quotient would be out of range, and can be
incremented. -/
theorem integer_operators_exact_least :
    IntType.widest.Contains IntType.widest.minValue ∧
      binary (.arith .mod) (integer IntType.widest.minValue .widest) (integer (-1) ⟨.w8, true⟩) =
        .error (.overflow "%") ∧
      ∃ v, unary .increment (integer IntType.widest.minValue .widest) = .ok v := by
  have hleast : IntType.widest.Contains IntType.widest.minValue := IntType.contains_iff.2 rfl
  obtain ⟨harith, -, hincrement, -⟩ := integer_operators_exact _ (-1) .widest ⟨.w8, true⟩ hleast
  have hquotient : Truncates IntType.widest.minValue (-1) (IntType.widest.maxValue + 1) 0 :=
    ⟨by decide, by decide, by decide, by decide⟩
  have hout : ¬ IntType.widest.Contains (IntType.widest.maxValue + 1) := by
    rw [IntType.contains_iff]
    decide
  refine ⟨hleast, (harith .mod).overflow.2 ⟨by simp, _, ⟨0, hquotient⟩, hout⟩, ?_⟩
  exact hincrement.succeeds.2 ⟨id, _, rfl, IntType.contains_iff.2 rfl⟩

/-! ### Ranges -/

private theorem mem_interval {size : Nat} {n : Int} :
    (n ∈ (List.range size).map fun i : Nat => a + i) ↔ a ≤ n ∧ n < a + size := by
  rw [List.mem_map]
  constructor
  · rintro ⟨i, hi, rfl⟩
    rw [List.mem_range] at hi
    omega
  · rintro ⟨hlow, hhigh⟩
    exact ⟨(n - a).toNat, List.mem_range.2 (by omega), by omega⟩

private theorem pairwise_interval (size : Nat) : ((List.range size).map fun i : Nat => a + i).Pairwise (· < ·) := by
  refine List.pairwise_map.2 (List.pairwise_lt_range.imp ?_)
  intro i j hij
  omega

/-- A difference that is out of range counts as too large, whichever end is the greater one. -/
private theorem rangeSize_le_iff :
    rangeSize a b ≤ maxRangeSize ↔ -(Nat.pow 2 127 : Int) ≤ b - a ∧ (b - a).toNat ≤ Nat.pow 2 20 := by
  unfold rangeSize
  split
  · rename_i hholds
    have hlow : -(Nat.pow 2 127 : Int) ≤ b - a := (IntType.holds_iff.1 hholds).1
    exact ⟨fun h => ⟨hlow, h⟩, fun h => h.2⟩
  · rename_i hout
    constructor
    · exact fun h => absurd h (by decide)
    · rintro ⟨hlow, hsize⟩
      refine absurd (IntType.holds_iff.2 ⟨hlow, ?_⟩) hout
      have hle : b - a ≤ 1048576 := Int.toNat_le.1 hsize
      simp only [IntType.maxValue, IntType.widest]
      omega

/-- A range has the integers from its left end up to its right end, in order, if these are no more than 2^20;
otherwise it is too large.  It also counts as too large if it goes down by more than 2^127, where it would be
empty. -/
theorem range_half_open (a b : Int) (s t : IntType) :
    ((∃ v, binary .range (integer a s) (integer b t) = .ok v) ↔
      -(Nat.pow 2 127 : Int) ≤ b - a ∧ (b - a).toNat ≤ Nat.pow 2 20) ∧
    (∀ v, binary .range (integer a s) (integer b t) = .ok v → ∃ (type : IntType) (ns : List Int),
      v = array (ns.map fun n => integer n type) ∧ ns.Pairwise (· < ·) ∧ ∀ n, n ∈ ns ↔ a ≤ n ∧ n < b) ∧
    ∀ cause, binary .range (integer a s) (integer b t) = .error cause → ∃ size, cause = .rangeTooLarge size := by
  rw [← rangeSize_le_iff]
  by_cases hsize : rangeSize a b ≤ maxRangeSize
  · have hanswer : binary .range (integer a s) (integer b t) = .ok (array
        (((List.range (rangeSize a b)).map fun i : Nat => a + i).map fun n =>
        integer n ⟨widerOf s.width t.width, true⟩)) := by
      rw [List.map_map]
      exact if_neg (Nat.not_lt.2 hsize)
    rw [hanswer]
    refine ⟨⟨fun _ => hsize, fun _ => ⟨_, rfl⟩⟩, ?_, by simp⟩
    rintro v ⟨⟩
    refine ⟨_, _, rfl, pairwise_interval _, fun n => ?_⟩
    rw [mem_interval, rangeSize_eq hsize]
    omega
  · have hanswer : binary .range (integer a s) (integer b t) = .error (.rangeTooLarge (rangeSize a b)) :=
      if_pos (Nat.not_le.1 hsize)
    rw [hanswer]
    exact ⟨by simp [hsize], by simp, fun cause hcause => ⟨_, (Except.error.inj hcause).symm⟩⟩

example : range (integer IntType.widest.maxValue .widest) (integer (-1) ⟨.w8, true⟩) = .ok (array []) := rfl

example : range (integer IntType.widest.maxValue .widest) (integer (-2) ⟨.w8, true⟩) =
    .error (.rangeTooLarge 340282366920938463463374607431768211455) := rfl

end Value

end BraceScript
