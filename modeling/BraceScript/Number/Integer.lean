/-!
# Integer types

An integer type is a width with or without a sign.  `IntType.holds` is its range; `Width.narrowest` sizes a literal
and `Width.joined` the result of combining two operands.
-/

namespace BraceScript

/-- The number of bits of an integer type. -/
inductive Width where
  | w8 | w16 | w32 | w64 | w128
deriving DecidableEq, Repr

namespace Width

def bits : Width → Nat
  | w8 => 8
  | w16 => 16
  | w32 => 32
  | w64 => 64
  | w128 => 128

/-- All widths in ascending order. -/
def all : List Width := [w8, w16, w32, w64, w128]

def ofBits? (n : Nat) : Option Width := all.find? (·.bits == n)

theorem mem_all (w : Width) : w ∈ all := by cases w <;> decide

end Width

/-- An integer type. -/
structure IntType where
  width : Width
  signed : Bool
deriving DecidableEq, Repr

namespace IntType

/-- The type of all results: arithmetic never leaves its range. -/
def widest : IntType := ⟨.w128, true⟩

def i64 : IntType := ⟨.w64, true⟩

/-- The least value of the type. -/
def minValue (t : IntType) : Int :=
  match t.signed, t.width with
  | true, .w8 => -128
  | true, .w16 => -32768
  | true, .w32 => -2147483648
  | true, .w64 => -9223372036854775808
  | true, .w128 => -170141183460469231731687303715884105728
  | false, _ => 0

/-- The greatest value of the type. -/
def maxValue (t : IntType) : Int :=
  match t.signed, t.width with
  | true, .w8 => 127
  | true, .w16 => 32767
  | true, .w32 => 2147483647
  | true, .w64 => 9223372036854775807
  | true, .w128 => 170141183460469231731687303715884105727
  | false, .w8 => 255
  | false, .w16 => 65535
  | false, .w32 => 4294967295
  | false, .w64 => 18446744073709551615
  | false, .w128 => 340282366920938463463374607431768211455

/-- Whether `n` is in the range of the type. -/
def holds (t : IntType) (n : Int) : Bool := t.minValue ≤ n && n ≤ t.maxValue

theorem holds_iff {t : IntType} {n : Int} : t.holds n = true ↔ t.minValue ≤ n ∧ n ≤ t.maxValue := by
  simp [holds]

/-- The name of the type: `i32`, `u8` and so on. -/
def name (t : IntType) : String := (if t.signed then "i" else "u") ++ toString t.width.bits

end IntType

namespace Width

/-- The smallest signed width that holds `n`. -/
def narrowest (n : Int) : Width := (all.find? fun w => IntType.holds ⟨w, true⟩ n).getD w128

theorem holds_narrowest {n : Int} (h : IntType.widest.holds n = true) :
    IntType.holds ⟨narrowest n, true⟩ n = true := by
  unfold narrowest
  cases hfind : all.find? fun w => IntType.holds ⟨w, true⟩ n with
  | some w =>
    have hw := List.find?_some hfind
    exact hw
  | none => exact h

/-- Widths are tried in ascending order, so the first one that has a property is the smallest. -/
theorem bits_le_of_find? {p : Width → Bool} {v w : Width} (hfind : all.find? p = some v) (h : p w = true) :
    v.bits ≤ w.bits := by
  have hsorted : all.Pairwise fun v w => v.bits ≤ w.bits := by decide
  obtain ⟨-, before, after, hall, hbefore⟩ := List.find?_eq_some_iff_append.1 hfind
  have hmem := mem_all w
  rw [hall] at hmem hsorted
  rcases List.mem_append.1 hmem with hmem | hmem
  · have hnot := hbefore w hmem
    rw [h] at hnot
    cases hnot
  · rcases List.mem_cons.1 hmem with rfl | hmem
    · exact Nat.le_refl _
    · exact (List.pairwise_cons.1 (List.pairwise_append.1 hsorted).2.1).1 w hmem

theorem narrowest_le {w : Width} {n : Int} (h : IntType.holds ⟨w, true⟩ n = true) : (narrowest n).bits ≤ w.bits := by
  unfold narrowest
  cases hfind : all.find? fun w => IntType.holds ⟨w, true⟩ n with
  | some v => exact bits_le_of_find? hfind h
  | none => exact absurd h (List.find?_eq_none.1 hfind w (mem_all w))

/-- The smallest width that is no smaller than `a` and `b` and holds `n` at the given signedness. -/
def joined (a b : Width) (signed : Bool) (n : Int) : Width :=
  (all.find? fun w => max a.bits b.bits ≤ w.bits && IntType.holds ⟨w, signed⟩ n).getD w128

end Width

end BraceScript
