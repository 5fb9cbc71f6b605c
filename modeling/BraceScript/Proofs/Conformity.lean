import Mathlib.Data.List.Forall2
import BraceScript.Proofs.SinglePrecision
import BraceScript.Proofs.Typing

/-!
# Conforming to a type

A value that conforms to a type becomes one of the type, and at every place of the type, which is reached by
positions in arrays, it has there what it had before: numbers get the tag of the type, and for a float type they are
rounded to it, an integer after it has become a double (`Value.Kept`).  What has become of it conforms without any
further change.  So a value of a type is accepted as it is, unless there is a float in it that has the tag of a
single but more digits (`Value.conform_eq_self_iff`).
-/

namespace BraceScript

/-! ### Places in arrays -/

/-- The type at a place that is reached by positions in arrays. -/
def Ty.at? : List Nat → Ty → Option Ty
  | [], T => some T
  | _ :: place, .array T => T.at? place
  | _ :: _, _ => none

namespace Value

/-- The value at a place that is reached by positions in arrays. -/
def at? : List Nat → Value → Option Value
  | [], v => some v
  | i :: place, array items =>
    match items[i]? with
    | some v => v.at? place
    | none => none
  | _ :: _, _ => none

/-- What becomes of a value at a place of type `T`: it stays the same, an integer keeps its number under another tag,
a float is rounded to the type, an integer becomes the nearest double and is then rounded to the type, and an array
keeps its length.  An integer that is rounded twice need not become the single that is nearest to it. -/
inductive Kept : Ty → Value → Value → Prop
  | same (T : Ty) (v : Value) : Kept T v v
  | tagged (n : Int) (s t : IntType) : Kept (.integer t) (integer n s) (integer n t)
  | rounded (x : Float) (s t : FloatType) : Kept (.float t) (float x s) (float (t.round x) t)
  | converted (n : Int) (s : IntType) (t : FloatType) :
      Kept (.float t) (integer n s) (float (t.round (Binary64.ofInt n)) t)
  | array {T : Ty} {vs ws : List Value} (length : ws.length = vs.length) : Kept (.array T) (.array vs) (.array ws)

/-- Every float at a place of a float type is one that this type represents. -/
def Rounded : Ty → Value → Prop
  | .float t, float x _ => t.round x = x
  | .array t, array items => ∀ v ∈ items, Rounded t v
  | _, _ => True

variable {T : Ty} {v w : Value}

/-! ### Arrays -/

private theorem mapM_eq_ok_iff {f : Value → Except Mismatch Value} {vs ws : List Value} :
    vs.mapM f = .ok ws ↔ List.Forall₂ (fun v w => f v = .ok w) vs ws := by
  induction vs generalizing ws with
  | nil =>
    rw [List.forall₂_nil_left_iff]
    constructor
    · intro h
      cases h
      rfl
    · rintro rfl
      rfl
  | cons v vs ih =>
    rw [List.mapM_cons, List.forall₂_cons_left_iff]
    constructor
    · intro h
      cases hv : f v with
      | error m =>
        rw [hv] at h
        cases h
      | ok w =>
        cases hrest : vs.mapM f with
        | error m =>
          rw [hv, hrest] at h
          cases h
        | ok rest =>
          rw [hv, hrest] at h
          cases h
          exact ⟨w, rest, rfl, ih.1 hrest, rfl⟩
    · rintro ⟨w, rest, hv, hrest, rfl⟩
      rw [hv, ih.2 hrest]
      rfl

private theorem conform_array_eq_ok_iff : conform (.array T) v = .ok w ↔
    ∃ vs ws, v = array vs ∧ w = array ws ∧ List.Forall₂ (fun v w => conform T v = .ok w) vs ws := by
  cases v with
  | array vs =>
    rw [conform]
    constructor
    · intro h
      cases hm : vs.mapM (conform T) with
      | error m =>
        rw [hm] at h
        cases h
      | ok ws =>
        rw [hm] at h
        cases h
        exact ⟨vs, ws, rfl, rfl, mapM_eq_ok_iff.1 hm⟩
    · rintro ⟨_, ws, ⟨⟩, rfl, hall⟩
      rw [mapM_eq_ok_iff.2 hall]
      rfl
  | _ => simp [conform]

/-! ### What conforming does -/

private theorem kept_of_conform (h : conform T v = .ok w) : Kept T v w := by
  cases T with
  | integer t =>
    cases v with
    | integer n s =>
      rw [conform] at h
      split at h <;> cases h
      exact .tagged n s t
    | _ => cases h
  | float t =>
    cases v with
    | float x s =>
      cases h
      exact .rounded x s t
    | integer n s =>
      cases h
      exact .converted n s t
    | _ => cases h
  | array T =>
    obtain ⟨vs, ws, rfl, rfl, hall⟩ := conform_array_eq_ok_iff.1 h
    exact .array hall.length_eq.symm
  | null | boolean | string | character | void => cases v <;> cases h <;> exact .same _ _

/-- Places of the type are kept.  By induction on the place, which goes into arrays item by item. -/
private theorem kept_at_of_conform (h : conform T v = .ok w) {place : List Nat} {U : Ty}
    (hU : T.at? place = some U) : Option.Rel (Kept U) (v.at? place) (w.at? place) := by
  induction place generalizing T v w with
  | nil =>
    cases hU
    exact .some (kept_of_conform h)
  | cons i place ih =>
    cases T with
    | array T =>
      obtain ⟨vs, ws, rfl, rfl, hall⟩ := conform_array_eq_ok_iff.1 h
      rw [at?, at?]
      by_cases hi : i < vs.length
      · have hi' : i < ws.length := hall.length_eq ▸ hi
        rw [List.getElem?_eq_getElem hi, List.getElem?_eq_getElem hi']
        exact ih (hall.get hi hi') hU
      · have hi' : ¬ i < ws.length := hall.length_eq ▸ hi
        rw [List.getElem?_eq_none (by omega), List.getElem?_eq_none (by omega)]
        exact .none
    | _ => cases hU

private theorem rounded_of_conform (h : conform T v = .ok w) : Rounded T w := by
  induction T generalizing v w with
  | float t => cases v <;> cases h <;> exact t.round_round _
  | array T ih =>
    obtain ⟨vs, ws, -, rfl, hws⟩ := conform_array_eq_ok h
    intro u hu
    obtain ⟨v, -, hv⟩ := hws u hu
    exact ih hv
  | _ => trivial

private theorem conform_eq_self (h : HasType T v) (hr : Rounded T v) : conform T v = .ok v := by
  induction T generalizing v with
  | integer t =>
    cases v with
    | integer n s =>
      obtain ⟨rfl, hholds⟩ := h
      rw [conform, if_pos hholds]
    | _ => exact h.elim
  | float t =>
    cases v with
    | float x s =>
      obtain rfl : s = t := h
      rw [conform, show s.round x = x from hr]
    | _ => exact h.elim
  | array T ih =>
    cases v with
    | array vs =>
      exact conform_array_eq_ok_iff.2 ⟨vs, vs, rfl, rfl, List.forall₂_same.2 fun u hu => ih (h u hu) (hr u hu)⟩
    | _ => exact h.elim
  | null => rfl
  | boolean | string | character | void => cases v <;> first | exact h.elim | rfl

/-- A value of a type is accepted. -/
private theorem exists_conform (h : HasType T v) : ∃ w, conform T v = .ok w := by
  induction T generalizing v with
  | float t =>
    cases v with
    | float x s => exact ⟨_, rfl⟩
    | _ => exact h.elim
  | array T ih =>
    cases v with
    | array vs =>
      obtain ⟨ws, hws⟩ : ∃ ws, List.Forall₂ (fun v w => conform T v = .ok w) vs ws := by
        induction vs with
        | nil => exact ⟨[], .nil⟩
        | cons v vs ih' =>
          obtain ⟨w, hw⟩ := ih (h v (by simp))
          obtain ⟨ws, hws⟩ := ih' fun u hu => h u (by simp [hu])
          exact ⟨w :: ws, .cons hw hws⟩
      exact ⟨_, conform_array_eq_ok_iff.2 ⟨vs, ws, rfl, rfl, hws⟩⟩
    | _ => exact h.elim
  | _ => exact ⟨v, conform_eq_self h trivial⟩

theorem conform_eq_self_iff : conform T v = .ok v ↔ HasType T v ∧ Rounded T v :=
  ⟨fun h => ⟨hasType_of_conform h, rounded_of_conform h⟩, fun h => conform_eq_self h.1 h.2⟩

private theorem rounded_defaultFor (T : Ty) : Rounded T (defaultFor T) := by
  cases T with
  | float t =>
    cases t with
    | f64 => exact rfl
    | f32 =>
      have hzero : FloatType.f32.round 0 = 0 := by decide +kernel
      exact hzero
  | array T => simp [defaultFor, Rounded]
  | _ => trivial

/-- What conforms to a type becomes a value of it, with the same at every place but for the tags of numbers and for
what a float type rounds, and then conforms as it is.  Conversely every value of the type conforms, and it is left
alone exactly if its floats are among those of the type.  The default of a type is such a value. -/
theorem conforming_settles (T : Ty) :
    (∀ v w, conform T v = .ok w → (HasType T w ∧ Rounded T w) ∧
      (∀ place U, T.at? place = some U → Option.Rel (Kept U) (v.at? place) (w.at? place)) ∧ conform T w = .ok w) ∧
    (∀ v, HasType T v → ∃ w, conform T v = .ok w) ∧ (∀ v, conform T v = .ok v ↔ HasType T v ∧ Rounded T v) ∧
    HasType T (defaultFor T) ∧ Rounded T (defaultFor T) := by
  refine ⟨fun v w h => ?_, fun v => exists_conform, fun v => conform_eq_self_iff, hasType_defaultFor T,
    rounded_defaultFor T⟩
  have hw : HasType T w ∧ Rounded T w := ⟨hasType_of_conform h, rounded_of_conform h⟩
  exact ⟨hw, fun place U => kept_at_of_conform h, conform_eq_self_iff.2 hw⟩

private def tenth : Float := .ofScientific 1 true 1

/-- The integer 1 and a tenth become singles, and the tenth also if it has the tag of a single already. -/
theorem conforming_settles_row :
    (∃ w, conform (.array (.float .f32)) (array [integer 1 ⟨.w8, true⟩, float tenth .f64]) = .ok w ∧
      HasType (.array (.float .f32)) w ∧
      Kept (.float .f32) (float tenth .f64) (float (FloatType.f32.round tenth) .f32) ∧
      w.at? [1] = some (float (FloatType.f32.round tenth) .f32) ∧ conform (.array (.float .f32)) w = .ok w) ∧
    HasType (.float .f32) (float tenth .f32) ∧ ∃ w, conform (.float .f32) (float tenth .f32) = .ok w := by
  have hrow : conform (.array (.float .f32)) (array [integer 1 ⟨.w8, true⟩, float tenth .f64]) =
      .ok (array [float (FloatType.f32.round (Binary64.ofInt 1)) .f32, float (FloatType.f32.round tenth) .f32]) :=
    rfl
  obtain ⟨⟨htype, -⟩, hplaces, hagain⟩ := (conforming_settles _).1 _ _ hrow
  have hsecond := hplaces [1] (.float .f32) rfl
  refine ⟨⟨_, hrow, htype, ?_, rfl, hagain⟩, rfl, (conforming_settles (.float .f32)).2.1 _ rfl⟩
  cases hsecond with
  | some h => exact h

/-- A tenth that has the tag of a single is of type `f32`, and it is not left alone. -/
theorem conform_changes_tenth :
    HasType (.float .f32) (float tenth .f32) ∧
    conform (.float .f32) (float tenth .f32) ≠ .ok (float tenth .f32) := by
  refine ⟨rfl, fun h => ?_⟩
  have hround : FloatType.f32.round tenth = tenth := by
    injection h with h
    injection h
  have hbits : (FloatType.f32.round tenth).toBits ≠ tenth.toBits := by decide +kernel
  exact hbits (congrArg Float.toBits hround)

end Value

end BraceScript
