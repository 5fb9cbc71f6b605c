import BraceScript.Scope

/-!
# Operations on scopes, slot by slot

What `Scopes.get?`, `push`, `modify` and `pop` do to each slot.  The facts other modules build on: a handle is alive
exactly if its slot is live and has its generation (`isAlive_iff`), the slots other than the new one are untouched by
`push` (`push_slots_of_ne`), and `pop` succeeds exactly on the last scope that is alive (`pop_eq_ok_iff`).
-/

namespace BraceScript

/-! ### Names of a scope -/

namespace Scope

variable {scope : Scope} {name n : String}

theorem binding?_bind (b : Binding) :
    (scope.bind name b).binding? n = if n = name then some b else scope.binding? n := by
  unfold bind binding?
  rw [List.lookup_cons]
  by_cases h : n = name
  · simp [h]
  · rw [show (n == name) = false from beq_eq_false_iff_ne.2 h]
    simp [h]

theorem binding?_set (value : Value) :
    (scope.set name value).binding? n =
      if n = name then (scope.binding? n).map fun b => { b with value } else scope.binding? n := by
  unfold set binding?
  induction scope.bindings with
  | nil => simp
  | cons entry rest ih =>
    obtain ⟨k, b⟩ := entry
    by_cases hk : n = k
    · subst hk
      by_cases hn : n = name
      · simp [hn]
      · simp [hn]
    · have hne : (n == k) = false := by simpa using hk
      by_cases hkn : k = name
      · simp only [List.map_cons, hkn, ↓reduceIte, List.lookup_cons]
        rw [show (n == name) = false by rw [← hkn]; exact hne, ih]
      · simp only [List.map_cons, hkn, ↓reduceIte, List.lookup_cons, hne]
        exact ih

theorem struct?_declare (d : StructDecl) :
    { scope with structs := d :: scope.structs }.struct? n =
      if n = d.name.name then some d else scope.struct? n := by
  unfold struct?
  rw [List.find?_cons]
  by_cases h : n = d.name.name
  · simp [h]
  · rw [show (d.name.name == n) = false from beq_eq_false_iff_ne.2 (Ne.symm h)]
    simp [h]

end Scope

namespace Scopes

variable {s t : Scopes} {id : ScopeId}

/-! ### Looking at a slot -/

theorem get?_eq_some_iff {scope : Scope} :
    s.get? id = some scope ↔ id.index < s.live ∧ s.slots[id.index]? = some ⟨id.generation, scope⟩ := by
  unfold get?
  by_cases hi : id.index < s.live
  · simp only [hi, ↓reduceIte, true_and]
    rcases hs : s.slots[id.index]? with _ | ⟨generation, scope'⟩
    · simp
    · by_cases hg : generation = id.generation
      · simp [hg]
      · simp [hg]
  · simp [hi]

theorem isAlive_iff :
    s.isAlive id = true ↔ id.index < s.live ∧ ∃ scope, s.slots[id.index]? = some ⟨id.generation, scope⟩ := by
  unfold isAlive
  rw [Option.isSome_iff_exists]
  simp only [get?_eq_some_iff, exists_and_left]

theorem isAlive_of_get? {scope : Scope} (h : s.get? id = some scope) : s.isAlive id = true := by
  simp [isAlive, h]

theorem get?_eq_none_iff : s.get? id = none ↔ s.isAlive id = false := by
  unfold isAlive
  cases s.get? id <;> simp

/-! ### A new scope -/

@[simp] theorem push_live (parent : ScopeId) : (s.push parent).1.live = s.live + 1 := by
  unfold push
  split <;> rfl

@[simp] theorem push_index (parent : ScopeId) : (s.push parent).2.index = s.live := by
  unfold push
  split <;> rfl

theorem push_slots_of_ne (parent : ScopeId) {i : Nat} (hi : i ≠ s.live) (h : s.live ≤ s.slots.size) :
    (s.push parent).1.slots[i]? = s.slots[i]? := by
  unfold push
  split
  · simp [Ne.symm hi]
  · rename_i hn
    have hsize : s.slots.size = s.live := Nat.le_antisymm (Array.getElem?_eq_none_iff.1 hn) h
    simp only [Array.getElem?_push, hsize, hi, ↓reduceIte]

theorem push_slots_self (parent : ScopeId) (h : s.live ≤ s.slots.size) :
    (s.push parent).1.slots[s.live]? = some ⟨(s.push parent).2.generation, .empty (some parent)⟩ := by
  unfold push
  split
  · rename_i slot hs
    obtain ⟨hlt, -⟩ := Array.getElem?_eq_some_iff.1 hs
    simp [hlt]
  · rename_i hn
    have hsize : s.slots.size = s.live := Nat.le_antisymm (Array.getElem?_eq_none_iff.1 hn) h
    simp [← hsize]

/-- A slot that is used again gets the next generation; a slot that is new starts at zero. -/
theorem push_generation (parent : ScopeId) :
    (s.push parent).2.generation = ((s.slots[s.live]?).map fun slot => slot.generation + 1).getD 0 := by
  unfold push
  split <;> simp_all

theorem isAlive_push (parent : ScopeId) (h : s.live ≤ s.slots.size) :
    (s.push parent).1.isAlive (s.push parent).2 = true := by
  rw [isAlive_iff, push_index, push_live]
  exact ⟨by omega, _, push_slots_self parent h⟩

/-! ### A changed scope -/

theorem modify_slots (f : Scope → Scope) (i : Nat) :
    (s.modify id f).slots[i]? =
      if id.index = i then (s.slots[i]?).map fun slot => { slot with scope := f slot.scope } else s.slots[i]? := by
  unfold modify
  rw [Array.getElem?_modify]

/-! ### Removing a scope -/

/-- The scopes without the last one that is alive. -/
def dropLast (s : Scopes) : Scopes :=
  { s.modify ⟨s.live - 1, 0⟩ fun _ => .empty none with live := s.live - 1 }

theorem pop_eq_ok_iff :
    s.pop id = .ok t ↔ s.isAlive id = true ∧ id.index ≠ 0 ∧ id.index + 1 = s.live ∧ t = s.dropLast := by
  unfold pop
  by_cases ha : s.isAlive id = true
  · by_cases hi : id.index = 0 ∨ id.index + 1 ≠ s.live
    · simp only [ha, Bool.not_true, Bool.false_eq_true, ↓reduceIte, hi, reduceCtorEq, true_and, false_iff]
      omega
    · have hlast : s.live - 1 = id.index := by omega
      simp only [ha, Bool.not_true, Bool.false_eq_true, ↓reduceIte, hi, Except.ok.injEq, true_and]
      constructor
      · rintro rfl
        refine ⟨by omega, by omega, ?_⟩
        simp [dropLast, modify, hlast]
      · rintro ⟨-, -, rfl⟩
        simp [dropLast, modify, hlast]
  · simp [ha]

@[simp] theorem dropLast_live : s.dropLast.live = s.live - 1 := rfl

theorem dropLast_slots_of_lt {i : Nat} (hi : i + 1 < s.live) : s.dropLast.slots[i]? = s.slots[i]? := by
  change (s.modify ⟨s.live - 1, 0⟩ fun _ => .empty none).slots[i]? = s.slots[i]?
  rw [modify_slots]
  simp only [show s.live - 1 ≠ i by omega, ↓reduceIte]

end Scopes

end BraceScript
