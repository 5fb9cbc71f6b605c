import BraceScript.Proofs.Scopes

/-!
# Bindings of scopes that are alive

`Scopes.Binds` says which names the scopes that are alive bind.  There is one lemma for each change: a new value for
a name (`binds_set`), a new name (`binds_bind`), a new scope (`binds_push`), the end of a scope (`binds_dropLast`)
and a struct (`binds_declareStruct`).  `Scopes.Holds` speaks about the values of all bindings, and `Scopes.Declares`
about the structs that the scopes that are alive declare.
-/

namespace BraceScript.Scopes

variable {s : Scopes} {id owner : ScopeId} {name n : String} {b : Binding}

/-- The scope `owner` is alive and binds `name`. -/
def Binds (s : Scopes) (owner : ScopeId) (name : String) (b : Binding) : Prop :=
  ∃ scope, s.get? owner = some scope ∧ scope.binding? name = some b

private theorem Binds.unique {b' : Binding} (h : s.Binds owner name b) (h' : s.Binds owner name b') : b = b' := by
  obtain ⟨scope, hget, hb⟩ := h
  obtain ⟨scope', hget', hb'⟩ := h'
  obtain rfl : scope = scope' := Option.some.inj (hget.symm.trans hget')
  exact Option.some.inj (hb.symm.trans hb')

/-- Two handles on one slot that are both alive are the same. -/
theorem eq_of_index {scope scope' : Scope} (h : s.get? id = some scope) (h' : s.get? owner = some scope')
    (hindex : id.index = owner.index) : id = owner := by
  obtain ⟨-, hslot⟩ := get?_eq_some_iff.1 h
  obtain ⟨-, hslot'⟩ := get?_eq_some_iff.1 h'
  rw [← hindex, hslot, Option.some.injEq] at hslot'
  have hgeneration : id.generation = owner.generation := congrArg Slot.generation hslot'
  obtain ⟨index, generation⟩ := id
  obtain ⟨index', generation'⟩ := owner
  simp only at hindex hgeneration
  rw [hindex, hgeneration]

theorem get?_modify (f : Scope → Scope) :
    (s.modify owner f).get? id = if owner.index = id.index then (s.get? id).map f else s.get? id := by
  unfold get?
  rw [modify_slots]
  by_cases hi : id.index < s.live
  · simp only [show (s.modify owner f).live = s.live from rfl, hi, ↓reduceIte]
    by_cases hindex : owner.index = id.index
    · simp only [hindex, ↓reduceIte]
      cases s.slots[id.index]? with
      | none => rfl
      | some slot =>
        simp only [Option.map_some]
        split <;> rfl
    · simp only [hindex, ↓reduceIte]
  · simp [show (s.modify owner f).live = s.live from rfl, hi]

private theorem binds_modify (f : Scope → Scope) : (s.modify owner f).Binds id n b ↔
    ∃ scope, s.get? id = some scope ∧ (if owner.index = id.index then f scope else scope).binding? n = some b := by
  unfold Binds
  rw [get?_modify]
  by_cases hindex : owner.index = id.index
  · simp only [hindex, ↓reduceIte, Option.map_eq_some_iff]
    constructor
    · rintro ⟨_, ⟨scope, hget, rfl⟩, hb⟩
      exact ⟨scope, hget, hb⟩
    · rintro ⟨scope, hget, hb⟩
      exact ⟨_, ⟨scope, hget, rfl⟩, hb⟩
  · simp only [hindex, ↓reduceIte]

theorem binds_set (value : Value) : (s.modify owner (·.set name value)).Binds id n b ↔
    ∃ old, s.Binds id n old ∧ b = if owner.index = id.index ∧ n = name then { old with value } else old := by
  rw [binds_modify]
  unfold Binds
  by_cases hindex : owner.index = id.index
  · by_cases hname : n = name
    · simp only [hindex, hname, ↓reduceIte, Scope.binding?_set, and_self, Option.map_eq_some_iff]
      constructor
      · rintro ⟨scope, hget, old, hold, rfl⟩
        exact ⟨old, ⟨scope, hget, hold⟩, rfl⟩
      · rintro ⟨old, ⟨scope, hget, hold⟩, rfl⟩
        exact ⟨scope, hget, old, hold, rfl⟩
    · simp [hindex, hname, Scope.binding?_set]
  · simp [hindex]

/-- When the value of `name` is replaced, any other binding stays as it is. -/
theorem Binds.set {old : Binding} (hb : s.Binds owner name b) (h : s.Binds id n old) (value : Value) :
    (id = owner ∧ n = name ∧ old = b ∧ (s.modify owner (·.set name value)).Binds id n { b with value }) ∨
      (s.modify owner (·.set name value)).Binds id n old := by
  by_cases hsame : owner.index = id.index ∧ n = name
  · obtain ⟨hindex, rfl⟩ := hsame
    obtain rfl : owner = id := by
      obtain ⟨scope, hget, -⟩ := hb
      obtain ⟨scope', hget', -⟩ := h
      exact eq_of_index hget hget' hindex
    obtain rfl : b = old := hb.unique h
    exact .inl ⟨rfl, rfl, rfl, (binds_set value).2 ⟨b, h, (if_pos ⟨rfl, rfl⟩).symm⟩⟩
  · exact .inr ((binds_set value).2 ⟨old, h, (if_neg hsame).symm⟩)

theorem binds_bind {here : Scope} {new : Binding} (hget : s.get? owner = some here)
    (hnone : here.binding? name = none) :
    (s.modify owner (·.bind name new)).Binds id n b ↔ (id = owner ∧ n = name ∧ b = new) ∨ s.Binds id n b := by
  rw [binds_modify]
  by_cases hid : id = owner
  · subst hid
    by_cases hname : n = name
    · subst hname
      have hfree : ¬ s.Binds id n b := by
        rintro ⟨scope, hget', hb⟩
        obtain rfl : here = scope := Option.some.inj (hget.symm.trans hget')
        rw [hnone] at hb
        cases hb
      simp [hget, hfree, Scope.binding?_bind, eq_comm]
    · simp [hname, Scope.binding?_bind, Binds]
  · -- a handle that is alive and is another one has another slot
    have hindex : ∀ scope, s.get? id = some scope → owner.index ≠ id.index := fun scope hget' heq =>
      hid (eq_of_index hget' hget heq.symm)
    constructor
    · rintro ⟨scope, hget', hb⟩
      rw [if_neg (hindex scope hget')] at hb
      exact .inr ⟨scope, hget', hb⟩
    · rintro (⟨heq, -⟩ | ⟨scope, hget', hb⟩)
      · exact absurd heq hid
      · exact ⟨scope, hget', by rwa [if_neg (hindex scope hget')]⟩

theorem get?_push_of_ne (parent : ScopeId) (hstored : s.live ≤ s.slots.size) (hlive : id.index ≠ s.live) :
    (s.push parent).1.get? id = s.get? id := by
  unfold get?
  rw [push_slots_of_ne parent hlive hstored, push_live]
  have hiff : id.index < s.live + 1 ↔ id.index < s.live := by omega
  simp only [hiff]

theorem eq_empty_of_get?_push {parent : ScopeId} (hstored : s.live ≤ s.slots.size) (hlive : id.index = s.live)
    {scope : Scope} (hget : (s.push parent).1.get? id = some scope) : scope = .empty (some parent) := by
  obtain ⟨-, hslot⟩ := get?_eq_some_iff.1 hget
  rw [hlive, push_slots_self parent hstored, Option.some.injEq] at hslot
  exact (congrArg Slot.scope hslot).symm

theorem get?_dropLast (hi : id.index + 1 < s.live) : s.dropLast.get? id = s.get? id := by
  unfold get?
  rw [dropLast_slots_of_lt hi, dropLast_live, if_pos (by omega), if_pos (by omega)]

theorem lt_of_get?_dropLast {scope : Scope} (hget : s.dropLast.get? id = some scope) : id.index + 1 < s.live := by
  obtain ⟨hlt, -⟩ := get?_eq_some_iff.1 hget
  rw [dropLast_live] at hlt
  omega

theorem binds_push (parent : ScopeId) (hstored : s.live ≤ s.slots.size) :
    (s.push parent).1.Binds id n b ↔ s.Binds id n b := by
  unfold Binds
  by_cases hlive : id.index = s.live
  · -- the new scope binds nothing
    constructor
    · rintro ⟨scope, hget, hb⟩
      rw [eq_empty_of_get?_push hstored hlive hget] at hb
      cases hb
    · rintro ⟨scope, hget, -⟩
      obtain ⟨hi, -⟩ := get?_eq_some_iff.1 hget
      omega
  · rw [get?_push_of_ne parent hstored hlive]

theorem binds_dropLast : s.dropLast.Binds id n b ↔ id.index + 1 < s.live ∧ s.Binds id n b := by
  unfold Binds
  by_cases hi : id.index + 1 < s.live
  · rw [get?_dropLast hi]
    simp [hi]
  · constructor
    · rintro ⟨scope, hget, -⟩
      exact absurd (lt_of_get?_dropLast hget) hi
    · rintro ⟨hlt, -⟩
      exact absurd hlt hi

/-- When a scope is left, the bindings of the others stay. -/
theorem Binds.of_pop (h : s.Binds id n b) (hpop : s.pop owner = .ok s.dropLast) (hne : id ≠ owner) :
    s.dropLast.Binds id n b := by
  refine binds_dropLast.2 ⟨?_, h⟩
  obtain ⟨halive, -, hlast, -⟩ := pop_eq_ok_iff.1 hpop
  obtain ⟨scope, hget⟩ := Option.isSome_iff_exists.1 halive
  obtain ⟨scope', hget', -⟩ := h
  have hlive : id.index < s.live := (get?_eq_some_iff.1 hget').1
  have hindex : id.index ≠ owner.index := fun hindex => hne (eq_of_index hget' hget hindex)
  omega

theorem binds_declareStruct (d : StructDecl) :
    (s.modify owner fun here => { here with structs := d :: here.structs }).Binds id n b ↔ s.Binds id n b := by
  rw [binds_modify]
  unfold Binds
  by_cases hindex : owner.index = id.index
  · simp [hindex, Scope.binding?]
  · simp [hindex]

/-! ### All bindings -/

/-- The values of all bindings have the property `p`. -/
def Holds (s : Scopes) (p : Value → Prop) : Prop := ∀ owner name b, s.Binds owner name b → p b.value

namespace Holds

variable {p q : Value → Prop}

theorem mono (h : s.Holds p) (hpq : ∀ v, p v → q v) : s.Holds q := fun owner name b hb => hpq _ (h owner name b hb)

theorem set (h : s.Holds p) {value : Value} (hv : p value) : (s.modify owner (·.set name value)).Holds p := by
  intro id n b hb
  obtain ⟨old, hold, rfl⟩ := (binds_set value).1 hb
  split
  · exact hv
  · exact h id n old hold

theorem bind (h : s.Holds p) {here : Scope} {new : Binding} (hget : s.get? owner = some here)
    (hnone : here.binding? name = none) (hv : p new.value) : (s.modify owner (·.bind name new)).Holds p := by
  intro id n b hb
  rcases (binds_bind hget hnone).1 hb with ⟨-, -, rfl⟩ | hb
  · exact hv
  · exact h id n b hb

theorem push (h : s.Holds p) (parent : ScopeId) (hstored : s.live ≤ s.slots.size) : (s.push parent).1.Holds p :=
  fun id n b hb => h id n b ((binds_push parent hstored).1 hb)

theorem dropLast (h : s.Holds p) : s.dropLast.Holds p := fun id n b hb => h id n b (binds_dropLast.1 hb).2

theorem declareStruct (h : s.Holds p) (d : StructDecl) :
    (s.modify owner fun here => { here with structs := d :: here.structs }).Holds p :=
  fun id n b hb => h id n b ((binds_declareStruct d).1 hb)

end Holds

theorem holds_initial {p : Value → Prop} : initial.Holds p := by
  rintro owner name b ⟨scope, hget, hb⟩
  obtain ⟨hi, hslot⟩ := get?_eq_some_iff.1 hget
  have hzero : owner.index = 0 := Nat.lt_one_iff.1 hi
  rw [hzero] at hslot
  obtain rfl : Scope.empty none = scope := congrArg Slot.scope (Option.some.inj hslot)
  cases hb

/-! ### Structs -/

/-- A scope that is alive declares the struct `d`. -/
def Declares (s : Scopes) (d : StructDecl) : Prop := ∃ id scope, s.get? id = some scope ∧ d ∈ scope.structs

variable {d : StructDecl}

/-- A change of a scope that adds no struct adds none to the scopes. -/
theorem Declares.of_modify {f : Scope → Scope} (h : (s.modify owner f).Declares d)
    (hf : ∀ scope, (f scope).structs = scope.structs) : s.Declares d := by
  obtain ⟨id, scope, hget, hd⟩ := h
  rw [get?_modify] at hget
  split at hget
  · obtain ⟨old, hold, rfl⟩ := Option.map_eq_some_iff.1 hget
    exact ⟨id, old, hold, by rwa [hf] at hd⟩
  · exact ⟨id, scope, hget, hd⟩

theorem Declares.of_declareStruct {new : StructDecl}
    (h : (s.modify owner fun here => { here with structs := new :: here.structs }).Declares d) :
    d = new ∨ s.Declares d := by
  obtain ⟨id, scope, hget, hd⟩ := h
  rw [get?_modify] at hget
  split at hget
  · obtain ⟨old, hold, rfl⟩ := Option.map_eq_some_iff.1 hget
    rcases List.mem_cons.1 hd with rfl | hd
    · exact .inl rfl
    · exact .inr ⟨id, old, hold, hd⟩
  · exact .inr ⟨id, scope, hget, hd⟩

theorem Declares.of_push {parent : ScopeId} (h : (s.push parent).1.Declares d) (hstored : s.live ≤ s.slots.size) :
    s.Declares d := by
  obtain ⟨id, scope, hget, hd⟩ := h
  by_cases hlive : id.index = s.live
  · rw [eq_empty_of_get?_push hstored hlive hget] at hd
    cases hd
  · rw [get?_push_of_ne parent hstored hlive] at hget
    exact ⟨id, scope, hget, hd⟩

theorem Declares.of_dropLast (h : s.dropLast.Declares d) : s.Declares d := by
  obtain ⟨id, scope, hget, hd⟩ := h
  rw [get?_dropLast (lt_of_get?_dropLast hget)] at hget
  exact ⟨id, scope, hget, hd⟩

theorem not_declares_initial : ¬ initial.Declares d := by
  rintro ⟨id, scope, hget, hd⟩
  obtain ⟨hi, hslot⟩ := get?_eq_some_iff.1 hget
  have hzero : id.index = 0 := Nat.lt_one_iff.1 hi
  rw [hzero] at hslot
  obtain rfl : Scope.empty none = scope := congrArg Slot.scope (Option.some.inj hslot)
  cases hd

end BraceScript.Scopes
