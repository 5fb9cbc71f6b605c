import BraceScript.Proofs.Steps

/-!
# Properties of the parts of a value

`Value.All p v` says that every part of `v` that is neither an array nor an instance has the property `p`.  Values
are made from others by operators, by conforming to a type and by setting properties.  If `p` is kept by what happens
to single numbers on these ways (`Value.Closed`), then `Value.All p` is kept by all of them.
-/

namespace BraceScript.Value

mutual

/-- Every part of the value that is neither an array nor an instance has the property `p`. -/
def All (p : Value → Prop) : Value → Prop
  | array items => AllItems p items
  | struct _ fields => AllFields p fields
  | integer n t => p (integer n t)
  | float x t => p (float x t)
  | boolean b => p (boolean b)
  | string s => p (string s)
  | character c => p (character c)
  | null => p null
  | void => p void
  | function d closure => p (function d closure)
  | builtin name => p (builtin name)

def AllItems (p : Value → Prop) : List Value → Prop
  | [] => True
  | v :: vs => v.All p ∧ AllItems p vs

def AllFields (p : Value → Prop) : List (String × Value) → Prop
  | [] => True
  | (_, v) :: fields => v.All p ∧ AllFields p fields

end

variable {p q : Value → Prop}

private theorem allItems_iff {items : List Value} : AllItems p items ↔ ∀ v ∈ items, v.All p := by
  induction items with
  | nil => simp [AllItems]
  | cons v vs ih => simp [AllItems, ih]

private theorem allFields_iff {fields : List (String × Value)} : AllFields p fields ↔ ∀ f ∈ fields, f.2.All p := by
  induction fields with
  | nil => simp [AllFields]
  | cons f fields ih => simp [AllFields, ih]

@[simp] theorem all_array {items : List Value} : (array items).All p ↔ ∀ v ∈ items, v.All p := by
  rw [All, allItems_iff]

@[simp] theorem all_struct {d : StructDecl} {fields : List (String × Value)} :
    (struct d fields).All p ↔ ∀ f ∈ fields, f.2.All p := by
  rw [All, allFields_iff]

mutual

theorem All.mono (hpq : ∀ v, p v → q v) : ∀ v : Value, v.All p → v.All q
  | array items, h => AllItems.mono hpq items h
  | struct _ fields, h => AllFields.mono hpq fields h
  | integer _ _, h | float _ _, h | boolean _, h | string _, h | character _, h | null, h | void, h | function _ _, h
  | builtin _, h => hpq _ h

private theorem AllItems.mono (hpq : ∀ v, p v → q v) : ∀ items : List Value, AllItems p items → AllItems q items
  | [], _ => trivial
  | v :: vs, h => ⟨All.mono hpq v h.1, AllItems.mono hpq vs h.2⟩

private theorem AllFields.mono (hpq : ∀ v, p v → q v) :
    ∀ fields : List (String × Value), AllFields p fields → AllFields q fields
  | [], _ => trivial
  | (_, v) :: fields, h => ⟨All.mono hpq v h.1, AllFields.mono hpq fields h.2⟩

end

/-! ### Fields -/

theorem mem_of_field? {name : String} {fields : List (String × Value)} {v : Value}
    (h : field? name fields = some v) : ∃ f ∈ fields, f.2 = v := by
  induction fields with
  | nil => cases h
  | cons f fields ih =>
    obtain ⟨n, w⟩ := f
    rw [field?] at h
    split at h
    · exact ⟨(n, w), by simp, Option.some.inj h⟩
    · obtain ⟨f, hf, hv⟩ := ih h
      exact ⟨f, by simp [hf], hv⟩

/-- Setting a field leaves the values of the others. -/
theorem mem_setField {name : String} {value : Value} {fields : List (String × Value)} {f : String × Value}
    (h : f ∈ setField name value fields) : f.2 = value ∨ f ∈ fields := by
  induction fields with
  | nil =>
    rw [setField, List.mem_singleton] at h
    exact .inl (by rw [h])
  | cons g fields ih =>
    obtain ⟨n, w⟩ := g
    rw [setField] at h
    split at h
    · rcases List.mem_cons.1 h with rfl | h
      · exact .inl rfl
      · exact .inr (by simp [h])
    · split at h
      · rcases List.mem_cons.1 h with rfl | h
        · exact .inl rfl
        · exact .inr h
      · rcases List.mem_cons.1 h with rfl | h
        · exact .inr (by simp)
        · rcases ih h with h | h
          · exact .inl h
          · exact .inr (by simp [h])

private theorem All.setField {name : String} {value : Value} {fields : List (String × Value)} (hv : value.All p)
    (h : ∀ f ∈ fields, f.2.All p) : ∀ f ∈ Value.setField name value fields, f.2.All p := by
  intro f hf
  rcases mem_setField hf with heq | hf
  · rwa [heq]
  · exact h f hf

theorem All.foldl_setField {values fields : List (String × Value)} (hvalues : ∀ f ∈ values, f.2.All p)
    (h : ∀ f ∈ fields, f.2.All p) :
    ∀ f ∈ values.foldl (fun all (n, v) => Value.setField n v all) fields, f.2.All p := by
  induction values generalizing fields with
  | nil => exact h
  | cons f values ih =>
    exact ih (fun g hg => hvalues g (by simp [hg])) (All.setField (hvalues f (by simp)) h)

/-! ### Arrays -/

/-- Items conform one by one. -/
private theorem mem_of_mapM {f : Value → Except Mismatch Value} {items ws : List Value} (h : items.mapM f = .ok ws) :
    ∀ w ∈ ws, ∃ v ∈ items, f v = .ok w := by
  induction items generalizing ws with
  | nil =>
    cases h
    simp
  | cons v items ih =>
    rw [List.mapM_cons] at h
    cases hv : f v with
    | error m =>
      rw [hv] at h
      cases h
    | ok w =>
      cases hrest : items.mapM f with
      | error m =>
        rw [hv, hrest] at h
        cases h
      | ok rest =>
        rw [hv, hrest] at h
        cases h
        intro u hu
        rcases List.mem_cons.1 hu with rfl | hu
        · exact ⟨v, by simp, hv⟩
        · obtain ⟨v', hv', hu⟩ := ih hrest u hu
          exact ⟨v', by simp [hv'], hu⟩

/-- An array conforms item by item. -/
theorem conform_array_eq_ok {t : Ty} {v w : Value} (h : conform (.array t) v = .ok w) :
    ∃ items ws, v = array items ∧ w = array ws ∧ ∀ u ∈ ws, ∃ v ∈ items, conform t v = .ok u := by
  cases v with
  | array items =>
    rw [conform] at h
    cases hm : items.mapM (conform t) with
    | error m =>
      rw [hm] at h
      cases h
    | ok ws =>
      rw [hm] at h
      cases h
      exact ⟨items, ws, rfl, rfl, mem_of_mapM hm⟩
  | _ => cases h

/-! ### Properties that operators keep -/

/-- A value that is no integer and no function and has no parts of its own. -/
def IsPlain : Value → Prop
  | float .. | boolean _ | string _ | character _ | null | void | builtin _ => True
  | integer .. | function .. | array _ | struct .. => False

/-- A result that is negative is signed, whatever its operands are. -/
theorem signed_or_nonneg (signed : Bool) (n : Int) : (signed || decide (n < 0)) = true ∨ 0 ≤ n := by
  by_cases hn : n < 0
  · exact .inl (by simp [hn])
  · exact .inr (by omega)

/-- A property of single values that says something about integers and functions only, and that is kept by what
operators and types do to integers. -/
structure Closed (p : Value → Prop) : Prop where
  plain : ∀ {v : Value}, v.IsPlain → p v
  zero : ∀ t, p (integer 0 t)
  fits : ∀ {n s t}, p (integer n s) → t.holds n = true → p (integer n t)
  combine : ∀ {op a s b t w}, p (integer a s) → p (integer b t) → integerArith op a s b t = .ok w → w.All p
  step : ∀ {op t signed n w}, (signed = true ∨ 0 ≤ n) → stepped op t signed n = .ok w → w.All p

/-- A property that holds of every integer. -/
theorem Closed.of_integer (hplain : ∀ {v : Value}, v.IsPlain → p v) (hinteger : ∀ n t, p (integer n t)) :
    Closed p where
  plain := hplain
  zero _ := hinteger _ _
  fits _ _ := hinteger _ _
  combine := by
    intro op a s b t w _ _ h
    unfold integerArith at h
    split at h
    · cases h
    · split at h
      · cases h
      · cases h
        exact hinteger _ _
  step := by
    intro op t signed n w _ h
    unfold stepped at h
    split at h
    · cases h
      exact hinteger _ _
    · cases h

theorem range_eq_ok {left right w : Value} (h : range left right = .ok w) :
    ∃ a s b t, left = integer a s ∧ right = integer b t ∧ rangeSize a b ≤ maxRangeSize ∧
      w = array ((List.range (rangeSize a b)).map fun i :
        Nat => integer (a + i) ⟨widerOf s.width t.width, true⟩) := by
  unfold range at h
  split at h
  · dsimp only at h
    split at h
    · cases h
    · rename_i hsize
      cases h
      exact ⟨_, _, _, _, rfl, rfl, Nat.not_lt.1 hsize, rfl⟩
  · cases h

/-- An assignment through a path that succeeds puts a value into the first property: the stored one if the path ends
there, which must not be readonly, and otherwise what the rest of the path makes of the old one. -/
theorem setProperty_eq_ok {op : Located AssignOp} {new object changed stored : Value} {span : Span}
    {path : List Ident} (h : setProperty op new span path object = .ok (changed, stored)) :
    ∃ name rest d fields q old inner, path = name :: rest ∧ object = struct d fields ∧
    d.property? name.name = some q ∧
      field? name.name fields = some old ∧ changed = struct d (setField name.name inner fields) ∧
      ((rest = [] ∧ q.isReadonly = false ∧ newProperty q.type op old new span = .ok stored ∧ inner = stored) ∨
        setProperty op new span rest old = .ok (inner, stored)) := by
  rcases setProperty_cases op new span path object with
    ⟨name, rest, d, fields, q, old, rfl, rfl, hq, hold, hset⟩ | ⟨e, hset, -⟩
  · rw [h] at hset
    rcases hset with ⟨hrest, hwritable, hset⟩ | hset
    · cases hn : newProperty q.type op old new span with
      | error e => rw [hn] at hset; cases hset
      | ok v =>
        rw [hn] at hset
        cases hset
        exact ⟨name, rest, d, fields, q, old, stored, rfl, rfl, hq, hold, rfl, .inl ⟨hrest, hwritable, hn, rfl⟩⟩
    · cases hi : setProperty op new span rest old with
      | error e => rw [hi] at hset; cases hset
      | ok r =>
        rw [hi] at hset
        cases hset
        exact ⟨name, rest, d, fields, q, old, r.1, rfl, rfl, hq, hold, rfl, .inr hi⟩
  · rw [hset] at h
    cases h

/-- An assignment through a path keeps a property of values if it is kept on the last property of the path and where
the instances on the way are put back.  By induction on the path. -/
theorem setProperty_keeps {op : Located AssignOp} {new object changed stored : Value} {span : Span}
    {path : List Ident} (hread : ∀ {d fields name old}, p (struct d fields) → field? name fields = some old → p old)
    (hlast : ∀ {d fields name prop old v}, p (struct d fields) → d.property? name = some prop →
      field? name fields = some old → newProperty prop.type op old new span = .ok v →
      p (struct d (setField name v fields)) ∧ p v)
    (hput : ∀ {d fields name e before after}, p (struct d fields) → field? name fields = some (struct e before) →
      p (struct e after) → p (struct d (setField name (struct e after) fields)))
    (hobject : p object) (h : setProperty op new span path object = .ok (changed, stored)) :
    p changed ∧ p stored := by
  induction path generalizing object changed stored with
  | nil =>
    simp only [setProperty] at h
    cases h
  | cons name rest ih =>
    obtain ⟨_, _, d, fields, q, old, inner, ⟨⟩, rfl, hq, hold, rfl, hend | hinner⟩ := setProperty_eq_ok h
    · obtain ⟨-, -, hn, rfl⟩ := hend
      exact hlast hobject hq hold hn
    · obtain ⟨hp, hv⟩ := ih (hread hobject hold) hinner
      obtain ⟨_, _, e, before, _, _, _, -, rfl, -, -, rfl, -⟩ := setProperty_eq_ok hinner
      exact ⟨hput hobject hold hp, hv⟩

namespace Closed

variable (hp : Closed p)
include hp

theorem all_plain {v : Value} (h : v.IsPlain) : v.All p := by
  cases v with
  | integer | function | array | struct => exact h.elim
  | _ => rw [All]; exact hp.plain h

theorem all_defaultFor (t : Ty) : (defaultFor t).All p := by
  cases t with
  | integer t => rw [defaultFor, All]; exact hp.zero t
  | array t => simp [defaultFor]
  | _ => exact hp.all_plain trivial

theorem all_conform {t : Ty} {v w : Value} (hv : v.All p) (h : conform t v = .ok w) : w.All p := by
  induction t generalizing v w with
  | null =>
    cases v <;> cases h <;> exact hv
  | array t ih =>
    obtain ⟨items, ws, rfl, rfl, hall⟩ := conform_array_eq_ok h
    rw [all_array] at hv ⊢
    intro u hu
    obtain ⟨v, hmem, hconform⟩ := hall u hu
    exact ih (hv v hmem) hconform
  | integer t =>
    cases v with
    | integer n s =>
      rw [conform] at h
      split at h
      · rename_i hholds
        cases h
        rw [All] at hv ⊢
        exact hp.fits hv hholds
      · cases h
    | _ => cases h
  | _ => cases v <;> cases h <;> exact hp.all_plain trivial

theorem all_unary {op : UnaryOp} {v w : Value} (hv : v.All p) (h : unary op v = .ok w) : w.All p := by
  cases op with
  | plus =>
    cases v <;> cases h <;> exact hv
  | minus =>
    cases v with
    | integer n t => exact hp.step (.inl rfl) h
    | float x t => cases h; exact hp.all_plain trivial
    | _ => cases h
  | not =>
    cases v with
    | boolean b => cases h; exact hp.all_plain trivial
    | _ => cases h
  | increment =>
    cases v with
    | integer n t => exact hp.step (signed_or_nonneg _ _) h
    | _ => cases h
  | decrement =>
    cases v with
    | integer n t => exact hp.step (signed_or_nonneg _ _) h
    | _ => cases h

private theorem all_mixedArith {op : ArithOp} {left right w : Value} (h : mixedArith op left right = .ok w) :
    w.All p := by
  unfold mixedArith at h
  split at h
  · unfold floatArith at h
    split at h
    · cases h
    · cases h
      exact hp.all_plain trivial
  · cases h

theorem all_arith {op : ArithOp} {left right w : Value} (hl : left.All p) (hr : right.All p)
    (h : arith op left right = .ok w) : w.All p := by
  unfold arith at h
  split at h
  · rw [All] at hl hr
    exact hp.combine hl hr h
  · split at h
    · rename_i hjoined
      cases h
      unfold joined? at hjoined
      split at hjoined
      · split at hjoined <;> cases hjoined
        exact hp.all_plain trivial
      · split at hjoined <;> cases hjoined
        exact hp.all_plain trivial
      · cases hjoined
    · exact hp.all_mixedArith h

/-- All operators but ranges. -/
theorem all_binary {op : BinaryOp} {left right w : Value} (hl : left.All p) (hr : right.All p) (hop : op ≠ .range)
    (h : binary op left right = .ok w) : w.All p := by
  have htest : ∀ {f : Bool → Bool} {r : Option Bool}, binary.test left right op f r = .ok w → w.All p := by
    intro f r h
    cases r <;> cases h
    exact hp.all_plain trivial
  cases op with
  | arith op => exact hp.all_arith hl hr h
  | compare op =>
    simp only [binary, comparison] at h
    split at h <;> cases h
    · exact hp.all_plain trivial
    · exact hp.all_plain trivial
  | equal => exact htest h
  | notEqual => exact htest h
  | and => cases h; exact hp.all_plain trivial
  | or => cases h; exact hp.all_plain trivial
  | range => exact absurd rfl hop

private theorem all_defaultFields (d : StructDecl) : ∀ f ∈ Eval.defaultFields d, f.2.All p := by
  have hfold : ∀ (ps : List PropertyDecl) (fields : List (String × Value)), (∀ f ∈ fields, f.2.All p) →
      ∀ f ∈ ps.foldl (fun fields q => if q.isStatic then fields
        else Value.setField q.name.name (defaultFor q.type) fields) fields, f.2.All p := by
    intro ps
    induction ps with
    | nil => exact fun fields h => h
    | cons q ps ih =>
      intro fields h
      refine ih _ ?_
      dsimp only
      split
      · exact h
      · exact All.setField (hp.all_defaultFor q.type) h
  exact hfold d.properties [] (by simp)

theorem all_default (d : StructDecl) : (struct d (Eval.defaultFields d)).All p :=
  all_struct.2 (hp.all_defaultFields d)

private theorem all_newProperty {t : Ty} {op : Located AssignOp} {old new w : Value} {span : Span} (hold : old.All p)
    (hnew : new.All p) (h : newProperty t op old new span = .ok w) : w.All p := by
  rcases newProperty_cases t op old new span with ⟨combined, v, hc, hconform, hv⟩ | ⟨e, he, -⟩
  · obtain rfl : v = w := Except.ok.inj (hv.symm.trans h)
    have hcombined : combined.All p := by
      cases hop : op.value with
      | set =>
        rw [hop] at hc
        cases hc
        exact hnew
      | update f =>
        rw [hop] at hc
        exact hp.all_arith hold hnew hc
    exact hp.all_conform hcombined hconform
  · rw [he] at h
    cases h

theorem all_setProperty {op : Located AssignOp} {new : Value} {span : Span} {path : List Ident}
    {object changed stored : Value} (hobject : object.All p) (hnew : new.All p)
    (h : setProperty op new span path object = .ok (changed, stored)) : changed.All p ∧ stored.All p := by
  have hread : ∀ {d fields name old}, (struct d fields).All p → field? name fields = some old → old.All p := by
    intro d fields name old hd hold
    obtain ⟨f, hf, rfl⟩ := mem_of_field? hold
    exact all_struct.1 hd f hf
  refine setProperty_keeps hread (fun hd _ hold hn => ?_) (fun hd _ hinner => ?_) hobject h
  · have hv := hp.all_newProperty (hread hd hold) hnew hn
    exact ⟨all_struct.2 (All.setField hv (all_struct.1 hd)), hv⟩
  · exact all_struct.2 (All.setField hinner (all_struct.1 hd))

end Closed

end BraceScript.Value
