import BraceScript.Proofs.Instances

/-!
# Paths of properties

A path of names leads into an instance, from there into an instance that it holds, and so on.  `Value.follow?` reads
along a path, and `Value.DiffersAt` says that two values are the same but for what stands at its end.  An assignment
through a path changes nothing else, and what it stores is read there afterwards (`Value.differsAt_of_setProperty`).
A property at the end of the path is not assigned if it is readonly; readonly properties on the way are not looked
at, so that the path goes on through them, and these are the only ones that can change
(`Value.setProperty_keeps_readonly`).
-/

namespace BraceScript

/-- The property called `name` is declared readonly. -/
def StructDecl.Readonly (d : StructDecl) (name : String) : Prop :=
  ∃ p, d.property? name = some p ∧ p.isReadonly = true

namespace Value

/-- The value at the end of a path of properties. -/
def follow? : List String → Value → Option Value
  | [], v => some v
  | name :: rest, struct _ fields =>
    match field? name fields with
    | some v => follow? rest v
    | none => none
  | _ :: _, _ => none

/-- Along the path, `v` and `w` are instances of the same structs.  Apart from those on the path, their fields are
the same, and so is the order of the fields. -/
inductive DiffersAt : List String → Value → Value → Prop
  | here (v w : Value) : DiffersAt [] v w
  | inside {name : String} {rest : List String} {d : StructDecl}
      {fields fields' : List (String × Value)} {v w : Value}
      (before : field? name fields = some v) (after : field? name fields' = some w)
      (others : ∀ n, n ≠ name → field? n fields' = field? n fields)
      (order : Sorted fields → fields'.map Prod.fst = fields.map Prod.fst) (inner : DiffersAt rest v w) :
      DiffersAt (name :: rest) (struct d fields) (struct d fields')

/-! ### Setting a field -/

variable {name : String} {fields : List (String × Value)} {v w : Value}

private theorem field?_setField (n : String) :
    field? n (setField name v fields) = if n = name then some v else field? n fields := by
  induction fields with
  | nil => simp [setField, field?, eq_comm]
  | cons f fields ih =>
    obtain ⟨m, w⟩ := f
    rw [setField]
    split
    · rename_i hname
      by_cases hn : n = name
      · simp [field?, hn]
      · simp [field?, hn, Ne.symm hn, hname]
    · rename_i hname
      split
      · by_cases hn : n = name
        · simp [field?, hn]
        · simp [field?, hn, Ne.symm hn]
      · by_cases hm : m = n
        · have hn : n ≠ name := fun hn => hname (hm.trans hn)
          simp [field?, hm, hn]
        · rw [field?, if_neg hm, ih, field?, if_neg hm]

/-- A field that is there is set where it stands. -/
private theorem names_setField_of_sorted (h : Sorted fields) (hfield : field? name fields = some v) :
    (setField name w fields).map Prod.fst = fields.map Prod.fst := by
  induction fields with
  | nil => cases hfield
  | cons f fields ih =>
    obtain ⟨m, u⟩ := f
    obtain ⟨hlt, hsorted⟩ := sorted_cons_iff.1 h
    rw [setField]
    split
    · rename_i hname
      simp [hname]
    · rename_i hname
      rw [field?, if_neg hname] at hfield
      have hbehind : m < name := hlt _ (mem_of_field?_eq_some hfield)
      rw [if_neg (String.lt_asymm hbehind), List.map_cons, List.map_cons, ih hsorted hfield]

/-! ### Following a path -/

theorem follow?_cons {d : StructDecl} (h : field? name fields = some v) (rest : List String) :
    (struct d fields).follow? (name :: rest) = v.follow? rest := by
  simp only [follow?, h]

theorem follow?_append (path rest : List String) :
    v.follow? (path ++ rest) = (v.follow? path).bind (follow? rest) := by
  induction path generalizing v with
  | nil => rfl
  | cons name path ih =>
    cases v with
    | struct d fields =>
      cases hfield : field? name fields with
      | none => simp only [List.cons_append, follow?, hfield, Option.bind_none]
      | some u => rw [List.cons_append, follow?_cons hfield, follow?_cons hfield, ih]
    | _ => rfl

private theorem follow?_singleton (d : StructDecl) (name : String) (fields : List (String × Value)) :
    (struct d fields).follow? [name] = field? name fields := by
  rw [follow?]
  cases field? name fields <;> rfl

theorem readProperty_of_follow? {name : Ident} (h : v.follow? [name.name] = some w) :
    v.readProperty name = .ok w := by
  cases v with
  | struct d fields =>
    rw [follow?_singleton] at h
    simp only [readProperty, h]
  | _ => cases h

theorem readProperty_of_follow?_none {name : Ident} (h : v.follow? [name.name] = none) :
    ∃ e, v.readProperty name = .error e := by
  cases v with
  | struct d fields =>
    rw [follow?_singleton] at h
    exact ⟨_, by simp only [readProperty, h]; rfl⟩
  | _ => exact ⟨_, rfl⟩

/-! ### Assigning through a path -/

variable {op : Located AssignOp} {new object changed stored : Value} {span : Span} {path : List Ident}

theorem not_setProperty_nil : setProperty op new span [] object ≠ .ok (changed, stored) := by
  intro h
  obtain ⟨_, _, _, _, _, _, _, hpath, -⟩ := setProperty_eq_ok h
  cases hpath

/-- An assignment through a path touches nothing but what stands at its end.  By induction on the path. -/
theorem differsAt_of_setProperty (h : setProperty op new span path object = .ok (changed, stored)) :
    object.DiffersAt (path.map (·.name)) changed ∧ changed.follow? (path.map (·.name)) = some stored := by
  induction path generalizing object changed with
  | nil => exact absurd h not_setProperty_nil
  | cons name rest ih =>
    obtain ⟨_, _, d, fields, q, old, inner, ⟨⟩, rfl, -, hold, rfl, hset⟩ := setProperty_eq_ok h
    have hinner : old.DiffersAt (rest.map (·.name)) inner ∧ inner.follow? (rest.map (·.name)) = some stored := by
      rcases hset with ⟨rfl, -, -, rfl⟩ | hset
      · exact ⟨.here _ _, rfl⟩
      · exact ih hset
    have hset : field? name.name (setField name.name inner fields) = some inner := by
      rw [field?_setField, if_pos rfl]
    refine ⟨.inside hold hset (fun n hn => ?_) (fun hsorted => ?_) hinner.1, ?_⟩
    · rw [field?_setField, if_neg hn]
    · exact names_setField_of_sorted hsorted hold
    · rw [List.map_cons, follow?_cons hset, hinner.2]

/-- A readonly property of an instance that a path leads through changes by an assignment only if the path goes on
through it: the readonly properties beside the path, and one at its end, are what they were. -/
theorem setProperty_keeps_readonly (h : setProperty op new span path object = .ok (changed, stored))
    {before after : List String} {name : String} (hpath : path.map (·.name) = before ++ name :: after) :
    ∃ d fields fields', object.follow? before = some (struct d fields) ∧
    changed.follow? before = some (struct d fields') ∧
      ∀ n, d.Readonly n → (n = name → after = []) → field? n fields' = field? n fields := by
  induction path generalizing object changed before with
  | nil => exact absurd h not_setProperty_nil
  | cons first rest ih =>
    obtain ⟨_, _, d, fields, q, old, inner, ⟨⟩, rfl, hq, hold, rfl, hset⟩ := setProperty_eq_ok h
    cases before with
    | nil =>
      obtain ⟨rfl, hafter⟩ := List.cons.inj hpath
      refine ⟨d, fields, setField first.name inner fields, rfl, rfl, fun n hreadonly hlast => ?_⟩
      rw [field?_setField]
      split
      · -- the path ends with a readonly property, but then it is not assigned
        rename_i hn
        obtain rfl : rest = [] := List.map_eq_nil_iff.1 (hafter.trans (hlast hn))
        rcases hset with ⟨-, hwritable, -⟩ | hset
        · obtain ⟨q', hq', hprotected⟩ := hreadonly
          rw [hn, hq, Option.some.injEq] at hq'
          rw [← hq', hwritable] at hprotected
          cases hprotected
        · exact absurd hset not_setProperty_nil
      · rfl
    | cons step before =>
      obtain ⟨rfl, hrest⟩ := List.cons.inj hpath
      rcases hset with ⟨rfl, -⟩ | hset
      · simp at hrest
      · obtain ⟨e, inside, inside', hobject, hchanged, hkept⟩ := ih hset hrest
        refine ⟨e, inside, inside', ?_, ?_, hkept⟩
        · rw [follow?_cons hold, hobject]
        · rw [follow?_cons (by rw [field?_setField, if_pos rfl]), hchanged]

/-- An instance of `struct Account { pub readonly owner: str; pub readonly amount: null; }`, which holds an instance
of `struct Amount { pub readonly unit: str; pub count: i8; }`. -/
private def account : Value :=
  let unit : PropertyDecl := ⟨⟨"unit", default⟩, .isPublic, false, true, .string⟩
  let count : PropertyDecl := ⟨⟨"count", default⟩, .isPublic, false, false, .integer ⟨.w8, true⟩⟩
  let owner : PropertyDecl := ⟨⟨"owner", default⟩, .isPublic, false, true, .string⟩
  let amount : PropertyDecl := ⟨⟨"amount", default⟩, .isPublic, false, true, .null⟩
  struct ⟨⟨"Account", default⟩, [owner, amount], [], default⟩
    [("amount", struct ⟨⟨"Amount", default⟩, [unit, count], [], default⟩
      [("count", integer 1 ⟨.w8, true⟩), ("unit", string "g")]), ("owner", string "A")]

private def amountCount : List Ident := [⟨"amount", default⟩, ⟨"count", default⟩]

/-- `account.amount.count += 5` leaves the readonly properties beside the path alone. -/
theorem setProperty_keeps_readonly_account :
    ∃ changed stored, setProperty ⟨.update .add, default⟩ (integer 5 ⟨.w8, true⟩) default amountCount account =
        .ok (changed, stored) ∧
      changed.follow? ["owner"] = account.follow? ["owner"] ∧
      changed.follow? ["amount", "unit"] = account.follow? ["amount", "unit"] := by
  obtain ⟨changed, stored, hset⟩ : ∃ changed stored,
      setProperty ⟨.update .add, default⟩ (integer 5 ⟨.w8, true⟩) default amountCount account =
      .ok (changed, stored) :=
    ⟨_, _, rfl⟩
  have hfirst : amountCount.map (·.name) = [] ++ "amount" :: ["count"] := rfl
  have hlast : amountCount.map (·.name) = ["amount"] ++ "count" :: [] := rfl
  obtain ⟨d, fields, fields', hbefore, hafter, houter⟩ := setProperty_keeps_readonly hset hfirst
  obtain ⟨e, inside, inside', hinner, hinner', hkept⟩ := setProperty_keeps_readonly hset hlast
  refine ⟨changed, stored, hset, ?_, ?_⟩
  · cases hbefore
    rw [Option.some.inj hafter, follow?_singleton]
    exact houter "owner" ⟨_, rfl, rfl⟩ (by simp)
  · have hsplit : ["amount", "unit"] = ["amount"] ++ ["unit"] := rfl
    rw [hsplit, follow?_append, follow?_append, hinner', hinner, Option.bind_some, Option.bind_some,
      follow?_singleton,
      follow?_singleton]
    cases hinner
    exact hkept "unit" ⟨_, rfl, rfl⟩ (by simp)

-- the readonly property `amount` is on the way, and what is in it changes
example : (setProperty ⟨.update .add, default⟩ (integer 5 ⟨.w8, true⟩) default amountCount account).map
    (·.1.follow? ["amount", "count"]) = .ok (some (integer 6 ⟨.w8, true⟩)) := rfl

end Value

end BraceScript
