import Mathlib.Data.List.Nodup
import BraceScript.Proofs.Steady
import BraceScript.Proofs.Typing

/-!
# Instances of structs

An instance is made of defaults with the fields of a struct literal put over them, and it is changed by assignments
through paths.  Its fields are kept in the order of their names.  `StructDecl.Shapes` says that they are those of an
instance of the struct: setting a field to a value of its type keeps this (`StructDecl.Shapes.setField`), so it holds
of every instance that comes about in the run of a program that was read from a text.
-/

namespace BraceScript

namespace Value

/-! ### The values in a value -/

mutual

/-- The value and all values in it. -/
def parts : Value → List Value
  | array items => array items :: itemParts items
  | struct d fields => struct d fields :: fieldParts fields
  | v => [v]

def itemParts : List Value → List Value
  | [] => []
  | v :: vs => v.parts ++ itemParts vs

def fieldParts : List (String × Value) → List Value
  | [] => []
  | (_, v) :: fields => v.parts ++ fieldParts fields

end

/-! ### Fields in order -/

/-- The fields are in the order of their names, and no name is used twice. -/
def Sorted (fields : List (String × Value)) : Prop := (fields.map Prod.fst).Pairwise (· < ·)

variable {name : String} {value v : Value} {fields : List (String × Value)} {f : String × Value}

theorem sorted_cons_iff : Sorted (f :: fields) ↔ (∀ g ∈ fields, f.1 < g.1) ∧ Sorted fields := by
  simp [Sorted, List.pairwise_cons]

theorem mem_of_field?_eq_some (h : field? name fields = some v) : (name, v) ∈ fields := by
  induction fields with
  | nil => cases h
  | cons g fields ih =>
    obtain ⟨n, w⟩ := g
    rw [field?] at h
    split at h
    · rename_i hname
      cases h
      simp [hname]
    · exact List.mem_cons_of_mem _ (ih h)

theorem mem_names_setField {n : String} :
    n ∈ (setField name value fields).map Prod.fst ↔ n = name ∨ n ∈ fields.map Prod.fst := by
  induction fields with
  | nil => simp [setField]
  | cons g fields ih =>
    obtain ⟨m, w⟩ := g
    rw [setField]
    split
    · rename_i hname
      simp [hname]
    · split
      · simp
      · rw [List.map_cons, List.mem_cons, ih, List.map_cons, List.mem_cons]
        exact or_left_comm

private theorem Sorted.setField (h : Sorted fields) : Sorted (setField name value fields) := by
  induction fields with
  | nil => simp [Value.setField, Sorted]
  | cons g fields ih =>
    obtain ⟨n, w⟩ := g
    obtain ⟨hlt, hsorted⟩ := sorted_cons_iff.1 h
    rw [Value.setField]
    split
    · rename_i hname
      rw [← hname]
      exact sorted_cons_iff.2 ⟨hlt, hsorted⟩
    · rename_i hname
      split
      · rename_i hbefore
        refine sorted_cons_iff.2 ⟨fun g hg => ?_, h⟩
        rcases List.mem_cons.1 hg with rfl | hg
        · exact hbefore
        · exact String.lt_trans hbefore (hlt g hg)
      · rename_i hbehind
        have hafter : n < name := by
          by_cases hn : n < name
          · exact hn
          · exact absurd (String.le_antisymm hbehind hn) hname
        refine sorted_cons_iff.2 ⟨fun g hg => ?_, ih hsorted⟩
        have hmem := mem_names_setField.1 (List.mem_map_of_mem hg)
        rcases hmem with heq | hmem
        · rw [heq]
          exact hafter
        · obtain ⟨g', hg', heq⟩ := List.mem_map.1 hmem
          rw [← heq]
          exact hlt g' hg'

/-- A field that is not the one that was set is as it was. -/
private theorem mem_setField_of_sorted (h : Sorted fields) (hf : f ∈ setField name value fields) :
    f = (name, value) ∨ f.1 ≠ name ∧ f ∈ fields := by
  induction fields with
  | nil => exact .inl (by simpa [setField] using hf)
  | cons g fields ih =>
    obtain ⟨n, w⟩ := g
    obtain ⟨hlt, hsorted⟩ := sorted_cons_iff.1 h
    have hne : ∀ {a b : String}, a < b → b ≠ a := by
      rintro a b hab rfl
      exact String.lt_irrefl _ hab
    rw [setField] at hf
    split at hf
    · rename_i hname
      rcases List.mem_cons.1 hf with rfl | hf
      · exact .inl rfl
      · exact .inr ⟨by rw [← hname]; exact hne (hlt f hf), List.mem_cons_of_mem _ hf⟩
    · rename_i hname
      split at hf
      · rename_i hbefore
        rcases List.mem_cons.1 hf with rfl | hf
        · exact .inl rfl
        · refine .inr ⟨?_, hf⟩
          rcases List.mem_cons.1 hf with rfl | hf
          · exact hname
          · exact hne (String.lt_trans hbefore (hlt f hf))
      · rcases List.mem_cons.1 hf with rfl | hf
        · exact .inr ⟨hname, List.mem_cons_self⟩
        · rcases ih hsorted hf with heq | ⟨hn, hmem⟩
          · exact .inl heq
          · exact .inr ⟨hn, List.mem_cons_of_mem _ hmem⟩

end Value

/-! ### The shape of an instance -/

namespace StructDecl

/-- The properties that every instance has a field for. -/
def stored (d : StructDecl) : List PropertyDecl := d.properties.filter (!·.isStatic)

/-- The fields are those of an instance: each property that is stored has one of them, with a value of its type, and
there are no others. -/
structure Describes (d : StructDecl) (fields : List (String × Value)) : Prop where
  names : (fields.map Prod.fst).Perm (d.stored.map (·.name.name))
  once : (fields.map Prod.fst).Nodup
  types : ∀ p ∈ d.stored, ∀ v, (p.name.name, v) ∈ fields → v.HasType p.type

/-- The same for fields that are in order, of a struct whose members have different names. -/
structure Shapes (d : StructDecl) (fields : List (String × Value)) : Prop where
  distinct : d.Distinct
  sorted : Value.Sorted fields
  names : ∀ name, name ∈ fields.map Prod.fst ↔ name ∈ d.stored.map (·.name.name)
  types : ∀ p ∈ d.stored, ∀ v, (p.name.name, v) ∈ fields → v.HasType p.type

variable {d : StructDecl} {p q : PropertyDecl} {name : String} {fields : List (String × Value)}

private theorem Distinct.nodup (h : d.Distinct) : (d.properties.map (·.name.name)).Nodup := (List.nodup_append.1 h).1

private theorem Distinct.eq_of_name (h : d.Distinct) (hp : p ∈ d.properties) (hq : q ∈ d.properties)
    (hname : p.name.name = q.name.name) : p = q := List.inj_on_of_nodup_map h.nodup hp hq hname

private theorem mem_stored : p ∈ d.stored ↔ p ∈ d.properties ∧ p.isStatic = false := by
  simp [stored]

theorem of_property? (h : d.property? name = some p) : p ∈ d.properties ∧ p.name.name = name := by
  refine ⟨List.mem_of_find?_eq_some h, ?_⟩
  simpa using List.find?_some h

private theorem Shapes.describes (h : d.Shapes fields) : d.Describes fields := by
  have honce : (fields.map Prod.fst).Nodup := by
    refine List.Pairwise.imp ?_ h.sorted
    rintro a b hab rfl
    exact String.lt_irrefl _ hab
  have hstored : (d.stored.map (·.name.name)).Nodup :=
    h.distinct.nodup.sublist (List.filter_sublist.map _)
  exact ⟨(List.perm_ext_iff_of_nodup honce hstored).2 h.names, honce, h.types⟩

/-- A field may be set to a value of its type. -/
theorem Shapes.setField (h : d.Shapes fields) {v : Value} (hname : name ∈ fields.map Prod.fst)
    (hv : ∀ p ∈ d.stored, p.name.name = name → v.HasType p.type) : d.Shapes (Value.setField name v fields) := by
  refine ⟨h.distinct, h.sorted.setField, fun n => ?_, fun p hp w hw => ?_⟩
  · rw [Value.mem_names_setField, ← h.names]
    constructor
    · rintro (rfl | hn)
      · exact hname
      · exact hn
    · exact .inr
  · rcases Value.mem_setField_of_sorted h.sorted hw with heq | ⟨-, hw⟩
    · obtain ⟨hn, rfl⟩ := Prod.mk.inj heq
      exact hv p hp hn
    · exact h.types p hp w hw

/-- The field of a property may be set to a value of the type of the property. -/
private theorem Shapes.setProperty (h : d.Shapes fields) {v : Value} (hp : d.property? name = some p)
    (hname : name ∈ fields.map Prod.fst) (hv : v.HasType p.type) : d.Shapes (Value.setField name v fields) := by
  obtain ⟨hmem, heq⟩ := of_property? hp
  refine h.setField hname fun q hq hqname => ?_
  obtain rfl : q = p := h.distinct.eq_of_name (mem_stored.1 hq).1 hmem (hqname.trans heq.symm)
  exact hv

/-- What the defaults of some properties add to fields. -/
theorem foldl_default (ps : List PropertyDecl) (hsorted : Value.Sorted fields) :
    let all := ps.foldl (fun fields q => if q.isStatic then fields
      else Value.setField q.name.name (.defaultFor q.type) fields) fields
    Value.Sorted all ∧
    (∀ n, n ∈ all.map Prod.fst ↔ n ∈ fields.map Prod.fst ∨ ∃ q ∈ ps, q.isStatic = false ∧ q.name.name = n) ∧
    ∀ f ∈ all, f ∈ fields ∨ ∃ q ∈ ps, q.isStatic = false ∧ f = (q.name.name, .defaultFor q.type) := by
  induction ps generalizing fields with
  | nil => simpa using hsorted
  | cons q ps ih =>
    rw [List.foldl_cons]
    cases hstatic : q.isStatic with
    | true =>
      obtain ⟨hs, hnames, hall⟩ := ih hsorted
      refine ⟨by simpa using hs, fun n => ?_, fun f hf => ?_⟩
      · simpa [hstatic] using hnames n
      · simpa [hstatic] using hall f (by simpa using hf)
    | false =>
      have hset : Value.Sorted (Value.setField q.name.name (.defaultFor q.type) fields) := hsorted.setField
      obtain ⟨hs, hnames, hall⟩ := ih hset
      refine ⟨by simpa using hs, fun n => ?_, fun f hf => ?_⟩
      · have hn := hnames n
        rw [Value.mem_names_setField] at hn
        simp only [Bool.false_eq_true, ↓reduceIte, List.mem_cons, exists_eq_or_imp, hstatic, true_and]
        rw [hn, eq_comm, or_assoc, or_left_comm]
      · rcases hall f (by simpa using hf) with hf | ⟨q', hq', hf⟩
        · rcases Value.mem_setField_of_sorted hsorted hf with rfl | ⟨-, hf⟩
          · exact .inr ⟨q, by simp, hstatic, rfl⟩
          · exact .inl hf
        · exact .inr ⟨q', by simp [hq'], hf⟩

private theorem shapes_defaultFields (h : d.Distinct) : d.Shapes (Eval.defaultFields d) := by
  have hnil : Value.Sorted [] := .nil
  obtain ⟨hsorted, hnames, hall⟩ := foldl_default d.properties hnil
  refine ⟨h, hsorted, fun n => ?_, fun p hp v hv => ?_⟩
  · refine (hnames n).trans ?_
    simp only [List.map_nil, List.not_mem_nil, false_or, List.mem_map, mem_stored, and_assoc]
  · rcases hall _ hv with hv | ⟨q, hq, -, heq⟩
    · cases hv
    · obtain ⟨hname, rfl⟩ := Prod.mk.inj heq
      obtain rfl : p = q := h.eq_of_name (mem_stored.1 hp).1 hq hname
      exact Value.hasType_defaultFor _

/-- A field of a struct literal may be set. -/
private theorem Shapes.take {f : String × Value} (h : d.Shapes fields) (hf : d.Takes f) :
    d.Shapes (Value.setField f.1 f.2 fields) := by
  obtain ⟨p, w, hp, hstatic, hconform⟩ := hf
  obtain ⟨hmem, hname⟩ := of_property? hp
  have hfield : f.1 ∈ fields.map Prod.fst :=
    (h.names f.1).2 (List.mem_map.2 ⟨p, mem_stored.2 ⟨hmem, hstatic⟩, hname⟩)
  exact h.setProperty hp hfield (Value.hasType_of_conform hconform)

end StructDecl

/-! ### Values with well-formed instances -/

namespace Value

mutual

/-- Every instance in the value has the shape that its struct gives it.  The structs that functions would declare
have members with different names, so that their instances will have one too. -/
def Formed : Value → Prop
  | array items => FormedItems items
  | struct d fields => d.Shapes fields ∧ FormedFields fields
  | function d _ => ∀ s, .struct s ∈ d.parts → s.Distinct
  | integer .. | float .. | boolean _ | string _ | character _ | null | void | builtin _ => True

def FormedItems : List Value → Prop
  | [] => True
  | v :: vs => v.Formed ∧ FormedItems vs

def FormedFields : List (String × Value) → Prop
  | [] => True
  | (_, v) :: fields => v.Formed ∧ FormedFields fields

end

private theorem formedItems_iff {items : List Value} : FormedItems items ↔ ∀ v ∈ items, v.Formed := by
  induction items with
  | nil => simp [FormedItems]
  | cons v items ih => simp [FormedItems, ih]

private theorem formedFields_iff {fields : List (String × Value)} :
    FormedFields fields ↔ ∀ f ∈ fields, f.2.Formed := by
  induction fields with
  | nil => simp [FormedFields]
  | cons f fields ih => simp [FormedFields, ih]

@[simp] private theorem formed_array {items : List Value} : (array items).Formed ↔ ∀ v ∈ items, v.Formed := by
  rw [Formed, formedItems_iff]

@[simp] private theorem formed_struct {d : StructDecl} {fields : List (String × Value)} :
    (struct d fields).Formed ↔ d.Shapes fields ∧ ∀ f ∈ fields, f.2.Formed := by
  rw [Formed, formedFields_iff]

mutual

/-- All instances in the value, at any depth, are described by their structs. -/
private theorem Formed.describes {d : StructDecl} {fields : List (String × Value)} :
    ∀ v : Value, v.Formed → struct d fields ∈ v.parts → d.Describes fields
  | array items, h, hmem => by
    rw [parts, List.mem_cons] at hmem
    rcases hmem with heq | hmem
    · cases heq
    · exact FormedItems.describes items h hmem
  | struct d' fields', h, hmem => by
    rw [parts, List.mem_cons] at hmem
    rcases hmem with heq | hmem
    · cases heq
      exact h.1.describes
    · exact FormedFields.describes fields' h.2 hmem
  | integer .., _, hmem | float .., _, hmem | boolean _, _, hmem | string _, _, hmem | character _, _, hmem
  | null, _, hmem | void, _, hmem | function .., _, hmem | builtin _, _, hmem => by
    simp [parts] at hmem

private theorem FormedItems.describes {d : StructDecl} {fields : List (String × Value)} :
    ∀ items : List Value, FormedItems items → struct d fields ∈ itemParts items → d.Describes fields
  | [], _, hmem => by cases hmem
  | v :: vs, h, hmem => by
    rw [itemParts, List.mem_append] at hmem
    rcases hmem with hmem | hmem
    · exact Formed.describes v h.1 hmem
    · exact FormedItems.describes vs h.2 hmem

private theorem FormedFields.describes {d : StructDecl} {fields : List (String × Value)} :
    ∀ all : List (String × Value), FormedFields all → struct d fields ∈ fieldParts all → d.Describes fields
  | [], _, hmem => by cases hmem
  | (_, v) :: rest, h, hmem => by
    rw [fieldParts, List.mem_append] at hmem
    rcases hmem with hmem | hmem
    · exact Formed.describes v h.1 hmem
    · exact FormedFields.describes rest h.2 hmem

end

/-- A value without parts that is no function. -/
def IsAtom : Value → Prop
  | integer .. | float .. | boolean _ | string _ | character _ | null | void | builtin _ => True
  | array _ | struct .. | function .. => False

variable {op : BinaryOp} {left right v w : Value}

private theorem IsAtom.formed (h : v.IsAtom) : v.Formed := by
  cases v with
  | array | struct | function => exact h.elim
  | _ => exact trivial

/-- A unary operator yields its operand or an atom. -/
private theorem unary_cases {op : UnaryOp} (h : unary op v = .ok w) : w = v ∨ w.IsAtom := by
  have hstep : ∀ {t : IntType} {signed : Bool} {n : Int}, stepped op t signed n = .ok w → w.IsAtom := by
    intro t signed n h
    unfold stepped at h
    split at h <;> cases h
    exact trivial
  cases op <;> cases v <;>
    first | exact .inr (hstep h) | (cases h; done) | (cases h; exact .inl rfl) | (cases h; exact .inr trivial)

theorem isAtom_arith {op : ArithOp} (h : arith op left right = .ok w) : w.IsAtom := by
  unfold arith at h
  split at h
  · unfold integerArith at h
    split at h
    · cases h
    · split at h <;> cases h
      exact trivial
  · split at h
    · rename_i hjoined
      cases h
      unfold joined? at hjoined
      split at hjoined
      · split at hjoined <;> cases hjoined
        exact trivial
      · split at hjoined <;> cases hjoined
        exact trivial
      · cases hjoined
    · unfold mixedArith at h
      split at h
      · unfold floatArith at h
        split at h <;> cases h
        exact trivial
      · cases h

/-- Atoms have the property, and so do exactly those arrays whose items have it.  It is then a property of the
instances and functions in a value. -/
structure Deep (p : Value → Prop) : Prop where
  atom : ∀ {v}, v.IsAtom → p v
  array : ∀ {items}, p (.array items) ↔ ∀ v ∈ items, p v

private theorem deep_formed : Deep Formed := ⟨IsAtom.formed, formed_array⟩

namespace Deep

variable {p : Value → Prop} (hp : Deep p)
include hp

theorem defaultFor (t : Ty) : p (defaultFor t) := by
  cases t with
  | array t => exact hp.array.2 (by simp)
  | _ => exact hp.atom trivial

theorem conform {t : Ty} (hv : p v) (h : conform t v = .ok w) : p w := by
  induction t generalizing v w with
  | null =>
    cases v <;> cases h <;> exact hv
  | array t ih =>
    obtain ⟨items, ws, rfl, rfl, hall⟩ := conform_array_eq_ok h
    rw [hp.array] at hv ⊢
    intro u hu
    obtain ⟨v, hmem, hconform⟩ := hall u hu
    exact ih (hv v hmem) hconform
  | integer t =>
    cases v with
    | integer n s =>
      rw [Value.conform] at h
      split at h
      · cases h
        exact hp.atom trivial
      · cases h
    | _ => cases h
  | _ => cases v <;> cases h <;> exact hp.atom trivial

theorem unary {op : UnaryOp} (hv : p v) (h : unary op v = .ok w) : p w := by
  rcases unary_cases h with rfl | hatom
  · exact hv
  · exact hp.atom hatom

theorem binary (h : binary op left right = .ok w) : p w := by
  have htest : ∀ {f : Bool → Bool} {r : Option Bool}, binary.test left right op f r = .ok w → p w := by
    intro f r h
    cases r <;> cases h
    exact hp.atom trivial
  cases op with
  | arith op => exact hp.atom (isAtom_arith h)
  | compare op =>
    simp only [Value.binary, comparison] at h
    split at h <;> cases h
    · exact hp.atom trivial
    · exact hp.atom trivial
  | equal => exact htest h
  | notEqual => exact htest h
  | and => cases h; exact hp.atom trivial
  | or => cases h; exact hp.atom trivial
  | range =>
    obtain ⟨a, s, b, t, -, -, -, rfl⟩ := range_eq_ok h
    refine hp.array.2 fun v hv => ?_
    obtain ⟨i, -, rfl⟩ := List.mem_map.1 hv
    exact hp.atom trivial

theorem newProperty {t : Ty} {op : Located AssignOp} {old new : Value} {span : Span} (hnew : p new)
    (h : newProperty t op old new span = .ok w) : p w ∧ w.HasType t := by
  rcases newProperty_cases t op old new span with ⟨combined, v, hc, hconform, hv⟩ | ⟨e, he, -⟩
  · obtain rfl : v = w := Except.ok.inj (hv.symm.trans h)
    have hcombined : p combined := by
      cases hop : op.value with
      | set =>
        rw [hop] at hc
        cases hc
        exact hnew
      | update f =>
        rw [hop] at hc
        exact hp.atom (isAtom_arith hc)
    exact ⟨hp.conform hcombined hconform, hasType_of_conform hconform⟩
  · rw [he] at h
    cases h

end Deep

/-! ### Struct literals and assignments to properties -/

private theorem Formed.setField {d : StructDecl} {fields : List (String × Value)} {name : String}
    (h : ∀ f ∈ fields, f.2.Formed) (hshape : d.Shapes (Value.setField name v fields)) (hv : v.Formed) :
    (struct d (Value.setField name v fields)).Formed := by
  refine formed_struct.2 ⟨hshape, fun f hf => ?_⟩
  rcases mem_setField hf with heq | hf
  · rwa [heq]
  · exact h f hf

private theorem formed_defaultFields {d : StructDecl} (h : d.Distinct) :
    (struct d (Eval.defaultFields d)).Formed := by
  have hnil : Sorted [] := .nil
  obtain ⟨-, -, hall⟩ := StructDecl.foldl_default d.properties hnil
  refine formed_struct.2 ⟨StructDecl.shapes_defaultFields h, fun f hf => ?_⟩
  rcases hall f hf with hf | ⟨q, -, -, rfl⟩
  · cases hf
  · exact deep_formed.defaultFor q.type

private theorem Formed.build {d : StructDecl} {fields values : List (String × Value)} (h : (struct d fields).Formed)
    (hvalues : ∀ f ∈ values, f.2.Formed ∧ d.Takes f) :
    (struct d (values.foldl (fun all (n, v) => Value.setField n v all) fields)).Formed := by
  induction values generalizing fields with
  | nil => exact h
  | cons f values ih =>
    obtain ⟨hv, htakes⟩ := hvalues f (by simp)
    obtain ⟨hshape, hfields⟩ := formed_struct.1 h
    exact ih (Formed.setField hfields (hshape.take htakes) hv) fun g hg => hvalues g (by simp [hg])

/-- Only the type `null` has instances. -/
private theorem HasType.eq_null {T : Ty} {d : StructDecl} {fields : List (String × Value)}
    (h : HasType T (struct d fields)) : T = .null := by
  cases T <;> first | rfl | exact h.elim

/-- The last property of a path gets a value of its type, and each instance on the way is put back where a property
of type `null` held it. -/
private theorem Formed.setProperty {op : Located AssignOp} {new object changed stored : Value} {span : Span}
    {path : List Ident} (hobject : object.Formed) (hnew : new.Formed)
    (h : setProperty op new span path object = .ok (changed, stored)) : changed.Formed ∧ stored.Formed := by
  have hname : ∀ {fields : List (String × Value)} {name : String} {old : Value}, field? name fields = some old →
      name ∈ fields.map Prod.fst := fun hold => List.mem_map_of_mem (mem_of_field?_eq_some hold)
  refine setProperty_keeps (fun hd hold => ?_) (fun hd hq hold hn => ?_) (fun hd hold hinner => ?_) hobject h
  · exact (formed_struct.1 hd).2 _ (mem_of_field?_eq_some hold)
  · obtain ⟨hshape, hfields⟩ := formed_struct.1 hd
    obtain ⟨hv, htype⟩ := deep_formed.newProperty hnew hn
    exact ⟨Formed.setField hfields (hshape.setProperty hq (hname hold) htype) hv, hv⟩
  · obtain ⟨hshape, hfields⟩ := formed_struct.1 hd
    refine Formed.setField hfields (hshape.setField (hname hold) fun q hq hqname => ?_) hinner
    rw [(hshape.types q hq _ (by rw [hqname]; exact mem_of_field?_eq_some hold)).eq_null]
    exact trivial

end Value

/-! ### Runs -/

namespace Contract

/-- Values whose instances are well formed, and programs in which the members of each struct have different names. -/
def formed : Contract := steady Value.Formed (fun _ => True) (fun st => ∀ d, st = .struct d → d.Distinct) []

private theorem valueLaws_formed : formed.ValueLaws where
  stable _ h := h
  ofLiteral := by
    intro now l _
    cases l <;> exact trivial
  builtinName _ := trivial
  character _ := trivial
  defaultFor t := Value.deep_formed.defaultFor t
  position _ := trivial
  array := Value.formed_array
  unary hv h := Value.deep_formed.unary hv h
  arith _ _ h := (Value.isAtom_arith h).formed
  binary _ _ h := Value.deep_formed.binary h
  plain h := h
  conform hv h := Value.deep_formed.conform hv h
  field h hv := (Value.formed_struct.1 h).2 _ (Value.mem_of_field?_eq_some hv)
  build hd hvalues := hd.build hvalues
  setProperty hobject hnew h := hobject.setProperty hnew h
  code h := ⟨fun _ _ _ => trivial, by rintro _ hmem d rfl; exact h d hmem⟩
  declared _ h := fun d hmem => h.stmts _ hmem d rfl

private theorem lawful_formed : formed.Lawful :=
  lawful_steady valueLaws_formed fun _ hd => Value.formed_defaultFields (hd _ rfl)

end Contract

/-- The default built-in functions yield no instances. -/
private theorem Registry.keeps_formed_default (now : Nat) :
    ∀ b ∈ (Registry.default now).entries, b.Keeps Value.Formed := by
  intro b hb args output v rest _ hcall
  rcases call_default hb hcall with rfl | ⟨n, -, rfl⟩
  · exact trivial
  · exact trivial

/-- The sessions in which texts have been run one after the other, with built-in functions that are `ok`. -/
inductive Session.Sourced (ok : Builtin → Prop) : Session → Prop
  | fresh {builtins : Registry} (maxDepth : Nat) (output : Output) (h : ∀ b ∈ builtins.entries, ok b) :
    Sourced ok (.fresh builtins maxDepth output)
  | run {s t : Session} {source file : String} {p : Parsed} (fuel : Nat) : Sourced ok s →
    Program.parse source file = .ok p → (p.program.run fuel s).session? = some t → Sourced ok t

private theorem Session.Sourced.reachable {ok : Builtin → Prop} {s : Session} (h : s.Sourced ok) : s.Reachable := by
  induction h with
  | fresh maxDepth output _ => exact .fresh _ maxDepth output
  | run fuel _ _ ht ih => exact .run _ fuel ih ht

private theorem Program.run_formed {s : Session} (hs : s.Sound) (hinv : Contract.formed.inv s) {source file : String}
    {p : Parsed} (h : parse source file = .ok p) (fuel : Nat) :
    (p.program.run fuel s).Obeys Contract.formed s (fun v => [v]) fun _ => True := by
  refine Contract.lawful_formed.run p.program (fun _ _ _ => trivial) fuel hs hinv ?_
  rintro _ hmem d rfl
  exact distinct_of_parse h hmem

private theorem Session.Sourced.formed {s : Session} (h : s.Sourced (Builtin.Keeps Value.Formed)) :
    Contract.formed.inv s := by
  induction h with
  | fresh maxDepth output h => exact .fresh h maxDepth output
  | @run s t source file p fuel hs hparse ht ih =>
    have hinv := (Program.run_formed hs.reachable.sound ih hparse fuel).inv fun _ _ h => h
    cases hrun : p.program.run fuel s with
    | done v u =>
      rw [hrun] at ht hinv
      cases ht
      exact hinv
    | failed e u =>
      rw [hrun] at ht hinv
      cases ht
      exact hinv
    | exhausted u =>
      rw [hrun] at ht
      cases ht

/-- All instances in the value are described by their structs. -/
def Value.WellFormed (v : Value) : Prop := ∀ d fields, .struct d fields ∈ v.parts → d.Describes fields

/-- A text is run in a session in which any texts have been run before, with built-in functions that yield values
with well-formed instances if their arguments are such values.  Then every instance is well formed that is or has
ever been in a variable, in what an expression was evaluated to or in the result. -/
theorem Program.run_forms_instances {s : Session} (hs : s.Sourced (Builtin.Keeps Value.Formed))
    {source file : String} {p : Parsed} (h : parse source file = .ok p) (fuel : Nat) :
    (∀ scopes depth owner name b, .state scopes depth ∈ (p.program.run fuel s).session.events →
      scopes.Binds owner name b → b.value.WellFormed) ∧
    (∀ e v, .value e v ∈ (p.program.run fuel s).session.events → v.WellFormed) ∧
    ∀ v t, p.program.run fuel s = .done v t → v.WellFormed := by
  have hrun := Program.run_formed hs.reachable.sound hs.formed h fuel
  obtain ⟨-, -, new, hnew, hstates, hvalues⟩ := hrun.inv fun _ _ h => h
  rw [List.append_nil] at hnew
  rw [hnew]
  refine ⟨?_, ?_, ?_⟩
  · intro scopes depth owner name b hmem hb d fields hpart
    exact Value.Formed.describes _ ((hstates scopes depth hmem).bound owner name b hb) hpart
  · intro e v hmem d fields hpart
    exact Value.Formed.describes v (hvalues e v hmem) hpart
  · intro v t hdone d fields hpart
    rw [hdone] at hrun
    exact Value.Formed.describes v (hrun.2.2.1 v (by simp)) hpart

private def nestedPoints : String :=
  "struct P \x7b pub x: u8; pub static n: i8; pub q: null; \x7d " ++
    "let p := P \x7b q: P \x7b x: 7 \x7d \x7d; p.q.x += 3; p;"

/-- What an instance that a text yields is printed as. -/
private def printedInstance (source : String) : Option String :=
  match Program.parse source "m" with
  | .ok p =>
    match p.program.run 30 (.fresh (.default 0) 1 .empty) with
    | .done (.struct d fields) _ => some (Value.struct d fields).text
    | _ => none
  | .error _ => none

/-- An instance in an instance, after an assignment through both. -/
theorem Program.run_forms_instances_nested :
    ∃ p d fields t, parse nestedPoints "m" = .ok p ∧
      p.program.run 30 (.fresh (.default 0) 1 .empty) = .done (.struct d fields) t ∧
      (Value.struct d fields).text = "P \x7b q: P \x7b q: null, x: 10 \x7d, x: 0 \x7d" ∧ d.Describes fields := by
  have htext :
      printedInstance nestedPoints = some "P \x7b q: P \x7b q: null, x: 10 \x7d, x: 0 \x7d" := by decide +kernel
  unfold printedInstance at htext
  split at htext
  · rename_i p hparse
    split at htext
    · rename_i d fields t hrun
      have hs : Session.Sourced (Builtin.Keeps Value.Formed) (.fresh (.default 0) 1 .empty) :=
        .fresh 1 .empty (Registry.keeps_formed_default 0)
      have hformed := (Program.run_forms_instances hs hparse 30).2.2 _ t hrun
      refine ⟨p, d, fields, t, hparse, hrun, Option.some.inj htext, hformed d fields ?_⟩
      rw [Value.parts]
      exact List.mem_cons_self
    · cases htext
  · cases htext

end BraceScript
