import Mathlib.Data.List.Forall2
import BraceScript.Proofs.Escape
import BraceScript.Proofs.Relabelling

/-!
# Scopes side by side

Two runs of the same code keep their scopes in different slots if one of them has a scope more than the other.
`Scopes.Parallel` compares the scopes of two such runs: they bind the same names to the same values, but the second
may have one scope more, at the index `gap`, in which nothing is declared.  A handle of the first run goes with one
of the second if both are alive and at corresponding places, or if both have been alive and are no longer
(`Scopes.joins_pairing_iff`); functions are the same if their scopes go together.  Entering and leaving scopes on
both sides, or the additional one on the second, never separates handles that go together, as long as no generation
wraps around (`Pairing.Extends`).
-/

namespace BraceScript

/-! ### Handles over time -/

namespace Scopes

variable {s t : Scopes} {c : ScopeId}

/-- The slot of the handle has come to its generation or beyond. -/
def knows (s : Scopes) (c : ScopeId) : Bool := (s.generation? c.index).any fun g => c.generation.toNat ≤ g.toNat

theorem knows_iff : s.knows c = true ↔ ∃ g, s.generation? c.index = some g ∧ c.generation.toNat ≤ g.toNat := by
  simp [knows, Option.any_eq_true]

theorem knows_of_isAlive (h : s.isAlive c = true) : s.knows c = true :=
  knows_iff.2 ⟨_, (isAlive_iff_generation.1 h).2, Nat.le_refl _⟩

private theorem isAlive_of_le (h : s.live ≤ c.index) : s.isAlive c = false := by
  rw [Bool.eq_false_iff]
  intro halive
  have hlt := (isAlive_iff.1 halive).1
  omega

theorem eq_of_isAlive {c c' : ScopeId} (h : s.isAlive c = true) (h' : s.isAlive c' = true)
    (hindex : c'.index = c.index) : c' = c := by
  obtain ⟨a, hget⟩ := Option.isSome_iff_exists.1 h
  obtain ⟨a', hget'⟩ := Option.isSome_iff_exists.1 h'
  exact eq_of_index hget' hget hindex

theorem SameOutline.symm (h : s.SameOutline t) : t.SameOutline s :=
  ⟨h.live.symm, fun i hi => (h.slot i (by rw [← h.live]; exact hi)).symm⟩

theorem SameOutline.isAlive_eq (h : s.SameOutline t) (c : ScopeId) : t.isAlive c = s.isAlive c := by
  rw [Bool.eq_iff_iff]
  exact ⟨h.symm.isAlive, h.isAlive⟩

/-- What becomes of handles from `s` to `t`: one whose scope is gone stays so, and one that is alive is alive as long
as there are scopes up to its index. -/
private structure Ages (s t : Scopes) : Prop where
  known : ∀ c, s.knows c = true → t.knows c = true
  alive : ∀ c, s.isAlive c = true → c.index < t.live → t.isAlive c = true
  gone : ∀ c, s.knows c = true → s.isAlive c = false → t.isAlive c = false

private theorem Ages.refl (s : Scopes) : s.Ages s := ⟨fun _ h => h, fun _ h _ => h, fun _ _ h => h⟩

private theorem isAlive_modify (id : ScopeId) (f : Scope → Scope) : (s.modify id f).isAlive c = s.isAlive c := by
  unfold isAlive
  rw [get?_modify]
  split
  · rw [Option.isSome_map]
  · rfl

private theorem knows_modify (id : ScopeId) (f : Scope → Scope) : (s.modify id f).knows c = s.knows c := by
  unfold knows
  rw [generation?_modify]

/-- The next tenant of the first free slot does not wrap around to an old generation. -/
def HasNext (s : Scopes) : Prop := ∀ g, s.generation? s.live = some g → g.toNat + 1 < 4294967296

private theorem ages_push (parent : ScopeId) (hs : s.Nested) (hnext : s.HasNext) : s.Ages (s.push parent).1 := by
  have hself := generation?_push_self parent hs.stored
  have hlater : ∀ g, s.generation? s.live = some g → (g + 1).toNat = g.toNat + 1 := by
    intro g hg
    rw [UInt32.toNat_add]
    exact Nat.mod_eq_of_lt (hnext g hg)
  refine ⟨fun c hc => ?_, fun c hc _ => isAlive_push_of_isAlive hs.stored hc, fun c hc hdead => ?_⟩
  · obtain ⟨g, hg, hle⟩ := knows_iff.1 hc
    by_cases hindex : c.index = s.live
    · rw [hindex] at hg
      refine knows_iff.2 ⟨g + 1, ?_, ?_⟩
      · rw [hindex, hself, hg]
        rfl
      · rw [hlater g hg]
        omega
    · exact knows_iff.2 ⟨g, by rw [generation?_push_of_ne parent hindex hs.stored, hg], hle⟩
  · obtain ⟨g, hg, hle⟩ := knows_iff.1 hc
    rw [Bool.eq_false_iff] at hdead ⊢
    intro halive
    obtain ⟨hlt, hgeneration⟩ := isAlive_iff_generation.1 halive
    by_cases hindex : c.index = s.live
    · -- the new scope is of a later generation
      rw [hindex] at hg
      rw [hindex, hself, hg, Option.some.injEq] at hgeneration
      have hlarger := hlater g hg
      rw [show g + 1 = c.generation from hgeneration] at hlarger
      omega
    · rw [generation?_push_of_ne parent hindex hs.stored] at hgeneration
      rw [push_live] at hlt
      exact hdead (isAlive_iff_generation.2 ⟨by omega, hgeneration⟩)

private theorem ages_dropLast (s : Scopes) : s.Ages s.dropLast := by
  refine ⟨fun c hc => ?_, fun c hc hlt => ?_, fun c _ hdead => ?_⟩
  · unfold knows at hc ⊢
    rwa [generation?_dropLast]
  · rw [dropLast_live] at hlt
    exact isAlive_dropLast hc (by omega)
  · rw [Bool.eq_false_iff] at hdead ⊢
    intro halive
    obtain ⟨hlt, hgeneration⟩ := isAlive_iff_generation.1 halive
    rw [generation?_dropLast] at hgeneration
    rw [dropLast_live] at hlt
    exact hdead (isAlive_iff_generation.2 ⟨by omega, hgeneration⟩)

end Scopes

/-! ### Values side by side -/

/-- What the handles of two runs stand for. -/
structure Pairing where
  left : ScopeId → ScopeId
  right : ScopeId → ScopeId

namespace Pairing

variable {π ρ σ : Pairing} {v v' : Value}

/-- Both handles stand for the same. -/
def Joins (π : Pairing) (c c' : ScopeId) : Prop := π.left c = π.right c'

/-- Handles that go together in `π` do so in `ρ`. -/
def Extends (π ρ : Pairing) : Prop := ∀ c c', π.Joins c c' → ρ.Joins c c'

theorem Extends.refl (π : Pairing) : π.Extends π := fun _ _ h => h

theorem Extends.trans (h : π.Extends ρ) (h' : ρ.Extends σ) : π.Extends σ := fun c c' hc => h' c c' (h c c' hc)

/-- The values are the same but for the scopes of functions, and these stand for the same. -/
def Matches (π : Pairing) (v v' : Value) : Prop := v.relabel (.ofScopes π.left) = v'.relabel (.ofScopes π.right)

theorem matches_function {d : FunctionDecl} {c : ScopeId} :
    π.Matches (.function d c) v' ↔ ∃ c', v' = .function d c' ∧ π.Joins c c' := by
  constructor
  · intro h
    cases v' with
    | function e c' =>
      obtain ⟨rfl, hc⟩ := Value.function.inj h
      exact ⟨c', rfl, hc⟩
    | _ => cases h
  · rintro ⟨c', rfl, hc⟩
    exact congrArg (Value.function d) hc

theorem matches_array {vs : List Value} :
    π.Matches (.array vs) v' ↔ ∃ vs', v' = .array vs' ∧ List.Forall₂ π.Matches vs vs' := by
  have hitems : ∀ vs' : List Value, π.Matches (.array vs) (.array vs') ↔ List.Forall₂ π.Matches vs vs' := by
    intro vs'
    unfold Matches
    rw [Value.relabel_array, Value.relabel_array, Value.array.injEq, ← List.forall₂_eq_eq_eq,
      List.forall₂_map_left_iff,
      List.forall₂_map_right_iff]
  constructor
  · intro h
    cases v' with
    | array vs' => exact ⟨vs', rfl, (hitems vs').1 h⟩
    | _ => cases h
  · rintro ⟨vs', rfl, hvs⟩
    exact (hitems vs').2 hvs

/-- The fields have the same name and the same value. -/
def MatchesField (π : Pairing) (f f' : String × Value) : Prop := f.1 = f'.1 ∧ π.Matches f.2 f'.2

theorem matchesFields_iff {fs fs' : List (String × Value)} : List.Forall₂ π.MatchesField fs fs' ↔
    fs.map (Value.relabelField (.ofScopes π.left)) = fs'.map (Value.relabelField (.ofScopes π.right)) := by
  have hfield : (fun f f' => Value.relabelField (.ofScopes π.left) f = Value.relabelField (.ofScopes π.right) f') =
      π.MatchesField := by
    funext f f'
    exact Prod.mk.injEq _ _ _ _
  rw [← List.forall₂_eq_eq_eq, List.forall₂_map_left_iff, List.forall₂_map_right_iff, hfield]

theorem matches_struct {d : StructDecl} {fs : List (String × Value)} :
    π.Matches (.struct d fs) v' ↔ ∃ fs', v' = .struct d fs' ∧ List.Forall₂ π.MatchesField fs fs' := by
  have hfields : ∀ (e : StructDecl) (fs' : List (String × Value)), π.Matches (.struct d fs) (.struct e fs') ↔
      d = e ∧ List.Forall₂ π.MatchesField fs fs' := by
    intro e fs'
    unfold Matches
    rw [Value.relabel_struct, Value.relabel_struct, Value.struct.injEq, matchesFields_iff]
    exact .rfl
  constructor
  · intro h
    cases v' with
    | struct e fs' =>
      obtain ⟨rfl, hfs⟩ := (hfields e fs').1 h
      exact ⟨fs', rfl, hfs⟩
    | _ => cases h
  · rintro ⟨fs', rfl, hfs⟩
    exact (hfields d fs').2 ⟨rfl, hfs⟩

/-- A value without labels stands for itself. -/
theorem Matches.eq_of_isFlat (h : π.Matches v v') (hv : v.isFlat = true) : v' = v := by
  have hflat : v'.isFlat = true := by rw [← Value.isFlat_relabel, ← h, Value.isFlat_relabel, hv]
  rw [Matches, Value.relabel_of_isFlat hv, Value.relabel_of_isFlat hflat] at h
  exact h.symm

theorem matches_of_isFlat (hv : v.isFlat = true) : π.Matches v v := by
  rw [Matches, Value.relabel_of_isFlat hv, Value.relabel_of_isFlat hv]

/-- Values that match are of the same kind. -/
theorem Matches.cases (h : π.Matches v v') : (v.isFlat = true ∧ v' = v) ∨
    (∃ d c c', v = .function d c ∧ v' = .function d c' ∧ π.Joins c c') ∨
    (∃ vs vs', v = .array vs ∧ v' = .array vs' ∧ List.Forall₂ π.Matches vs vs') ∨
    ∃ d fs fs', v = .struct d fs ∧ v' = .struct d fs' ∧ List.Forall₂ π.MatchesField fs fs' := by
  cases v with
  | function d c =>
    obtain ⟨c', rfl, hc⟩ := matches_function.1 h
    exact .inr (.inl ⟨d, c, c', rfl, rfl, hc⟩)
  | array vs =>
    obtain ⟨vs', rfl, hvs⟩ := matches_array.1 h
    exact .inr (.inr (.inl ⟨vs, vs', rfl, rfl, hvs⟩))
  | struct d fs =>
    obtain ⟨fs', rfl, hfs⟩ := matches_struct.1 h
    exact .inr (.inr (.inr ⟨d, fs, fs', rfl, rfl, hfs⟩))
  | _ => exact .inl ⟨rfl, h.eq_of_isFlat rfl⟩

/-- By induction on the first value. -/
theorem Extends.matches (h : π.Extends ρ) : ∀ {v v' : Value}, π.Matches v v' → ρ.Matches v v'
  | .function d c, v', hv => by
    obtain ⟨c', rfl, hc⟩ := matches_function.1 hv
    exact matches_function.2 ⟨c', rfl, h c c' hc⟩
  | .array vs, v', hv => by
    obtain ⟨vs', rfl, hvs⟩ := matches_array.1 hv
    exact matches_array.2 ⟨vs', rfl, items vs hvs⟩
  | .struct d fs, v', hv => by
    obtain ⟨fs', rfl, hfs⟩ := matches_struct.1 hv
    exact matches_struct.2 ⟨fs', rfl, fields fs hfs⟩
  | .integer _ _, v', hv | .float _ _, v', hv | .boolean _, v', hv | .string _, v', hv | .character _, v', hv
  | .null, v', hv | .void, v', hv | .builtin _, v', hv => by
    rw [hv.eq_of_isFlat rfl]
    exact matches_of_isFlat rfl
where
  items : ∀ (vs : List Value) {vs' : List Value}, List.Forall₂ π.Matches vs vs' → List.Forall₂ ρ.Matches vs vs'
    | [], _, .nil => .nil
    | _ :: vs, _, .cons hv hvs => .cons (h.matches hv) (items vs hvs)
  fields : ∀ (fs : List (String × Value)) {fs' : List (String × Value)},
      List.Forall₂ π.MatchesField fs fs' → List.Forall₂ ρ.MatchesField fs fs'
    | [], _, .nil => .nil
    | (_, _) :: fs, _, .cons hf hfs => .cons ⟨hf.1, h.matches hf.2⟩ (fields fs hfs)

/-- A value whose functions have scopes that stand for the same on both sides. -/
private theorem matches_self : ∀ {v : Value}, v.All (Value.IsKnown fun _ c => π.Joins c c) → π.Matches v v
  | .function _ _, hv => matches_function.2 ⟨_, rfl, hv⟩
  | .array vs, hv => matches_array.2 ⟨vs, rfl, items vs hv⟩
  | .struct _ fs, hv => matches_struct.2 ⟨fs, rfl, fields fs hv⟩
  | .integer _ _, _ | .float _ _, _ | .boolean _, _ | .string _, _ | .character _, _ | .null, _ | .void, _
  | .builtin _, _ => matches_of_isFlat rfl
where
  items : ∀ vs : List Value, Value.AllItems (Value.IsKnown fun _ c => π.Joins c c) vs → List.Forall₂ π.Matches vs vs
    | [], _ => .nil
    | _ :: vs, hvs => .cons (matches_self hvs.1) (items vs hvs.2)
  fields : ∀ fs : List (String × Value), Value.AllFields (Value.IsKnown fun _ c => π.Joins c c) fs →
      List.Forall₂ π.MatchesField fs fs
    | [], _ => .nil
    | (_, _) :: fs, hfs => .cons ⟨rfl, matches_self hfs.1⟩ (fields fs hfs.2)

end Pairing

/-- Both are constants or both are not, and their values match. -/
def Binding.Matches (π : Pairing) (b b' : Binding) : Prop :=
  b'.isConstant = b.isConstant ∧ π.Matches b.value b'.value

/-- The scopes declare the same, and a name that is not found in them is looked up in scopes that `sees` relates. -/
structure Scope.Matches (π : Pairing) (sees : ScopeId → ScopeId → Prop) (a a' : Scope) : Prop where
  binding : ∀ name, Option.Rel (Binding.Matches π) (a.binding? name) (a'.binding? name)
  structs : a'.structs = a.structs
  parent : Option.Rel sees a.parent a'.parent

private theorem rel_imp {α β : Type} {R R' : α → β → Prop} {a : Option α} {b : Option β} (h : Option.Rel R a b)
    (himp : ∀ x y, a = some x → b = some y → R x y → R' x y) : Option.Rel R' a b := by
  cases h with
  | some h => exact .some (himp _ _ rfl rfl h)
  | none => exact .none

theorem Scope.Matches.mono {π ρ : Pairing} {sees sees' : ScopeId → ScopeId → Prop} {a a' : Scope}
    (h : a.Matches π sees a') (hπ : π.Extends ρ)
    (hsees : ∀ p p', a.parent = some p → a'.parent = some p' → sees p p' → sees' p p') : a.Matches ρ sees' a' := by
  refine ⟨fun name => rel_imp (h.binding name) ?_, h.structs, rel_imp h.parent hsees⟩
  intro b b' _ _ hb
  exact ⟨hb.1, hπ.matches hb.2⟩

/-! ### Scopes with a gap -/

namespace Scopes

/-- The index on the second side, where there may be an additional scope at the index `gap`. -/
def across (gap : Option Nat) (i : Nat) : Nat := if gap.any (· ≤ i) then i + 1 else i

section Across

variable {gap : Option Nat} {m i j : Nat}

@[simp] private theorem across_none (i : Nat) : across none i = i := rfl

private theorem across_some (m i : Nat) : across (some m) i = if m ≤ i then i + 1 else i := by
  simp [across]

private theorem across_lt_iff : across gap i < across gap j ↔ i < j := by
  cases gap with
  | none => rfl
  | some m =>
    rw [across_some, across_some]
    split <;> split <;> omega

private theorem across_inj (h : across gap i = across gap j) : i = j := by
  have hlt := @across_lt_iff gap i j
  have hgt := @across_lt_iff gap j i
  omega

private theorem across_ne (m i : Nat) : across (some m) i ≠ m := by
  rw [across_some]
  split <;> omega

end Across

variable {gap gap' : Option Nat} {s s' t t' : Scopes} {c c' : ScopeId}

/-- What a handle stands for: the place of its scope as long as it is alive, and afterwards nothing in particular.
One that has never been alive stands for `other`. -/
def mark (s : Scopes) (place : Nat → Nat) (other c : ScopeId) : ScopeId :=
  if s.isAlive c then ⟨place c.index, 0⟩ else if s.knows c then ⟨0, 1⟩ else other

/-- The handles of both sides. -/
def pairing (gap : Option Nat) (s s' : Scopes) : Pairing := ⟨s.mark (across gap) ⟨0, 2⟩, s'.mark id ⟨0, 3⟩⟩

/-- Both handles are alive, at corresponding places. -/
structure Linked (gap : Option Nat) (s s' : Scopes) (c c' : ScopeId) : Prop where
  left : s.isAlive c = true
  right : s'.isAlive c' = true
  place : c'.index = across gap c.index

theorem joins_pairing_iff : (pairing gap s s').Joins c c' ↔ Linked gap s s' c c' ∨
    (s.knows c = true ∧ s.isAlive c = false) ∧ s'.knows c' = true ∧ s'.isAlive c' = false := by
  have hlinked : Linked gap s s' c c' ↔ s.isAlive c = true ∧ s'.isAlive c' = true ∧ c'.index = across gap c.index :=
    ⟨fun h => ⟨h.left, h.right, h.place⟩, fun h => ⟨h.1, h.2.1, h.2.2⟩⟩
  rw [hlinked]
  cases ha : s.isAlive c <;> cases ha' : s'.isAlive c' <;> cases hk : s.knows c <;> cases hk' : s'.knows c' <;>
    simp [Pairing.Joins, pairing, mark, ha, ha', hk, hk']
  all_goals exact eq_comm

theorem Linked.joins (h : Linked gap s s' c c') : (pairing gap s s').Joins c c' := joins_pairing_iff.2 (.inl h)

/-- Handles that go together are alive together. -/
theorem isAlive_of_joins (h : (pairing gap s s').Joins c c') : s'.isAlive c' = s.isAlive c := by
  rcases joins_pairing_iff.1 h with hlinked | ⟨⟨-, hdead⟩, -, hdead'⟩
  · rw [hlinked.left, hlinked.right]
  · rw [hdead, hdead']

theorem Linked.of_joins (h : (pairing gap s s').Joins c c') (ha : s.isAlive c = true) : Linked gap s s' c c' := by
  rcases joins_pairing_iff.1 h with hlinked | ⟨⟨-, hdead⟩, -⟩
  · exact hlinked
  · rw [ha] at hdead
    cases hdead

/-- Handles go together as long as scopes at corresponding places stay or go together. -/
private theorem extends_of_ages (hleft : s.Ages t) (hright : s'.Ages t')
    (hlive : ∀ i < s.live, across gap i < t'.live ↔ i < t.live)
    (hplace : ∀ i < s.live, i < t.live → across gap' i = across gap i) :
    (pairing gap s s').Extends (pairing gap' t t') := by
  intro c c' hc
  rcases joins_pairing_iff.1 hc with ⟨ha, ha', hindex⟩ | ⟨⟨hk, hd⟩, hk', hd'⟩
  · have hlt := (isAlive_iff.1 ha).1
    have hiff := hlive c.index hlt
    rw [← hindex] at hiff
    by_cases hstays : c.index < t.live
    · exact Linked.joins ⟨hleft.alive c ha hstays,
        hright.alive c' ha' (hiff.2 hstays), by rw [hplace _ hlt hstays, hindex]⟩
    · refine joins_pairing_iff.2 (.inr ⟨⟨hleft.known c (knows_of_isAlive ha), isAlive_of_le (by omega)⟩, ?_⟩)
      exact ⟨hright.known c' (knows_of_isAlive ha'), isAlive_of_le (by omega)⟩
  · exact joins_pairing_iff.2 (.inr ⟨⟨hleft.known c hk, hleft.gone c hk hd⟩,
      hright.known c' hk', hright.gone c' hk' hd'⟩)

/-- Names are looked up from `c` and from `c'` in corresponding scopes: the two are at corresponding places, or `c'`
is the additional scope and its parent is at the place that corresponds to `c`. -/
structure Sees (gap : Option Nat) (s s' : Scopes) (c c' : ScopeId) : Prop where
  left : s.isAlive c = true
  right : s'.isAlive c' = true
  place : c'.index = across gap c.index ∨ gap = some c'.index ∧
    ∃ q, s'.outline c'.index = some (c'.generation, some q) ∧ s'.isAlive q = true ∧ q.index = across gap c.index

theorem Linked.sees (h : Linked gap s s' c c') : Sees gap s s' c c' := ⟨h.left, h.right, .inl h.place⟩

theorem Sees.sameOutline (h : Sees gap s s' c c') (ho : s.SameOutline t) (ho' : s'.SameOutline t') :
    Sees gap t t' c c' := by
  refine ⟨ho.isAlive h.left, ho'.isAlive h.right, h.place.imp_right ?_⟩
  rintro ⟨hgap, q, hq, hqa, hqi⟩
  refine ⟨hgap, q, ?_, ho'.isAlive hqa, hqi⟩
  rw [ho'.slot _ (isAlive_iff.1 h.right).1, hq]

/-- The scopes of two runs, of which the second may have an additional one at `gap`. -/
structure Parallel (gap : Option Nat) (s s' : Scopes) : Prop where
  nested : s.Nested
  nested' : s'.Nested
  live : s'.live = across gap s.live
  reach : ∀ m, gap = some m → m ≤ s.live
  scope : ∀ {c c' a a'}, s.get? c = some a → s'.get? c' = some a' → c'.index = across gap c.index →
    a.Matches (pairing gap s s') (Sees gap s s') a'
  blank : ∀ {c' a'}, s'.get? c' = some a' → gap = some c'.index → a' = .empty a'.parent

/-- The parent of a scope is alive and older. -/
private theorem Nested.of_parent (h : s.Nested) {a : Scope} {p : ScopeId} (hget : s.get? c = some a)
    (hp : a.parent = some p) : s.isAlive p = true ∧ p.index < c.index := by
  have hroot : c ≠ s.root := by
    rintro rfl
    rw [h.parent_of_root hget] at hp
    cases hp
  obtain ⟨q, hq, halive, hlt⟩ := h.parent c a hget hroot
  obtain rfl : q = p := Option.some.inj (hq.symm.trans hp)
  exact ⟨halive, hlt⟩

private theorem outline_of_get? {a : Scope} (hget : s.get? c = some a) :
    s.outline c.index = some (c.generation, a.parent) :=
  outline_eq_some_iff.2 ⟨a, (get?_eq_some_iff.1 hget).2, rfl⟩

private theorem Nested.lt_of_outline (h : s.Nested) {q : ScopeId} (ha : s.isAlive c = true)
    (hq : s.outline c.index = some (c.generation, some q)) : q.index < c.index := by
  obtain ⟨a, hget⟩ := Option.isSome_iff_exists.1 ha
  rw [outline_of_get? hget, Option.some.injEq, Prod.mk.injEq] at hq
  exact (h.of_parent hget hq.2).2

namespace Parallel

section

variable (h : Parallel gap s s')
include h

/-! ### Looking up names -/

/-- Both walks find nothing, or they find corresponding things in corresponding scopes.  By induction on the rounds
of the second one, which alone goes through the additional scope. -/
private theorem walk {α β : Type} {find : Scope → Option α} {find' : Scope → Option β} {R : α → β → Prop}
    (hfind : ∀ {a a'}, a.Matches (pairing gap s s') (Sees gap s s') a' → Option.Rel R (find a) (find' a'))
    (hblank : ∀ parent, find' (.empty parent) = none) {rounds rounds' : Nat} (hc : Sees gap s s' c c')
    (hr : c.index < rounds) (hr' : c'.index < rounds') :
    (s.walk find rounds c = some (.ok none) ∧ s'.walk find' rounds' c' = some (.ok none)) ∨
      ∃ o x o' x', s.walk find rounds c = some (.ok (some (o, x))) ∧
        s'.walk find' rounds' c' = some (.ok (some (o', x'))) ∧ Linked gap s s' o o' ∧ R x x' := by
  induction rounds' generalizing rounds c c' with
  | zero => omega
  | succ rounds' ih =>
    obtain ⟨a', hget'⟩ := Option.isSome_iff_exists.1 hc.right
    rcases hc.place with hplace | ⟨hgap, q, hq, hqa, hqi⟩
    · obtain ⟨a, hget⟩ := Option.isSome_iff_exists.1 hc.left
      obtain ⟨rounds, rfl⟩ : ∃ n, rounds = n + 1 := ⟨rounds - 1, by omega⟩
      have hmatch := h.scope hget hget' hplace
      have hfound := hfind hmatch
      have hparent := hmatch.parent
      simp only [Scopes.walk, hget, hget']
      generalize hfa : find a = x at hfound
      generalize hfa' : find' a' = x' at hfound
      cases hfound with
      | some hx => exact .inr ⟨c, _, c', _, rfl, rfl, ⟨hc.left, hc.right, hplace⟩, hx⟩
      | none =>
        generalize hp : a.parent = p at hparent
        generalize hp' : a'.parent = p' at hparent
        cases hparent with
        | none => exact .inl ⟨rfl, rfl⟩
        | some hsees =>
          have hlt := (h.nested.of_parent hget hp).2
          have hlt' := (h.nested'.of_parent hget' hp').2
          exact ih hsees (by omega) (by omega)
    · -- nothing is declared in the additional scope
      have hparent : a'.parent = some q := by
        rw [outline_of_get? hget', Option.some.injEq, Prod.mk.injEq] at hq
        exact hq.2
      have hempty := hblank a'.parent
      rw [← h.blank hget' hgap] at hempty
      have hlt' := (h.nested'.of_parent hget' hparent).2
      have hstep : s'.walk find' (rounds' + 1) c' = s'.walk find' rounds' q := by
        simp only [Scopes.walk, hget', hempty, hparent]
      rw [hstep]
      exact ih ⟨hc.left, hqa, .inl hqi⟩ hr (by omega)

private theorem search {α β : Type} {find : Scope → Option α} {find' : Scope → Option β} {R : α → β → Prop}
    (hfind : ∀ {a a'}, a.Matches (pairing gap s s') (Sees gap s s') a' → Option.Rel R (find a) (find' a'))
    (hblank : ∀ parent, find' (.empty parent) = none) (hc : Sees gap s s' c c') :
    (s.search find c = .ok none ∧ s'.search find' c' = .ok none) ∨
      ∃ o x o' x', s.search find c = .ok (some (o, x)) ∧ s'.search find' c' = .ok (some (o', x')) ∧
        Linked gap s s' o o' ∧ R x x' := by
  unfold Scopes.search
  rcases h.walk hfind hblank hc (isAlive_iff.1 hc.left).1 (isAlive_iff.1 hc.right).1 with
    ⟨hw, hw'⟩ | ⟨o, x, o', x', hw, hw', ho, hx⟩
  · exact .inl ⟨by rw [hw]; rfl, by rw [hw']; rfl⟩
  · exact .inr ⟨o, x, o', x', by rw [hw]; rfl, by rw [hw']; rfl, ho, hx⟩

theorem lookup (hc : Sees gap s s' c c') (name : String) :
    (s.lookup c name = .error (.notDeclared name) ∧ s'.lookup c' name = .error (.notDeclared name)) ∨
      ∃ o b o' b', s.lookup c name = .ok (o, b) ∧ s'.lookup c' name = .ok (o', b') ∧ Linked gap s s' o o' ∧
        b.Matches (pairing gap s s') b' := by
  unfold Scopes.lookup
  rcases h.search (fun ha => ha.binding name) (fun _ => rfl) hc with ⟨hs, hs'⟩ | ⟨o, b, o', b', hs, hs', ho, hb⟩
  · exact .inl ⟨by rw [hs], by rw [hs']⟩
  · exact .inr ⟨o, b, o', b', by rw [hs], by rw [hs'], ho, hb⟩

theorem getStruct (hc : Sees gap s s' c c') (name : String) :
    (s.getStruct c name = .error (.notDeclared name) ∧ s'.getStruct c' name = .error (.notDeclared name)) ∨
      ∃ d, s.getStruct c name = .ok d ∧ s'.getStruct c' name = .ok d := by
  have hfind : ∀ {a a' : Scope}, a.Matches (pairing gap s s') (Sees gap s s') a' →
      Option.Rel (fun d d' => d' = d) (a.struct? name) (a'.struct? name) := by
    intro a a' ha
    unfold Scope.struct?
    rw [ha.structs]
    cases a.structs.find? (·.name.name == name) with
    | none => exact .none
    | some d => exact .some rfl
  unfold Scopes.getStruct
  rcases h.search hfind (fun _ => rfl) hc with ⟨hs, hs'⟩ | ⟨o, d, o', d', hs, hs', -, hd⟩
  · exact .inl ⟨by rw [hs], by rw [hs']⟩
  · exact .inr ⟨d, by rw [hs], by rw [hs', hd]⟩

/-! ### Changing scopes -/

/-- Corresponding changes in corresponding scopes. -/
private theorem modify {o o' : ScopeId} (ho : Linked gap s s' o o') {f f' : Scope → Scope}
    (hf : ∀ a, (f a).parent = a.parent) (hf' : ∀ a, (f' a).parent = a.parent)
    (hchange : ∀ {a a'}, a.Matches (pairing gap s s') (Sees gap s s') a' →
      (f a).Matches (pairing gap s s') (Sees gap s s') (f' a')) :
    Parallel gap (s.modify o f) (s'.modify o' f') ∧
    pairing gap (s.modify o f) (s'.modify o' f') = pairing gap s s' := by
  have houtline : s.SameOutline (s.modify o f) := sameOutline_modify hf
  have houtline' : s'.SameOutline (s'.modify o' f') := sameOutline_modify hf'
  have hpairing : pairing gap (s.modify o f) (s'.modify o' f') = pairing gap s s' := by
    unfold pairing mark
    simp only [isAlive_modify, knows_modify]
  refine ⟨⟨houtline.nested h.nested, houtline'.nested h.nested', h.live, h.reach, ?_, ?_⟩, hpairing⟩
  · intro c c' a a' hget hget' hplace
    have hmatch : a.Matches (pairing gap s s') (Sees gap s s') a' := by
      rw [get?_modify] at hget hget'
      by_cases hindex : o.index = c.index
      · rw [if_pos hindex] at hget
        rw [if_pos (by rw [ho.place, hindex, hplace])] at hget'
        obtain ⟨b, hb, rfl⟩ := Option.map_eq_some_iff.1 hget
        obtain ⟨b', hb', rfl⟩ := Option.map_eq_some_iff.1 hget'
        exact hchange (h.scope hb hb' hplace)
      · rw [if_neg hindex] at hget
        rw [if_neg (fun he => hindex (across_inj (ho.place.symm.trans (he.trans hplace))))] at hget'
        exact h.scope hget hget' hplace
    rw [hpairing]
    exact hmatch.mono (.refl _) fun p p' _ _ hp => hp.sameOutline houtline houtline'
  · intro c' a' hget' hgap
    rw [get?_modify, if_neg] at hget'
    · exact h.blank hget' hgap
    · rw [ho.place, hgap]
      exact across_ne _ _

theorem set {o o' : ScopeId} (ho : Linked gap s s' o o') (name : String) {v v' : Value}
    (hv : (pairing gap s s').Matches v v') :
    Parallel gap (s.modify o (·.set name v)) (s'.modify o' (·.set name v')) ∧
      pairing gap (s.modify o (·.set name v)) (s'.modify o' (·.set name v')) = pairing gap s s' := by
  refine h.modify ho (fun _ => rfl) (fun _ => rfl) fun {a a'} ha => ⟨fun n => ?_, ha.structs, ha.parent⟩
  have hn := ha.binding n
  rw [Scope.binding?_set, Scope.binding?_set]
  generalize a.binding? n = b at hn
  generalize a'.binding? n = b' at hn
  split
  · cases hn with
    | some hb => exact .some ⟨hb.1, hv⟩
    | none => exact .none
  · exact hn

theorem bind {o o' : ScopeId} (ho : Linked gap s s' o o') (name : String) {b b' : Binding}
    (hb : b.Matches (pairing gap s s') b') :
    Parallel gap (s.modify o (·.bind name b)) (s'.modify o' (·.bind name b')) ∧
      pairing gap (s.modify o (·.bind name b)) (s'.modify o' (·.bind name b')) = pairing gap s s' := by
  refine h.modify ho (fun _ => rfl) (fun _ => rfl) fun ha => ⟨fun n => ?_, ha.structs, ha.parent⟩
  rw [Scope.binding?_bind, Scope.binding?_bind]
  split
  · exact .some hb
  · exact ha.binding n

theorem declareStruct {o o' : ScopeId} (ho : Linked gap s s' o o') (d : StructDecl) :
    Parallel gap (s.modify o fun a => { a with structs := d :: a.structs })
        (s'.modify o' fun a => { a with structs := d :: a.structs }) ∧
      pairing gap (s.modify o fun a => { a with structs := d :: a.structs })
        (s'.modify o' fun a => { a with structs := d :: a.structs }) = pairing gap s s' :=
  h.modify ho (fun _ => rfl) (fun _ => rfl) fun ha => ⟨ha.binding, by rw [ha.structs], ha.parent⟩

/-! ### Entering and leaving scopes -/

theorem push {p p' : ScopeId} (hp : Sees gap s s' p p') (hnext : s.HasNext) (hnext' : s'.HasNext) :
    Parallel gap (s.push p).1 (s'.push p').1 ∧
      (pairing gap s s').Extends (pairing gap (s.push p).1 (s'.push p').1) ∧
      Linked gap (s.push p).1 (s'.push p').1 (s.push p).2 (s'.push p').2 := by
  have hlive : (s'.push p').1.live = across gap (s.push p).1.live := by
    have hlive := h.live
    have hreach := h.reach
    rw [push_live, push_live]
    cases gap with
    | none => simpa using hlive
    | some m =>
      have hm := hreach m rfl
      rw [across_some, if_pos hm] at hlive
      rw [across_some, if_pos (by omega), hlive]
  have hextends : (pairing gap s s').Extends (pairing gap (s.push p).1 (s'.push p').1) := by
    refine extends_of_ages (ages_push p h.nested hnext) (ages_push p' h.nested' hnext')
      (fun i hi => ?_) fun _ _ _ => rfl
    rw [hlive, across_lt_iff]
  have hsees : ∀ {c c'}, Sees gap s s' c c' → Sees gap (s.push p).1 (s'.push p').1 c c' := by
    intro c c' hc
    refine ⟨isAlive_push_of_isAlive h.nested.stored hc.left, isAlive_push_of_isAlive h.nested'.stored hc.right,
      hc.place.imp_right ?_⟩
    rintro ⟨hgap, q, hq, hqa, hqi⟩
    refine ⟨hgap, q, ?_, isAlive_push_of_isAlive h.nested'.stored hqa, hqi⟩
    have hlt := (isAlive_iff.1 hc.right).1
    unfold outline at hq ⊢
    rw [push_slots_of_ne p' (by omega) h.nested'.stored, hq]
  refine ⟨⟨h.nested.push hp.left, h.nested'.push hp.right, hlive, ?_, ?_, ?_⟩, hextends, ?_⟩
  · intro m hm
    rw [push_live]
    exact Nat.le_succ_of_le (h.reach m hm)
  · intro c c' a a' hget hget' hplace
    by_cases hindex : c.index = s.live
    · have hindex' : c'.index = s'.live := by rw [hplace, hindex, h.live]
      rw [eq_empty_of_get?_push h.nested.stored hindex hget, eq_empty_of_get?_push h.nested'.stored hindex' hget']
      exact ⟨fun _ => .none, rfl, .some (hsees hp)⟩
    · have hindex' : c'.index ≠ s'.live := fun he => hindex (across_inj (hplace.symm.trans (he.trans h.live)))
      rw [get?_push_of_ne p h.nested.stored hindex] at hget
      rw [get?_push_of_ne p' h.nested'.stored hindex'] at hget'
      exact (h.scope hget hget' hplace).mono hextends fun _ _ _ _ => hsees
  · intro c' a' hget' hgap
    by_cases hindex' : c'.index = s'.live
    · rw [eq_empty_of_get?_push h.nested'.stored hindex' hget']
      rfl
    · rw [get?_push_of_ne p' h.nested'.stored hindex'] at hget'
      exact h.blank hget' hgap
  · refine ⟨isAlive_push p h.nested.stored, isAlive_push p' h.nested'.stored, ?_⟩
    rw [push_index, push_index, h.live]

theorem dropLast (hlive : 1 < s.live) (hreach : ∀ m, gap = some m → m < s.live) :
    Parallel gap s.dropLast s'.dropLast ∧ (pairing gap s s').Extends (pairing gap s.dropLast s'.dropLast) := by
  have hplaces : ∀ i, across gap i + 1 < s'.live ↔ i + 1 < s.live := by
    intro i
    have hlive' := h.live
    cases gap with
    | none =>
      rw [across_none] at hlive'
      rw [across_none, hlive']
    | some m =>
      have hm := hreach m rfl
      rw [across_some] at hlive' ⊢
      split at hlive' <;> split <;> omega
  have hlive' : s'.dropLast.live = across gap s.dropLast.live := by
    have hlast := hplaces (s.live - 2)
    have hend := hplaces (s.live - 1)
    have heq := h.live
    rw [dropLast_live, dropLast_live]
    cases gap with
    | none => simpa using congrArg (· - 1) heq
    | some m =>
      have hm := hreach m rfl
      rw [across_some] at heq ⊢
      split at heq <;> split <;> omega
  have hextends : (pairing gap s s').Extends (pairing gap s.dropLast s'.dropLast) := by
    refine extends_of_ages (ages_dropLast s) (ages_dropLast s') (fun i _ => ?_) fun _ _ _ => rfl
    rw [hlive', across_lt_iff]
  have hsees : ∀ {c c'}, c.index + 1 < s.live → c'.index + 1 < s'.live → Sees gap s s' c c' →
      Sees gap s.dropLast s'.dropLast c c' := by
    intro c c' hi hi' hc
    refine ⟨isAlive_dropLast hc.left hi, isAlive_dropLast hc.right hi', hc.place.imp_right ?_⟩
    rintro ⟨hgap, q, hq, hqa, hqi⟩
    have hlt := h.nested'.lt_of_outline hc.right hq
    refine ⟨hgap, q, ?_, isAlive_dropLast hqa (by omega), hqi⟩
    unfold outline at hq ⊢
    rw [dropLast_slots_of_lt hi', hq]
  refine ⟨⟨h.nested.dropLast hlive, h.nested'.dropLast ?_, hlive', ?_, ?_, ?_⟩, hextends⟩
  · have hfirst := (hplaces 0).2 hlive
    omega
  · intro m hm
    have hlt := hreach m hm
    rw [dropLast_live]
    omega
  · intro c c' a a' hget hget' hplace
    have hi := lt_of_get?_dropLast hget
    have hi' := lt_of_get?_dropLast hget'
    rw [get?_dropLast hi] at hget
    rw [get?_dropLast hi'] at hget'
    refine (h.scope hget hget' hplace).mono hextends fun p p' hp hp' => ?_
    have hlt := (h.nested.of_parent hget hp).2
    have hlt' := (h.nested'.of_parent hget' hp').2
    exact hsees (by omega) (by omega)
  · intro c' a' hget' hgap
    rw [get?_dropLast (lt_of_get?_dropLast hget')] at hget'
    exact h.blank hget' hgap

end

/-! ### The additional scope -/

/-- Scopes that are the same, if their functions are known. -/
theorem refl (hs : s.Nested) (hknown : s.Holds (Value.All (Value.IsKnown fun _ c => s.knows c = true))) :
    Parallel none s s := by
  have hjoins : ∀ c, s.knows c = true → (pairing none s s).Joins c c := by
    intro c hc
    cases ha : s.isAlive c with
    | true => exact Linked.joins ⟨ha, ha, rfl⟩
    | false => exact joins_pairing_iff.2 (.inr ⟨⟨hc, ha⟩, hc, ha⟩)
  refine ⟨hs, hs, rfl, by simp, ?_, by simp⟩
  intro c c' a a' hget hget' hplace
  obtain rfl : c' = c := eq_of_index hget' hget hplace
  obtain rfl : a = a' := Option.some.inj (hget.symm.trans hget')
  refine ⟨fun name => ?_, rfl, ?_⟩
  · cases hb : a.binding? name with
    | none => exact .none
    | some b =>
      refine .some ⟨rfl, Pairing.matches_self (Value.All.mono (fun v hv => ?_) _ (hknown c' name b ⟨a, hget, hb⟩))⟩
      cases v with
      | function d c => exact hjoins c hv
      | _ => trivial
  · cases hp : a.parent with
    | none => exact .none
    | some p =>
      have halive := (hs.of_parent hget hp).1
      exact .some (Linked.sees ⟨halive, halive, rfl⟩)

/-- Only the second side enters a scope. -/
theorem push_right (h : Parallel none s s') {p p' : ScopeId} (hp : Linked none s s' p p') (hnext' : s'.HasNext) :
    Parallel (some s.live) s (s'.push p').1 ∧
      (pairing none s s').Extends (pairing (some s.live) s (s'.push p').1) ∧
      Sees (some s.live) s (s'.push p').1 p (s'.push p').2 := by
  have hlive : s'.live = s.live := h.live
  have hbelow : ∀ i < s.live, across (some s.live) i = i := by
    intro i hi
    rw [across_some, if_neg (by omega)]
  have hindex : p'.index = across (some s.live) p.index := by
    rw [hbelow _ (isAlive_iff.1 hp.left).1]
    exact hp.place
  have hextends : (pairing none s s').Extends (pairing (some s.live) s (s'.push p').1) := by
    refine extends_of_ages (.refl s) (ages_push p' h.nested' hnext') (fun i hi => ?_) fun i hi _ => hbelow i hi
    rw [push_live, across_none]
    omega
  refine ⟨⟨h.nested, h.nested'.push hp.right, ?_, ?_, ?_, ?_⟩, hextends, ?_⟩
  · rw [push_live, across_some, if_pos (Nat.le_refl _), hlive]
  · rintro m ⟨⟩
    exact Nat.le_refl _
  · intro c c' a a' hget hget' hplace
    have hlt := (get?_eq_some_iff.1 hget).1
    rw [hbelow _ hlt] at hplace
    rw [get?_push_of_ne p' h.nested'.stored (by omega)] at hget'
    refine (h.scope hget hget' hplace).mono hextends fun q q' _ _ hq => Linked.sees ⟨hq.left, ?_, ?_⟩
    · exact isAlive_push_of_isAlive h.nested'.stored hq.right
    · rw [hbelow _ (isAlive_iff.1 hq.left).1]
      rcases hq.place with hplace | ⟨hgap, -⟩
      · exact hplace
      · cases hgap
  · intro c' a' hget' hgap
    have hlast : c'.index = s'.live := by
      rw [hlive]
      exact (Option.some.inj hgap).symm
    rw [eq_empty_of_get?_push h.nested'.stored hlast hget']
    rfl
  · refine ⟨hp.left, isAlive_push p' h.nested'.stored, .inr ⟨by rw [push_index, hlive], p', ?_, ?_, hindex⟩⟩
    · rw [push_index]
      exact outline_eq_some_iff.2 ⟨_, push_slots_self p' h.nested'.stored, rfl⟩
    · exact isAlive_push_of_isAlive h.nested'.stored hp.right

/-- The additional scope is left when it is the last one. -/
theorem dropLast_right (h : Parallel (some s.live) s s') :
    Parallel none s s'.dropLast ∧ (pairing (some s.live) s s').Extends (pairing none s s'.dropLast) := by
  have hlive : s'.live = s.live + 1 := by
    rw [h.live, across_some, if_pos (Nat.le_refl _)]
  have hrooted := h.nested.rooted
  have hbelow : ∀ i < s.live, across (some s.live) i = i := by
    intro i hi
    rw [across_some, if_neg (by omega)]
  have hextends : (pairing (some s.live) s s').Extends (pairing none s s'.dropLast) := by
    refine extends_of_ages (.refl s) (ages_dropLast s') (fun i hi => ?_) fun i hi _ => (hbelow i hi).symm
    rw [dropLast_live, hbelow i hi, hlive]
    omega
  refine ⟨⟨h.nested, h.nested'.dropLast (by omega), by rw [dropLast_live, hlive]; rfl, by simp, ?_, by simp⟩,
    hextends⟩
  intro c c' a a' hget hget' hplace
  have hlt := (get?_eq_some_iff.1 hget).1
  have hi' := lt_of_get?_dropLast hget'
  rw [get?_dropLast hi'] at hget'
  have hindex : c'.index = across (some s.live) c.index := by
    rw [hbelow _ hlt]
    exact hplace
  refine (h.scope hget hget' hindex).mono hextends fun p p' _ hp' hsees => ?_
  -- a parent is older than its child, so it is not the additional scope
  have hlt' := (h.nested'.of_parent hget' hp').2
  refine Linked.sees ⟨hsees.left, isAlive_dropLast hsees.right (by omega), ?_⟩
  rcases hsees.place with hplace | ⟨hgap, -⟩
  · rwa [hbelow _ (isAlive_iff.1 hsees.left).1] at hplace
  · have hlast := Option.some.inj hgap
    omega

end Parallel

end Scopes

end BraceScript
