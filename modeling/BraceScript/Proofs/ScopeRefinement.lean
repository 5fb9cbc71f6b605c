import BraceScript.Proofs.Scopes
import BraceScript.Proofs.ScopeModel

/-!
# Reusing slots is invisible

As long as no generation wraps around, `Scopes` answers every script as the reference `ScopeModel` does, although it
uses slots again and does not look at the parent of a new scope (`Scopes.Replay.run_eq`).  The relation between the
two, `Represents`, says which identity lives in which slot; the point is that a handle whose slot has been given away
has a smaller generation than the slot, so it never becomes alive again and no chain of parents can close.
-/

namespace BraceScript

/-! ### Entries of the reference -/

namespace ScopeModel

variable {entries older : List Entry} {e : Entry} {stack : List Nat} {id k : Nat}

@[simp] private theorem length_update (f : Entry → Entry) : (update f id entries).length = entries.length := by
  induction entries with
  | nil => rfl
  | cons e older ih =>
    unfold update
    split <;> simp [ih]

private theorem entryOf?_update (f : Entry → Entry) :
    entryOf? (update f id entries) k = if id = k then (entryOf? entries k).map f else entryOf? entries k := by
  induction entries with
  | nil => simp [update, entryOf?]
  | cons e older ih =>
    by_cases hid : id = older.length
    · by_cases hk : k = older.length
      · simp [update, entryOf?, hid, hk]
      · simp [update, entryOf?, hid, hk, Ne.symm hk]
    · by_cases hk : k = older.length
      · simp [update, entryOf?, hid, hk]
      · simp [update, entryOf?, hid, hk, ih]

private theorem entryOf?_eq_some_of_lt (h : id < entries.length) : ∃ e, entryOf? entries id = some e := by
  induction entries with
  | nil => cases h
  | cons e older ih =>
    by_cases hid : id = older.length
    · exact ⟨e, by simp [entryOf?, hid]⟩
    · simp only [entryOf?, hid, ↓reduceIte]
      exact ih (by simp only [List.length_cons] at h; omega)

private theorem lt_of_entryOf? (h : entryOf? entries id = some e) : id < entries.length := by
  induction entries with
  | nil => cases h
  | cons e' older ih =>
    by_cases hid : id = older.length
    · simp [hid]
    · simp only [entryOf?, hid, ↓reduceIte] at h
      have := ih h
      simp only [List.length_cons]
      omega

/-- Every parent is older than its child. -/
def ParentsOlder (entries : List Entry) : Prop :=
  ∀ id e parent, entryOf? entries id = some e → e.parent = some parent → parent < id

/-- One round of a walk. -/
private theorem walk_eq {α : Type} {find : Entry → Option α} (hp : ParentsOlder entries)
    (he : entryOf? entries id = some e) :
    walk stack find entries id =
      if id ∈ stack then
        match find e, e.parent with
        | some a, _ => .ok (some (id, a))
        | none, none => .ok none
        | none, some parent => walk stack find entries parent
      else .error .stale := by
  induction entries with
  | nil => cases he
  | cons e' older ih =>
    -- entries above the identity sought play no part
    have hskip : ∀ k, k < older.length → walk stack find (e' :: older) k = walk stack find older k := by
      intro k hk
      simp [walk, Nat.ne_of_lt hk]
    have hparent : ∀ parent, e.parent = some parent → parent < id := fun parent => hp id e parent he
    by_cases hid : id = older.length
    · simp only [entryOf?, hid, ↓reduceIte, Option.some.injEq] at he
      subst he
      conv => lhs; unfold walk
      simp only [hid, ↓reduceIte]
      split
      · cases hfind : find e' with
        | some a => rfl
        | none =>
          cases hpar : e'.parent with
          | none => rfl
          | some parent => exact (hskip parent (by rw [← hid]; exact hparent parent hpar)).symm
      · rfl
    · simp only [entryOf?, hid, ↓reduceIte] at he
      have hlt := lt_of_entryOf? he
      have hp' : ParentsOlder older := by
        intro k e₁ parent hk
        exact hp k e₁ parent (by simp [entryOf?, Nat.ne_of_lt (lt_of_entryOf? hk), hk])
      rw [hskip id hlt, ih hp' he]
      split
      · cases hfind : find e with
        | some a => rfl
        | none =>
          cases hpar : e.parent with
          | none => rfl
          | some parent => exact (hskip parent (Nat.lt_trans (hparent parent hpar) hlt)).symm
      · rfl

end ScopeModel

/-! ### The relation -/

open ScopeModel (Entry entryOf? ParentsOlder)

/-- A scope with the names of an entry and a handle on the scope that is the entry's parent. -/
structure Matches (handles : List ScopeId) (scope : Scope) (e : Entry) : Prop where
  binding : ∀ name, scope.binding? name = e.binding name
  struct : ∀ name, scope.struct? name = e.struct name
  parent : scope.parent.map some = e.parent.map (handles[·]?)

/-- The scopes `s`, for which `handles` have been given out, stand for the model `m`: the slot `i` belongs to the
`i`-th identity on the stack, and no handle is younger than its slot. -/
structure Represents (s : Scopes) (handles : List ScopeId) (m : ScopeModel) : Prop where
  count : handles.length = m.entries.length
  live : m.stack.length = s.live
  stored : s.live ≤ s.slots.size
  root : m.stack[0]? = some 0
  sorted : m.stack.Pairwise (· < ·)
  parents : ParentsOlder m.entries
  tenant : ∀ (i n : Nat), m.stack[i]? = some n → ∃ generation scope e, s.slots[i]? = some ⟨generation, scope⟩ ∧
    handles[n]? = some ⟨i, generation⟩ ∧ entryOf? m.entries n = some e ∧ Matches handles scope e
  handle : ∀ (n : Nat) (id : ScopeId), handles[n]? = some id → ∃ slot, s.slots[id.index]? = some slot ∧
    id.generation.toNat ≤ slot.generation.toNat ∧
    (id.index < s.live → id.generation = slot.generation → m.stack[id.index]? = some n)
  young : ∀ (i : Nat) (slot : Slot), s.slots[i]? = some slot → slot.generation.toNat < handles.length
  distinct : handles.Nodup

namespace Represents

variable {s : Scopes} {handles : List ScopeId} {m : ScopeModel} {n : Nat} {id : ScopeId}

private theorem initial : Represents .initial [Scopes.initial.root] .initial where
  count := rfl
  live := rfl
  stored := by decide
  root := rfl
  sorted := by simp [ScopeModel.initial]
  parents := by
    intro id e parent he hp
    by_cases hid : id = 0
    · simp only [ScopeModel.initial, entryOf?, List.length_nil, hid, ↓reduceIte, Option.some.injEq] at he
      rw [← he] at hp
      cases hp
    · simp [ScopeModel.initial, entryOf?, hid] at he
  tenant := by
    intro i n hi
    obtain ⟨rfl, rfl⟩ : i = 0 ∧ 0 = n := by
      cases i with
      | zero => exact ⟨rfl, by simpa [ScopeModel.initial] using hi⟩
      | succ i => simp [ScopeModel.initial] at hi
    exact ⟨0, .empty none, .empty none, rfl, rfl, rfl, fun _ => rfl, fun _ => rfl, rfl⟩
  handle := by
    intro n id hn
    obtain ⟨rfl, rfl⟩ : n = 0 ∧ Scopes.initial.root = id := by
      cases n with
      | zero => exact ⟨rfl, by simpa using hn⟩
      | succ n => simp at hn
    exact ⟨⟨0, .empty none⟩, rfl, Nat.le_refl _, fun _ _ => rfl⟩
  young := by
    intro i slot hi
    cases i with
    | zero =>
      obtain rfl : (⟨0, .empty none⟩ : Slot) = slot := Option.some.inj hi
      decide
    | succ i => simp [Scopes.initial] at hi
  distinct := by simp

/-- The slot of an identity on the stack is where its handle says. -/
private theorem at_index (h : Represents s handles m) (hn : handles[n]? = some id) (hmem : n ∈ m.stack) :
    id.index < s.live ∧ m.stack[id.index]? = some n ∧ ∃ scope e, s.slots[id.index]? = some ⟨id.generation, scope⟩ ∧
      entryOf? m.entries n = some e ∧ Matches handles scope e := by
  obtain ⟨i, hi⟩ := List.mem_iff_getElem?.1 hmem
  obtain ⟨generation, scope, e, hslot, hhandle, hentry, hmatch⟩ := h.tenant i n hi
  obtain rfl : id = ⟨i, generation⟩ := Option.some.inj (hn.symm.trans hhandle)
  have hlt : i < m.stack.length := (List.getElem?_eq_some_iff.1 hi).1
  exact ⟨by rw [← h.live]; exact hlt, hi, scope, e, hslot, hentry, hmatch⟩

/-- A handle is alive exactly if its identity is on the stack. -/
theorem isAlive_iff (h : Represents s handles m) (hn : handles[n]? = some id) :
    s.isAlive id = true ↔ n ∈ m.stack := by
  constructor
  · intro ha
    obtain ⟨hi, scope, hslot⟩ := Scopes.isAlive_iff.1 ha
    obtain ⟨slot, hslot', -, htenant⟩ := h.handle n id hn
    rw [hslot] at hslot'
    obtain rfl := Option.some.inj hslot'
    exact List.mem_of_getElem? (htenant hi rfl)
  · intro hmem
    obtain ⟨hi, -, scope, e, hslot, -⟩ := h.at_index hn hmem
    exact Scopes.isAlive_iff.2 ⟨hi, scope, hslot⟩

/-- What the scopes and the model hold under a handle and its identity. -/
private theorem get?_cases (h : Represents s handles m) (hn : handles[n]? = some id) :
    (s.get? id = none ∧ n ∉ m.stack) ∨
      ∃ scope e, s.get? id = some scope ∧ n ∈ m.stack ∧ entryOf? m.entries n = some e ∧ Matches handles scope e := by
  by_cases hmem : n ∈ m.stack
  · obtain ⟨hi, -, scope, e, hslot, hentry, hmatch⟩ := h.at_index hn hmem
    exact .inr ⟨scope, e, Scopes.get?_eq_some_iff.2 ⟨hi, hslot⟩, hmem, hentry, hmatch⟩
  · refine .inl ⟨Scopes.get?_eq_none_iff.2 ?_, hmem⟩
    rw [Bool.eq_false_iff]
    exact fun ha => hmem ((h.isAlive_iff hn).1 ha)

/-- On the stack, older identities stand below younger ones. -/
private theorem index_lt (h : Represents s handles m) {k : Nat} {kid : ScopeId} (hn : handles[n]? = some id)
    (hk : handles[k]? = some kid) (hmem : n ∈ m.stack) (hkmem : k ∈ m.stack) (hlt : k < n) :
    kid.index < id.index := by
  obtain ⟨-, hi, -⟩ := h.at_index hn hmem
  obtain ⟨-, hj, -⟩ := h.at_index hk hkmem
  obtain ⟨hi', hin⟩ := List.getElem?_eq_some_iff.1 hi
  obtain ⟨hj', hjk⟩ := List.getElem?_eq_some_iff.1 hj
  apply Nat.not_le.1
  intro hle
  rcases Nat.lt_or_eq_of_le hle with hlt' | heq
  · have := List.pairwise_iff_getElem.1 h.sorted _ _ hi' hj' hlt'
    omega
  · rw [← heq, hi] at hj
    obtain rfl := Option.some.inj hj
    omega

/-! ### Walks -/

/-- The same scope found on both sides, with the same answer, or the same reason for finding none. -/
inductive SameFinding {α : Type} (handles : List ScopeId) (m : ScopeModel) (find : Entry → Option α) :
    Except ScopeError (Option (ScopeId × α)) → Except ScopeError (Option (Nat × α)) → Prop
  | stale : SameFinding handles m find (.error .stale) (.error .stale)
  | nowhere : SameFinding handles m find (.ok none) (.ok none)
  | found {n : Nat} {id : ScopeId} {e : Entry} {a : α} (hn : handles[n]? = some id) (hmem : n ∈ m.stack)
      (he : entryOf? m.entries n = some e) (ha : find e = some a) :
      SameFinding handles m find (.ok (some (id, a))) (.ok (some (n, a)))

/-- A walk ends within as many rounds as there are slots up to where it starts, and finds what the reference finds.
The identities it goes through get smaller, so those that are alive stand lower and lower on the stack. -/
private theorem walk_same (h : Represents s handles m) {α : Type} {find : Scope → Option α}
    {find' : Entry → Option α} (hfind : ∀ scope e, Matches handles scope e → find scope = find' e)
    (hn : handles[n]? = some id) {rounds : Nat} (hrounds : n ∈ m.stack → id.index < rounds) (hpos : 0 < rounds) :
    ∃ r, s.walk find rounds id = some r ∧
      SameFinding handles m find' r (ScopeModel.walk m.stack find' m.entries n) := by
  induction n using Nat.strongRecOn generalizing id rounds with
  | ind n ih =>
    obtain ⟨rounds, rfl⟩ : ∃ r, rounds = r + 1 := ⟨rounds - 1, by omega⟩
    have hlt : n < m.entries.length := by
      rw [← h.count]
      exact (List.getElem?_eq_some_iff.1 hn).1
    rcases h.get?_cases hn with ⟨hget, hmem⟩ | ⟨scope, e, hget, hmem, he, hmatch⟩
    · obtain ⟨e, he⟩ := ScopeModel.entryOf?_eq_some_of_lt hlt
      refine ⟨.error .stale, by simp only [Scopes.walk, hget], ?_⟩
      rw [ScopeModel.walk_eq h.parents he]
      simp only [hmem, ↓reduceIte]
      exact .stale
    · rw [ScopeModel.walk_eq h.parents he]
      simp only [Scopes.walk, hget, hmem, ↓reduceIte]
      cases hf : find' e with
      | some a =>
        refine ⟨.ok (some (id, a)), by rw [hfind scope e hmatch, hf], ?_⟩
        exact .found hn hmem he hf
      | none =>
        rw [hfind scope e hmatch, hf]
        cases hp : e.parent with
        | none =>
          have hp' : scope.parent = none := by simpa [hp] using hmatch.parent
          exact ⟨.ok none, by rw [hp'], .nowhere⟩
        | some parent =>
          obtain ⟨pid, hpid, hpn⟩ : ∃ pid, scope.parent = some pid ∧ handles[parent]? = some pid := by
            have hpar := hmatch.parent
            rw [hp] at hpar
            cases hs : scope.parent with
            | none => simp [hs] at hpar
            | some pid => exact ⟨pid, rfl, by simpa [hs] using hpar.symm⟩
          have hlt' : parent < n := h.parents n e parent he hp
          have hindex := hrounds hmem
          -- the root has no parent, so there is a round left
          have hroot : id.index ≠ 0 := by
            intro h0
            have hstack := (h.at_index hn hmem).2.1
            rw [h0, h.root] at hstack
            have := Option.some.inj hstack
            omega
          rw [hpid]
          apply ih parent hlt' hpn
          · intro hpmem
            have := h.index_lt hn hpn hmem hpmem hlt'
            omega
          · omega

/-- No chain of parents is longer than the number of scopes that are alive. -/
private theorem search_same (h : Represents s handles m) {α : Type} (find : Scope → Option α)
    (find' : Entry → Option α) (hfind : ∀ scope e, Matches handles scope e → find scope = find' e)
    (hn : handles[n]? = some id) :
    s.walk find s.live id = some (s.search find id) ∧
      SameFinding handles m find' (s.search find id) (ScopeModel.walk m.stack find' m.entries n) := by
  have hpos : 0 < s.live := by
    rw [← h.live]
    exact (List.getElem?_eq_some_iff.1 h.root).1
  obtain ⟨r, hr, hsame⟩ := h.walk_same hfind hn (fun hmem => (h.at_index hn hmem).1) hpos
  unfold Scopes.search
  rw [hr]
  exact ⟨rfl, hsame⟩

/-- Looking up a name finds the same binding in the same scope. -/
private theorem lookup_cases (h : Represents s handles m) (name : String) (hn : handles[n]? = some id) :
    (∃ e, s.lookup id name = .error e ∧ m.lookup n name = .error e) ∨
      ∃ k kid e b, s.lookup id name = .ok (kid, b) ∧ m.lookup n name = .ok (k, b) ∧ handles[k]? = some kid ∧
        k ∈ m.stack ∧ entryOf? m.entries k = some e ∧ e.binding name = some b := by
  have hsame := (h.search_same (·.binding? name) (·.binding name) (fun _ _ hmatch => hmatch.binding name) hn).2
  unfold Scopes.lookup ScopeModel.lookup
  revert hsame
  generalize s.search (·.binding? name) id = r
  generalize ScopeModel.walk m.stack (·.binding name) m.entries n = r'
  intro hsame
  cases hsame with
  | stale => exact .inl ⟨_, rfl, rfl⟩
  | nowhere => exact .inl ⟨_, rfl, rfl⟩
  | found hk hmem he hb => exact .inr ⟨_, _, _, _, rfl, rfl, hk, hmem, he, hb⟩

private theorem getStruct_same (h : Represents s handles m) (name : String) (hn : handles[n]? = some id) :
    s.getStruct id name = m.getStruct n name := by
  have hsame := (h.search_same (·.struct? name) (·.struct name) (fun _ _ hmatch => hmatch.struct name) hn).2
  unfold Scopes.getStruct ScopeModel.getStruct
  revert hsame
  generalize s.search (·.struct? name) id = r
  generalize ScopeModel.walk m.stack (·.struct name) m.entries n = r'
  intro hsame
  cases hsame with
  | stale => rfl
  | nowhere => rfl
  | found => rfl

/-! ### Changes inside a scope -/

private theorem modify (h : Represents s handles m) {scope : Scope} {e : Entry} {f : Scope → Scope}
    {f' : Entry → Entry} (hn : handles[n]? = some id) (hmem : n ∈ m.stack) (hget : s.get? id = some scope)
    (he : entryOf? m.entries n = some e) (hparent : (f' e).parent = e.parent)
    (hmatch : Matches handles (f scope) (f' e)) : Represents (s.modify id f) handles (m.modify n f') where
  count := by simpa [ScopeModel.modify] using h.count
  live := h.live
  stored := by simpa [Scopes.modify] using h.stored
  root := h.root
  sorted := h.sorted
  parents := by
    intro k ek parent hk hp
    simp only [ScopeModel.modify, ScopeModel.entryOf?_update] at hk
    by_cases hkn : n = k
    · subst hkn
      simp only [↓reduceIte, he, Option.map_some, Option.some.injEq] at hk
      subst hk
      exact h.parents n e parent he (hparent ▸ hp)
    · simp only [hkn, ↓reduceIte] at hk
      exact h.parents k ek parent hk hp
  tenant := by
    intro i k hi
    change m.stack[i]? = some k at hi
    obtain ⟨generation, scope', e', hslot, hhandle, hentry, hmatch'⟩ := h.tenant i k hi
    simp only [Scopes.modify_slots, ScopeModel.modify, ScopeModel.entryOf?_update]
    by_cases hkn : n = k
    · subst hkn
      obtain rfl : id = ⟨i, generation⟩ := Option.some.inj (hn.symm.trans hhandle)
      have hslot' := (Scopes.get?_eq_some_iff.1 hget).2
      exact ⟨generation, f scope, f' e, by simp [hslot'], hhandle, by simp [he], hmatch⟩
    · -- two identities on the stack do not share a slot
      have hindex : id.index ≠ i := by
        intro heq
        have hstack := (h.at_index hn hmem).2.1
        rw [heq, hi] at hstack
        exact hkn (Option.some.inj hstack).symm
      exact ⟨generation, scope', e', by simp [hindex, hslot], hhandle, by simp [hkn, hentry], hmatch'⟩
  handle := by
    intro k kid hk
    obtain ⟨slot, hslot, hle, hstack⟩ := h.handle k kid hk
    rw [Scopes.modify_slots]
    by_cases hindex : id.index = kid.index
    · exact ⟨{ slot with scope := f slot.scope }, by rw [if_pos hindex, hslot]; rfl, hle, hstack⟩
    · exact ⟨slot, by rw [if_neg hindex]; exact hslot, hle, hstack⟩
  young := by
    intro i slot hi
    rw [Scopes.modify_slots] at hi
    split at hi
    · obtain ⟨slot', hslot', rfl⟩ := Option.map_eq_some_iff.1 hi
      exact h.young i slot' hslot'
    · exact h.young i slot hi
  distinct := h.distinct

/-- Both sides succeed and still stand for each other, or both fail alike and nothing changes. -/
def SameChange (handles : List ScopeId) :
    Except ScopeError Scopes → Except ScopeError ScopeModel → Prop
  | .ok t, .ok m' => Represents t handles m'
  | .error e, .error e' => e = e'
  | _, _ => False

private theorem declare (h : Represents s handles m) (name : String) (b : Binding) (hn : handles[n]? = some id) :
    SameChange handles (s.declare id name b) (m.declare n name b) := by
  unfold Scopes.declare ScopeModel.declare ScopeModel.get?
  rcases h.get?_cases hn with ⟨hget, hmem⟩ | ⟨scope, e, hget, hmem, he, hmatch⟩
  · simp only [hget, hmem, ↓reduceIte]
    rfl
  · simp only [hget, hmem, he, ↓reduceIte, hmatch.binding name]
    split
    · rfl
    · apply h.modify hn hmem hget he rfl
      refine ⟨fun k => ?_, hmatch.struct, hmatch.parent⟩
      rw [Scope.binding?_bind, hmatch.binding k]
      rfl

private theorem assign (h : Represents s handles m) (name : String) (value : Value) (hn : handles[n]? = some id) :
    SameChange handles (s.assign id name value) (m.assign n name value) := by
  unfold Scopes.assign ScopeModel.assign
  rcases h.lookup_cases name hn with ⟨e, hs, hm⟩ | ⟨k, kid, e, b, hs, hm, hk, hkmem, he, hb⟩
  · rw [hs, hm]
    rfl
  · simp only [hs, hm]
    split
    · rfl
    · rcases h.get?_cases hk with ⟨-, hnot⟩ | ⟨scope, e', hget, -, he', hmatch⟩
      · exact absurd hkmem hnot
      · obtain rfl : e = e' := Option.some.inj (he.symm.trans he')
        apply h.modify hk hkmem hget he rfl
        refine ⟨fun k => ?_, hmatch.struct, hmatch.parent⟩
        rw [Scope.binding?_set, hmatch.binding k]
        by_cases hkn : k = name
        · simp [ScopeModel.Entry.bind, hkn, hb]
        · simp [ScopeModel.Entry.bind, hkn]

private theorem declareStruct (h : Represents s handles m) (d : StructDecl) (hn : handles[n]? = some id) :
    SameChange handles (s.declareStruct id d) (m.declareStruct n d) := by
  unfold Scopes.declareStruct ScopeModel.declareStruct ScopeModel.get?
  rcases h.get?_cases hn with ⟨hget, hmem⟩ | ⟨scope, e, hget, hmem, he, hmatch⟩
  · simp only [hget, hmem, ↓reduceIte]
    rfl
  · simp only [hget, hmem, he, ↓reduceIte, hmatch.struct d.name.name]
    split
    · rfl
    · apply h.modify hn hmem hget he rfl
      refine ⟨hmatch.binding, fun k => ?_, hmatch.parent⟩
      rw [Scope.struct?_declare, hmatch.struct k]
      rfl

/-! ### Removing and creating scopes -/

/-- The scope in the last live slot is the one on top of the stack. -/
private theorem pop_condition (h : Represents s handles m) (hn : handles[n]? = some id) (hmem : n ∈ m.stack) :
    (id.index = 0 ∨ id.index + 1 ≠ s.live) ↔ (n = 0 ∨ m.stack.getLast? ≠ some n) := by
  obtain ⟨hi, hstack, -⟩ := h.at_index hn hmem
  have hlive := h.live
  apply or_congr
  · constructor
    · intro h0
      rw [h0, h.root] at hstack
      exact (Option.some.inj hstack).symm
    · rintro rfl
      apply Nat.eq_zero_of_not_pos
      intro hpos
      obtain ⟨hlt, heq⟩ := List.getElem?_eq_some_iff.1 hstack
      obtain ⟨hlt₀, -⟩ := List.getElem?_eq_some_iff.1 h.root
      have := List.pairwise_iff_getElem.1 h.sorted 0 id.index hlt₀ hlt hpos
      omega
  · rw [List.getLast?_eq_getElem?, h.live]
    apply not_congr
    constructor
    · intro hlast
      rw [← hstack]
      congr 1
      omega
    · intro hlast
      obtain ⟨generation, scope, e, -, hhandle, -⟩ := h.tenant _ n hlast
      obtain rfl : id = ⟨s.live - 1, generation⟩ := Option.some.inj (hn.symm.trans hhandle)
      change s.live - 1 + 1 = s.live
      omega

private theorem dropLast (h : Represents s handles m) (hlive : 1 < s.live) :
    Represents s.dropLast handles { m with stack := m.stack.dropLast } := by
  -- the last slot loses its scope but keeps its generation
  have hslots : ∀ (i : Nat) (slot : Slot), s.slots[i]? = some slot → ∃ slot', s.dropLast.slots[i]? = some slot' ∧
      slot'.generation = slot.generation := by
    intro i slot hi
    change ∃ slot', (s.modify ⟨s.live - 1, 0⟩ fun _ => .empty none).slots[i]? = some slot' ∧ _
    rw [Scopes.modify_slots, hi]
    split
    · exact ⟨_, rfl, rfl⟩
    · exact ⟨slot, rfl, rfl⟩
  have hold : ∀ i n, m.stack.dropLast[i]? = some n → i + 1 < s.live ∧ m.stack[i]? = some n := by
    intro i n hi
    obtain ⟨hlt, -⟩ := List.getElem?_eq_some_iff.1 hi
    rw [List.length_dropLast, h.live] at hlt
    rw [List.getElem?_dropLast, h.live] at hi
    simp only [hlt, ↓reduceIte] at hi
    exact ⟨by omega, hi⟩
  refine ⟨h.count, by simp [h.live], ?_, ?_, h.sorted.sublist (List.dropLast_sublist _), h.parents, ?_, ?_, ?_,
    h.distinct⟩
  · have := h.stored
    simp only [Scopes.dropLast, Scopes.modify, Array.size_modify]
    omega
  · rw [List.getElem?_dropLast, h.live]
    simpa [show 0 < s.live - 1 by omega] using h.root
  · intro i n hi
    obtain ⟨hlt, hi'⟩ := hold i n hi
    obtain ⟨generation, scope, e, hslot, hrest⟩ := h.tenant i n hi'
    exact ⟨generation, scope, e, by rw [Scopes.dropLast_slots_of_lt hlt]; exact hslot, hrest⟩
  · intro n id hn
    obtain ⟨slot, hslot, hle, hstack⟩ := h.handle n id hn
    obtain ⟨slot', hslot', hgeneration⟩ := hslots _ _ hslot
    refine ⟨slot', hslot', by rw [hgeneration]; exact hle, fun hi hg => ?_⟩
    rw [Scopes.dropLast_live] at hi
    rw [List.getElem?_dropLast, h.live]
    simpa [hi] using hstack (by omega) (hg.trans hgeneration)
  · intro i slot hi
    have hlt : i < s.slots.size := by
      simpa [Scopes.dropLast, Scopes.modify] using (Array.getElem?_eq_some_iff.1 hi).1
    obtain ⟨slot', hslot', hgeneration⟩ := hslots i _ (Array.getElem?_eq_getElem hlt)
    rw [hi] at hslot'
    obtain rfl := Option.some.inj hslot'
    rw [hgeneration]
    exact h.young i _ (Array.getElem?_eq_getElem hlt)

private theorem pop (h : Represents s handles m) (hn : handles[n]? = some id) :
    SameChange handles (s.pop id) (m.pop n) := by
  unfold Scopes.pop ScopeModel.pop
  by_cases hmem : n ∈ m.stack
  · have halive := (h.isAlive_iff hn).2 hmem
    simp only [halive, Bool.not_true, Bool.false_eq_true, ↓reduceIte, hmem, not_true_eq_false]
    by_cases hcond : id.index = 0 ∨ id.index + 1 ≠ s.live
    · rw [if_pos hcond, if_pos ((h.pop_condition hn hmem).1 hcond)]
      rfl
    · rw [if_neg hcond, if_neg fun hc => hcond ((h.pop_condition hn hmem).2 hc)]
      have hlast : id.index = s.live - 1 := by omega
      have hdrop := h.dropLast (by omega)
      simpa [SameChange, Scopes.dropLast, Scopes.modify, hlast] using hdrop
  · have halive : s.isAlive id = false := Bool.eq_false_iff.2 fun ha => hmem ((h.isAlive_iff hn).1 ha)
    simp only [halive, Bool.not_false, ↓reduceIte, hmem, not_false_eq_true]
    rfl

/-- The generation of a new scope is larger than that of every handle on its slot, and no larger than the number of
handles. -/
private theorem push_generation (h : Represents s handles m) (hroom : handles.length < UInt32.size)
    (parent : ScopeId) :
    (s.push parent).2.generation.toNat ≤ handles.length ∧
      ∀ (n : Nat) (id : ScopeId), handles[n]? = some id → id.index = s.live →
        id.generation.toNat < (s.push parent).2.generation.toNat := by
  rw [Scopes.push_generation]
  cases hslot : s.slots[s.live]? with
  | none =>
    refine ⟨Nat.zero_le _, fun n id hn hi => ?_⟩
    obtain ⟨slot, hslot', -⟩ := h.handle n id hn
    rw [hi, hslot] at hslot'
    cases hslot'
  | some slot =>
    have hyoung := h.young _ _ hslot
    -- a slot has had fewer tenants than there are handles, so its generation does not wrap
    have hnext : (slot.generation + 1).toNat = slot.generation.toNat + 1 := by
      rw [UInt32.toNat_add]
      exact Nat.mod_eq_of_lt (by change slot.generation.toNat + 1 < UInt32.size; omega)
    simp only [Option.map_some, Option.getD_some, hnext]
    refine ⟨by omega, fun n id hn hi => ?_⟩
    obtain ⟨slot', hslot', hle, -⟩ := h.handle n id hn
    rw [hi, hslot] at hslot'
    obtain rfl := Option.some.inj hslot'
    omega

private theorem getElem?_append_of_some {l : List ScopeId} {k : Nat} {a : ScopeId} (b : ScopeId)
    (h : l[k]? = some a) : (l ++ [b])[k]? = some a := by
  rw [List.getElem?_append_left (List.getElem?_eq_some_iff.1 h).1, h]

private theorem matches_append {scope : Scope} {e : Entry} (h : Matches handles scope e) (new : ScopeId) :
    Matches (handles ++ [new]) scope e := by
  refine ⟨h.binding, h.struct, ?_⟩
  have hparent := h.parent
  cases hp : e.parent with
  | none => simpa [hp] using hparent
  | some p =>
    rw [hp] at hparent
    cases hs : scope.parent with
    | none => simp [hs] at hparent
    | some id =>
      simp only [hs, Option.map_some, Option.some.injEq] at hparent ⊢
      exact (getElem?_append_of_some new hparent.symm).symm

/-- What stands on the stack after a push stood there before, or is the new identity. -/
private theorem push_stack (h : Represents s handles m) {i k : Nat} (hi : (m.push n).stack[i]? = some k) :
    m.stack[i]? = some k ∨ i = s.live ∧ k = m.entries.length := by
  rw [ScopeModel.push] at hi
  by_cases hlt : i < m.stack.length
  · rw [List.getElem?_append_left hlt] at hi
    exact .inl hi
  · rw [List.getElem?_append_right (by omega), List.getElem?_singleton] at hi
    split at hi
    · exact .inr ⟨by rw [← h.live]; omega, (Option.some.inj hi).symm⟩
    · cases hi

private theorem push_tenant (h : Represents s handles m) (hn : handles[n]? = some id) {i k : Nat}
    (hi : (m.push n).stack[i]? = some k) :
    ∃ generation scope e, (s.push id).1.slots[i]? = some ⟨generation, scope⟩ ∧
      (handles ++ [(s.push id).2])[k]? = some ⟨i, generation⟩ ∧ entryOf? (m.push n).entries k = some e ∧
        Matches (handles ++ [(s.push id).2]) scope e := by
  rcases h.push_stack hi with hi | ⟨rfl, rfl⟩
  · obtain ⟨generation, scope, e, hslot, hhandle, he, hmatch⟩ := h.tenant i k hi
    have hlt : i < s.live := by
      rw [← h.live]
      exact (List.getElem?_eq_some_iff.1 hi).1
    have hk := ScopeModel.lt_of_entryOf? he
    refine ⟨generation, scope, e, ?_, getElem?_append_of_some _ hhandle, ?_, matches_append hmatch _⟩
    · rw [Scopes.push_slots_of_ne id (Nat.ne_of_lt hlt) h.stored, hslot]
    · simp [ScopeModel.push, entryOf?, Nat.ne_of_lt hk, he]
  · refine ⟨_, _, .empty (some n), Scopes.push_slots_self id h.stored, ?_, ?_, fun _ => rfl, fun _ => rfl, ?_⟩
    · rw [← h.count, List.getElem?_append_right (Nat.le_refl _)]
      simp only [Nat.sub_self, List.getElem?_cons_zero, ← Scopes.push_index (s := s) id]
    · simp [ScopeModel.push, entryOf?]
    · exact congrArg some (getElem?_append_of_some _ hn).symm

/-- An old handle stays what it was: if its slot is given to the new scope, then with a larger generation. -/
private theorem push_handle_old (h : Represents s handles m) (hroom : handles.length < UInt32.size) (id : ScopeId)
    {k : Nat} {kid : ScopeId} (hk : handles[k]? = some kid) :
    ∃ slot, (s.push id).1.slots[kid.index]? = some slot ∧ kid.generation.toNat ≤ slot.generation.toNat ∧
      (kid.index < (s.push id).1.live → kid.generation = slot.generation →
      (m.push n).stack[kid.index]? = some k) := by
  obtain ⟨slot, hslot, hle, htop⟩ := h.handle k kid hk
  by_cases hi : kid.index = s.live
  · have hlt := (h.push_generation hroom id).2 k kid hk hi
    rw [hi, Scopes.push_slots_self id h.stored]
    refine ⟨_, rfl, Nat.le_of_lt hlt, fun _ hg => ?_⟩
    rw [hg] at hlt
    exact absurd hlt (Nat.lt_irrefl _)
  · refine ⟨slot, by rw [Scopes.push_slots_of_ne id hi h.stored, hslot], hle, fun hlt hg => ?_⟩
    rw [Scopes.push_live] at hlt
    have hlt' : kid.index < s.live := by omega
    rw [ScopeModel.push, List.getElem?_append_left (by rw [h.live]; exact hlt'), htop hlt' hg]

private theorem push_handle (h : Represents s handles m) (hroom : handles.length < UInt32.size) (id : ScopeId)
    {k : Nat} {kid : ScopeId} (hk : (handles ++ [(s.push id).2])[k]? = some kid) :
    ∃ slot, (s.push id).1.slots[kid.index]? = some slot ∧ kid.generation.toNat ≤ slot.generation.toNat ∧
      (kid.index < (s.push id).1.live → kid.generation = slot.generation →
      (m.push n).stack[kid.index]? = some k) := by
  by_cases hold : k < handles.length
  · rw [List.getElem?_append_left hold] at hk
    exact h.push_handle_old hroom id hk
  · obtain rfl : k = handles.length := by
      have := (List.getElem?_eq_some_iff.1 hk).1
      simp only [List.length_append, List.length_cons, List.length_nil] at this
      omega
    obtain rfl : (s.push id).2 = kid := by simpa using hk
    rw [Scopes.push_index, Scopes.push_slots_self id h.stored]
    refine ⟨_, rfl, Nat.le_refl _, fun _ _ => ?_⟩
    rw [ScopeModel.push, ← h.live, List.getElem?_append_right (Nat.le_refl _)]
    simp [h.count]

private theorem push (h : Represents s handles m) (hroom : handles.length < UInt32.size)
    (hn : handles[n]? = some id) :
    Represents (s.push id).1 (handles ++ [(s.push id).2]) (m.push n) where
  count := by simp [ScopeModel.push, h.count]
  live := by simp [ScopeModel.push, h.live]
  stored := by
    rw [Scopes.push_live]
    exact (Array.getElem?_eq_some_iff.1 (Scopes.push_slots_self id h.stored)).1
  root := by
    have h0 : 0 < m.stack.length := (List.getElem?_eq_some_iff.1 h.root).1
    change (m.stack ++ [m.entries.length])[0]? = some 0
    rw [List.getElem?_append_left h0, h.root]
  sorted := by
    simp only [ScopeModel.push, List.pairwise_append, List.pairwise_singleton, List.mem_singleton,
      forall_eq, true_and]
    refine ⟨h.sorted, fun k hk => ?_⟩
    obtain ⟨i, hi⟩ := List.mem_iff_getElem?.1 hk
    obtain ⟨-, -, e, -, -, he, -⟩ := h.tenant i k hi
    exact ScopeModel.lt_of_entryOf? he
  parents := by
    intro k e parent hk hp
    by_cases hnew : k = m.entries.length
    · simp only [ScopeModel.push, entryOf?, hnew, ↓reduceIte, Option.some.injEq] at hk
      subst hk
      obtain rfl := Option.some.inj hp
      rw [hnew, ← h.count]
      exact (List.getElem?_eq_some_iff.1 hn).1
    · simp only [ScopeModel.push, entryOf?, hnew, ↓reduceIte] at hk
      exact h.parents k e parent hk hp
  tenant _ _ hi := h.push_tenant hn hi
  handle _ _ hk := h.push_handle hroom id hk
  young := by
    intro i slot hi
    simp only [List.length_append, List.length_cons, List.length_nil]
    by_cases hlast : i = s.live
    · rw [hlast, Scopes.push_slots_self id h.stored] at hi
      obtain rfl := Option.some.inj hi
      exact Nat.lt_succ_of_le (h.push_generation hroom id).1
    · rw [Scopes.push_slots_of_ne id hlast h.stored] at hi
      have := h.young i slot hi
      omega
  distinct := by
    rw [List.nodup_append]
    refine ⟨h.distinct, by simp, ?_⟩
    intro kid hkid new hnew heq
    obtain rfl : new = (s.push id).2 := by simpa using hnew
    obtain ⟨k, hk⟩ := List.mem_iff_getElem?.1 hkid
    have hlt := (h.push_generation hroom id).2 k kid hk (by rw [heq, Scopes.push_index])
    rw [heq] at hlt
    exact absurd hlt (Nat.lt_irrefl _)

end Represents

/-! ### Scripts -/

/-- The answers are the same, where a handle stands for the identity it was given out for. -/
private def SameAnswer (handles : List ScopeId) (a : ScopeAnswer ScopeId) (a' : ScopeAnswer Nat) : Prop :=
  a.map some = a'.map (handles[·]?)

private theorem SameAnswer.append {handles : List ScopeId} {a : ScopeAnswer ScopeId} {a' : ScopeAnswer Nat}
    (h : SameAnswer handles a a') (more : List ScopeId) : SameAnswer (handles ++ more) a a' := by
  have hkeep : ∀ {n : Nat} {id : ScopeId}, some id = handles[n]? → some id = (handles ++ more)[n]? := by
    intro n id hn
    rw [List.getElem?_append_left (List.getElem?_eq_some_iff.1 hn.symm).1, hn]
  unfold SameAnswer at h ⊢
  cases a' with
  | opened n =>
    cases a with
    | opened id => exact congrArg _ (hkeep (ScopeAnswer.opened.inj h))
    | _ => cases h
  | owner n =>
    cases a with
    | owner id => exact congrArg _ (hkeep (ScopeAnswer.owner.inj h))
    | _ => cases h
  | _ => exact h

namespace Represents

variable {s : Scopes} {handles : List ScopeId} {m : ScopeModel} {n : Nat} {id : ScopeId}

/-- A question about a name is answered alike. -/
private theorem query_same (h : Represents s handles m) (name : String) (hn : handles[n]? = some id) {α : Type}
    {f : ScopeId × Binding → α} {answer : α → ScopeAnswer ScopeId} {answer' : Nat × Binding → ScopeAnswer Nat}
    (hanswer : ∀ k kid b, handles[k]? = some kid → SameAnswer handles (answer (f (kid, b))) (answer' (k, b))) :
    SameAnswer handles (.ofQuery answer ((s.lookup id name).map f)) (.ofQuery answer' (m.lookup n name)) := by
  rcases h.lookup_cases name hn with ⟨e, hs, hm⟩ | ⟨k, kid, e, b, hs, hm, hk, -⟩
  · rw [hs, hm]
    rfl
  · rw [hs, hm]
    exact hanswer k kid b hk

/-- A change that succeeds or fails alike is answered alike. -/
private theorem change_same (h : Represents s handles m) {x : Except ScopeError Scopes}
    {y : Except ScopeError ScopeModel} (hxy : SameChange handles x y) :
    Represents (ScopeAnswer.ofChange (H := ScopeId) s x).2 handles (ScopeAnswer.ofChange (H := Nat) m y).2 ∧
      SameAnswer handles (ScopeAnswer.ofChange s x).1 (ScopeAnswer.ofChange m y).1 := by
  cases x with
  | ok t =>
    cases y with
    | ok m' => exact ⟨hxy, rfl⟩
    | error e => exact absurd hxy not_false
  | error e =>
    cases y with
    | ok m' => exact absurd hxy not_false
    | error e' =>
      obtain rfl : e = e' := hxy
      exact ⟨h, rfl⟩

/-- Every operation but `push` leaves the handles as they are. -/
private theorem perform_same (h : Represents s handles m) (hn : handles[n]? = some id) {action : ScopeAction}
    (hpush : action ≠ .push) :
    Represents (s.perform id action).2 handles (m.perform n action).2 ∧
      SameAnswer handles (s.perform id action).1 (m.perform n action).1 := by
  cases action with
  | push => exact absurd rfl hpush
  | pop => exact h.change_same (h.pop hn)
  | declare name b => exact h.change_same (h.declare name b hn)
  | assign name value => exact h.change_same (h.assign name value hn)
  | get name => exact ⟨h, h.query_same name hn fun _ _ _ _ => rfl⟩
  | resolve name => exact ⟨h, h.query_same name hn fun _ _ _ hk => congrArg _ hk.symm⟩
  | isConstant name => exact ⟨h, h.query_same name hn fun _ _ _ _ => rfl⟩
  | isAlive =>
    have hflag : s.isAlive id = decide (n ∈ m.stack) :=
      Bool.eq_iff_iff.2 ((h.isAlive_iff hn).trans decide_eq_true_iff.symm)
    exact ⟨h, congrArg ScopeAnswer.flag hflag⟩
  | declareStruct d => exact h.change_same (h.declareStruct d hn)
  | getStruct name =>
    refine ⟨h, ?_⟩
    change SameAnswer handles (.ofQuery .struct (s.getStruct id name)) (.ofQuery .struct (m.getStruct n name))
    rw [h.getStruct_same name hn]
    cases m.getStruct n name <;> rfl
  | depth => exact ⟨h, congrArg ScopeAnswer.count h.live.symm⟩

end Represents

namespace Scopes.Replay

variable {r : Replay} {m : ScopeModel}

private theorem perform_ne_opened (s : Scopes) (id new : ScopeId) {action : ScopeAction}
    (h : action.isPush = false) : (s.perform id action).1 ≠ .opened new := by
  have hchange : ∀ x : Except ScopeError Scopes, (ScopeAnswer.ofChange s x).1 ≠ .opened new := by
    intro x
    cases x <;> exact nofun
  have hquery : ∀ {α : Type} (answer : α → ScopeAnswer ScopeId) (x : Except ScopeError α),
      (∀ a, answer a ≠ .opened new) → ScopeAnswer.ofQuery answer x ≠ .opened new := by
    intro α answer x ha
    cases x with
    | ok a => exact ha a
    | error e => exact nofun
  cases action with
  | push => cases h
  | pop => exact hchange _
  | declare name b => exact hchange _
  | assign name value => exact hchange _
  | get name => exact hquery _ _ nofun
  | resolve name => exact hquery _ _ nofun
  | isConstant name => exact hquery _ _ nofun
  | isAlive => exact nofun
  | declareStruct d => exact hchange _
  | getStruct name => exact hquery _ _ nofun
  | depth => exact nofun

private theorem step_of_not_push {number : Nat} {id : ScopeId} {action : ScopeAction}
    (hn : r.handles[number]? = some id) (h : action.isPush = false) :
    r.step number action = ((r.scopes.perform id action).1, ⟨(r.scopes.perform id action).2, r.handles⟩) := by
  simp only [step, hn]
  have hne := fun new => perform_ne_opened r.scopes id new h
  generalize r.scopes.perform id action = result at hne ⊢
  obtain ⟨answer, scopes⟩ := result
  cases answer with
  | opened new => exact absurd rfl (hne new)
  | _ => rfl

/-- One operation: both sides still stand for each other and answer alike, and a handle is added only by `push`. -/
private theorem step_same (h : Represents r.scopes r.handles m) (number : Nat) (action : ScopeAction)
    (hroom : action.isPush = true → r.handles.length < UInt32.size) :
    Represents (r.step number action).2.scopes (r.step number action).2.handles (m.step number action).2 ∧
      SameAnswer (r.step number action).2.handles (r.step number action).1 (m.step number action).1 ∧
      ∃ more, (r.step number action).2.handles = r.handles ++ more ∧
      more.length ≤ if action.isPush then 1 else 0 := by
  cases hn : r.handles[number]? with
  | none =>
    have hlt : ¬ number < m.entries.length := by
      rw [← h.count]
      exact Nat.not_lt.2 (List.getElem?_eq_none_iff.1 hn)
    simp only [step, hn, ScopeModel.step, hlt, ↓reduceIte]
    exact ⟨h, rfl, [], by simp, by simp⟩
  | some id =>
    have hlt : number < m.entries.length := by
      rw [← h.count]
      exact (List.getElem?_eq_some_iff.1 hn).1
    simp only [ScopeModel.step, hlt, ↓reduceIte]
    cases hp : action.isPush with
    | false =>
      have hne : action ≠ .push := by
        rintro rfl
        cases hp
      rw [step_of_not_push hn hp]
      obtain ⟨hrep, hanswer⟩ := h.perform_same hn hne
      exact ⟨hrep, hanswer, [], by simp, by simp⟩
    | true =>
      obtain rfl : action = .push := by
        cases action with
        | push => rfl
        | _ => cases hp
      simp only [step, hn, perform, ScopeModel.perform]
      refine ⟨h.push (hroom hp) hn, ?_, [(r.scopes.push id).2], rfl, by simp⟩
      apply congrArg ScopeAnswer.opened
      rw [← h.count]
      simp

private theorem run_same (h : Represents r.scopes r.handles m) (script : ScopeScript)
    (hroom : r.handles.length + script.pushes ≤ UInt32.size) :
    Represents (r.run script).2.scopes (r.run script).2.handles (m.run script).2 ∧
      (∃ more, (r.run script).2.handles = r.handles ++ more) ∧
      List.map (·.map some) (r.run script).1 = List.map (·.map ((r.run script).2.handles[·]?)) (m.run script).1 := by
  induction script generalizing r m with
  | nil => exact ⟨h, ⟨[], by simp [run]⟩, rfl⟩
  | cons op script ih =>
    obtain ⟨number, action⟩ := op
    have hpushes : ScopeScript.pushes ((number, action) :: script) =
        ScopeScript.pushes script + if action.isPush then 1 else 0 := List.countP_cons
    obtain ⟨hrep, hanswer, more, hmore, hlength⟩ := step_same h number action fun hp => by
      rw [hpushes, if_pos hp] at hroom
      omega
    have hroom' : (r.step number action).2.handles.length + ScopeScript.pushes script ≤ UInt32.size := by
      rw [hmore, List.length_append]
      omega
    obtain ⟨hrep', ⟨more', hmore'⟩, hanswers⟩ := ih hrep hroom'
    refine ⟨hrep', ⟨more ++ more', ?_⟩, ?_⟩
    · change ((r.step number action).2.run script).2.handles = _
      rw [hmore', hmore, List.append_assoc]
    · have hfirst := hanswer.append more'
      rw [← hmore'] at hfirst
      exact List.cons_eq_cons.2 ⟨hfirst, hanswers⟩

/-- Scopes in reused slots answer every script as the reference in which every scope has an identity of its own, as
long as it creates fewer scopes than there are generations: the answers are the same, errors included, with the
handle that was given out for a scope in place of its identity, and different scopes have different handles.  And
every walk through the parents of a scope comes to an end. -/
theorem run_eq (script : ScopeScript) (h : script.pushes < UInt32.size) :
    (start.run script).1.map (·.map some) =
        (ScopeModel.initial.run script).1.map (·.map ((start.run script).2.handles[·]?)) ∧
      (start.run script).2.handles.Nodup ∧
      ∀ id ∈ (start.run script).2.handles, ∀ name,
        ((start.run script).2.scopes.walk (·.binding? name) (start.run script).2.scopes.live id).isSome ∧
        ((start.run script).2.scopes.walk (·.struct? name) (start.run script).2.scopes.live id).isSome := by
  have hstart : Represents start.scopes start.handles .initial := Represents.initial
  have hroom : start.handles.length + script.pushes ≤ UInt32.size := by
    change 1 + script.pushes ≤ UInt32.size
    omega
  obtain ⟨hrep, -, hanswers⟩ := run_same hstart script hroom
  refine ⟨hanswers, hrep.distinct, fun id hid name => ?_⟩
  obtain ⟨n, hn⟩ := List.mem_iff_getElem?.1 hid
  have hbinding := (hrep.search_same (·.binding? name) (·.binding name) (fun _ _ hm => hm.binding name) hn).1
  have hstruct := (hrep.search_same (·.struct? name) (·.struct name) (fun _ _ hm => hm.struct name) hn).1
  exact ⟨by rw [hbinding]; rfl, by rw [hstruct]; rfl⟩

/-- A scope is removed and its handle used again, as a parent and by itself. -/
private def deadParent : ScopeScript :=
  [(0, .push), (1, .pop), (1, .push), (2, .get "x"), (1, .isAlive), (1, .pop), (0, .pop), (2, .depth)]

theorem run_eq_deadParent :
    deadParent.pushes < UInt32.size ∧
      (start.run deadParent).1.map (·.map some) =
        [.opened (some ⟨1, 0⟩), .done, .opened (some ⟨1, 1⟩), .failed .stale, .flag false, .failed .stale,
          .failed .outOfOrder, .count 2] :=
  ⟨by decide, (run_eq deadParent (by decide)).1.trans rfl⟩

end Scopes.Replay

end BraceScript
