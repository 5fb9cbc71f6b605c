import BraceScript.Proofs.ParallelSessions

/-!
# Runs side by side

The same code, run in two sessions that are side by side, does the same in both: it yields the same value, up to the
scopes of functions, or fails with the same error, and it leaves the sessions side by side (`Eval.Simulates`).  So it
does not matter that there is an additional scope in one of them.  As in other inductions over the evaluators there
is a rule for each step and for each way of putting steps together, and then one induction on the fuel (`simulated`).
-/

namespace BraceScript

/-! ### Computations side by side -/

namespace Pairing

variable {α β : Type}

/-- Results that go together do so as more handles go together. -/
def Stable (R : Pairing → α → β → Prop) : Prop := ∀ π ρ a b, Extends π ρ → R π a b → R ρ a b

/-- Results without functions. -/
def Same (_ : Pairing) (a b : α) : Prop := b = a

/-- Lists of results, one by one. -/
private def Each (R : Pairing → α → β → Prop) (π : Pairing) (as : List α) (bs : List β) : Prop :=
  List.Forall₂ (R π) as bs

/-- Both results are the same error, or `R` relates them. -/
private inductive Alike {ε : Type} (R : α → β → Prop) : Except ε α → Except ε β → Prop
  | ok {a : α} {b : β} (h : R a b) : Alike R (.ok a) (.ok b)
  | error (e : ε) : Alike R (.error e) (.error e)

private theorem stable_same : Stable (@Same α) := fun _ _ _ _ _ h => h

private theorem stable_matches : Stable Matches := fun _ _ _ _ h hv => h.matches hv

private theorem stable_each {R : Pairing → α → β → Prop} (hR : Stable R) : Stable (Each R) :=
  fun _ _ _ _ h hab => hab.imp fun _ _ => hR _ _ _ _ h

private theorem stable_field : Stable MatchesField := fun _ _ _ _ h hf => ⟨hf.1, h.matches hf.2⟩

/-- Results that are the same under `f` and `g`. -/
private theorem alike_of_map {γ ε : Type} {f : α → γ} {g : β → γ} {r : Except ε α} {r' : Except ε β}
    (h : r.map f = r'.map g) : Alike (fun a b => f a = g b) r r' := by
  cases r with
  | error e =>
    cases r' with
    | error e' =>
      obtain rfl : e = e' := Except.error.inj h
      exact .error e
    | ok b => cases h
  | ok a =>
    cases r' with
    | error e' => cases h
    | ok b => exact .ok (Except.ok.inj h)

/-! ### Operations on values -/

section

variable {π : Pairing} {v v' w w' : Value}

private theorem Matches.typeName (hv : π.Matches v v') : v'.typeName = v.typeName := by
  rw [← Value.typeName_relabel v', ← hv, Value.typeName_relabel]

theorem Matches.isTruthy (hv : π.Matches v v') : v'.isTruthy = v.isTruthy := by
  rw [← Value.isTruthy_relabel v', ← hv, Value.isTruthy_relabel]

private theorem Matches.retag (hv : π.Matches v v') (hw : π.Matches w w') :
    Alike π.Matches (v.retag w) (v'.retag w') := by
  unfold Matches at hv hw
  refine alike_of_map ?_
  rw [← Value.retag_relabel, ← Value.retag_relabel, hv, hw]

private theorem Matches.binary (op : BinaryOp) (hv : π.Matches v v') (hw : π.Matches w w') :
    Alike π.Matches (Value.binary op v w) (Value.binary op v' w') := by
  unfold Matches at hv hw
  refine alike_of_map ?_
  rw [← Value.binary_relabel, ← Value.binary_relabel, hv, hw]

private theorem Matches.unary (op : UnaryOp) (hv : π.Matches v v') :
    Alike π.Matches (Value.unary op v) (Value.unary op v') := by
  unfold Matches at hv
  refine alike_of_map ?_
  rw [← Value.unary_relabel, ← Value.unary_relabel, hv]

private theorem Matches.conform (type : Ty) (hv : π.Matches v v') :
    Alike π.Matches (v.conform type) (v'.conform type) := by
  unfold Matches at hv
  refine alike_of_map ?_
  rw [← Value.conform_relabel, ← Value.conform_relabel, hv]

private theorem Alike.mapError {ε ε' : Type} {R : α → β → Prop} {r : Except ε α} {r' : Except ε β} (h : Alike R r r')
    (f : ε → ε') : Alike R (r.mapError f) (r'.mapError f) := by
  cases h with
  | ok h => exact .ok h
  | error e => exact .error (f e)

private theorem Matches.readProperty (name : Ident) (hv : π.Matches v v') :
    Alike π.Matches (v.readProperty name) (v'.readProperty name) := by
  unfold Matches at hv
  refine alike_of_map ?_
  rw [← Value.readProperty_relabel, ← Value.readProperty_relabel, hv]

/-- Pairs of values. -/
private def Both (π : Pairing) (p q : Value × Value) : Prop := π.Matches p.1 q.1 ∧ π.Matches p.2 q.2

private theorem stable_both : Stable Both := fun _ _ _ _ h hp => ⟨h.matches hp.1, h.matches hp.2⟩

private theorem Matches.setProperty (op : Located AssignOp) (span : Span) (path : List Ident) (hv : π.Matches v v')
    (hw : π.Matches w w') :
    Alike π.Both (Value.setProperty op v span path w) (Value.setProperty op v' span path w') := by
  unfold Matches at hv hw
  have hset := Value.setProperty_relabel (f := π.left) op v span path w
  rw [hv, hw, Value.setProperty_relabel] at hset
  have halike := alike_of_map hset.symm
  simp only [Prod.mk.injEq] at halike
  exact halike

private theorem setField_matches (name : String) (hv : π.Matches v v') {fs fs' : List (String × Value)}
    (hfs : Each MatchesField π fs fs') :
    Each MatchesField π (Value.setField name v fs) (Value.setField name v' fs') := by
  unfold Each at hfs ⊢
  unfold Matches at hv
  rw [matchesFields_iff] at hfs ⊢
  rw [← Value.setField_relabel, ← Value.setField_relabel, hv, hfs]

private theorem setFields_matches {values values' fs fs' : List (String × Value)}
    (hvalues : Each MatchesField π values values') (hfs : Each MatchesField π fs fs') :
    Each MatchesField π (values.foldl (fun all (n, v) => Value.setField n v all) fs)
      (values'.foldl (fun all (n, v) => Value.setField n v all) fs') := by
  induction hvalues generalizing fs fs' with
  | nil => exact hfs
  | @cons f f' values values' hf _ ih =>
    obtain ⟨n, v⟩ := f
    obtain ⟨n', v'⟩ := f'
    obtain rfl : n = n' := hf.1
    exact ih (setField_matches n hf.2 hfs)

private theorem defaultFields_matches (d : StructDecl) :
    Each MatchesField π (Eval.defaultFields d) (Eval.defaultFields d) := by
  have hdefault : ∀ t, π.Matches (Value.defaultFor t) (Value.defaultFor t) := by
    intro t
    unfold Matches
    rw [Value.relabel_defaultFor, Value.relabel_defaultFor]
  unfold Eval.defaultFields
  generalize hfs : ([] : List (String × Value)) = fs
  have hself : Each MatchesField π fs fs := by
    rw [← hfs]
    exact .nil
  clear hfs
  induction d.properties generalizing fs with
  | nil => exact hself
  | cons p properties ih =>
    rw [List.foldl_cons]
    apply ih
    split
    · exact hself
    · exact setField_matches p.name.name (hdefault p.type) hself

end

end Pairing

/-- Two computations that have started in `s` and `s'` have ended alike, with sessions side by side and results that
`R` relates, or for lack of fuel. -/
inductive Outcome.Parallel {α β : Type} (gap : Option Nat) (R : Pairing → α → β → Prop) (s s' : Session) :
    Outcome α → Outcome β → Prop
  | done {a : α} {b : β} {t t' : Session} (h : Session.Follow gap s s' t t') (hab :
      R (Session.pairing gap t t') a b) :
    Outcome.Parallel gap R s s' (.done a t) (.done b t')
  | failed {e : RuntimeError} {t t' : Session} (h : Session.Follow gap s s' t t') :
    Outcome.Parallel gap R s s' (.failed e t) (.failed e t')
  | exhausted (t t' : Session) : Outcome.Parallel gap R s s' (.exhausted t) (.exhausted t')

namespace Outcome.Parallel

variable {α β : Type} {gap : Option Nat} {R : Pairing → α → β → Prop} {s s' t t' : Session}
  {o : Outcome α} {o' : Outcome β}

private theorem after (h : o.Parallel gap R t t' o') (hst : Session.Follow gap s s' t t') :
    o.Parallel gap R s s' o' := by
  cases h with
  | done h hab => exact .done (hst.trans h) hab
  | failed h => exact .failed (hst.trans h)
  | exhausted t t' => exact .exhausted t t'

end Outcome.Parallel

namespace Eval

variable {α β γ δ : Type} {gap : Option Nat} {π : Pairing} {c c' : ScopeId} {R : Pairing → α → β → Prop}
  {Q : Pairing → γ → δ → Prop} {x : Eval α} {x' : Eval β}

/-- In sessions side by side in which the handles of `π` go together and in which names are looked up from `c` and
from `c'`, both computations end alike, as long as not too many scopes are entered. -/
def Simulates (gap : Option Nat) (π : Pairing) (c c' : ScopeId) (R : Pairing → α → β → Prop) (x : Eval α)
    (x' : Eval β) : Prop :=
  ∀ s s' : Session, s.Parallel gap s' → π.Extends (s.pairing gap s') → Scopes.Sees gap s.scopes s'.scopes c c' →
    Event.entries (x' s').session.events < 4294967296 → (x s).Parallel gap R s s' (x' s')

theorem simulates_pure (hR : Pairing.Stable R) {a : α} {b : β} (hab : R π a b) :
    Simulates gap π c c' R (pure a) (pure b) := fun _ _ hs hπ _ _ => .done (.refl hs) (hR _ _ _ _ hπ hab)

private theorem simulates_fail (cause : RuntimeError.Cause) (span : Span) :
    Simulates gap π c c' R (fail cause span) (fail cause span) := fun _ _ hs _ _ _ => .failed (.refl hs)

theorem simulates_exhausted : Simulates gap π c c' R exhausted exhausted := fun s s' _ _ _ _ => .exhausted s s'

private theorem simulates_record {e e' : Event} (he : e.IsRemark) (he' : e'.IsRemark) :
    Simulates gap π c c' Pairing.Same (record e) (record e') :=
  fun _ _ hs _ _ _ => .done (hs.note he.isPlain he'.isPlain) rfl

/-- What the second computation enters in its first part counts for both parts. -/
private theorem entries_bind {f : β → Eval δ} (hgrows : ∀ b, Grows c' (f b)) (s : Session) :
    Event.entries (x' s).session.events ≤ Event.entries ((x' >>= f) s).session.events := by
  cases h : x' s with
  | done b t =>
    rw [bind_of_done h]
    exact Event.entries_le (hgrows b t)
  | failed e t =>
    rw [bind_of_failed h]
    exact Nat.le_refl _
  | exhausted t =>
    rw [bind_of_exhausted h]
    exact Nat.le_refl _

private theorem Simulates.bind_of_few {f : α → Eval γ} {f' : β → Eval δ} (hx : Simulates gap π c c' R x x')
    (hfirst : ∀ s, Event.entries s.events < 4294967296 →
      Event.entries ((x' >>= f') s).session.events < 4294967296 → Event.entries (x' s).session.events < 4294967296)
    (hf : ∀ ρ a b, π.Extends ρ → R ρ a b → Simulates gap ρ c c' Q (f a) (f' b)) :
    Simulates gap π c c' Q (x >>= f) (x' >>= f') := by
  intro s s' hs hπ hc hfew
  have hstart := hx s s' hs hπ hc (hfirst s' hs.few hfew)
  generalize hxs : x s = o at hstart
  generalize hxs' : x' s' = o' at hstart
  cases hstart with
  | @done a b t t' ht hab =>
    rw [bind_of_done hxs'] at hfew
    rw [bind_of_done hxs, bind_of_done hxs']
    exact (hf _ a b (hπ.trans ht.joined) hab t t' ht.parallel (.refl _) (ht.sees hc) hfew).after ht
  | failed ht =>
    rw [bind_of_failed hxs, bind_of_failed hxs']
    exact .failed ht
  | exhausted t t' =>
    rw [bind_of_exhausted hxs, bind_of_exhausted hxs']
    exact .exhausted t t'

/-- The second part of the second computation must not forget what has happened, so that the scopes that are entered
in the first part are counted. -/
theorem Simulates.bind {f : α → Eval γ} {f' : β → Eval δ} (hx : Simulates gap π c c' R x x')
    (hgrows : ∀ b, Grows c' (f' b)) (hf : ∀ ρ a b, π.Extends ρ → R ρ a b → Simulates gap ρ c c' Q (f a) (f' b)) :
    Simulates gap π c c' Q (x >>= f) (x' >>= f') :=
  hx.bind_of_few (fun s _ hfew => Nat.lt_of_le_of_lt (entries_bind hgrows s) hfew) hf

/-- A first part that enters no scope. -/
private theorem Simulates.bind_reads {f : α → Eval γ} {f' : β → Eval δ} (hx : Simulates gap π c c' R x x')
    (hreads : x'.Reads) (hf : ∀ ρ a b, π.Extends ρ → R ρ a b → Simulates gap ρ c c' Q (f a) (f' b)) :
    Simulates gap π c c' Q (x >>= f) (x' >>= f') := by
  refine hx.bind_of_few (fun s hs _ => ?_) hf
  rcases hreads.cases s with ⟨b, hb⟩ | ⟨e, he⟩
  · rw [hb]
    exact hs
  · rw [he]
    exact hs

private theorem simulates_ofExcept (hR : Pairing.Stable R) {r : Except RuntimeError.Cause α}
    {r' : Except RuntimeError.Cause β} (h : Pairing.Alike (R π) r r') (span : Span) :
    Simulates gap π c c' R (ofExcept span r) (ofExcept span r') := by
  cases h with
  | ok h => exact simulates_pure hR h
  | error e => exact simulates_fail e span

private theorem simulates_checked (hR : Pairing.Stable R) {r : Except Mismatch α} {r' : Except Mismatch β}
    (h : Pairing.Alike (R π) r r') (span : Span) : Simulates gap π c c' R (checked span r) (checked span r') := by
  cases h with
  | ok h => exact simulates_pure hR h
  | error m => exact simulates_fail _ span

private theorem simulates_located (hR : Pairing.Stable R) {r : Except RuntimeError α} {r' : Except RuntimeError β}
    (h : Pairing.Alike (R π) r r') : Simulates gap π c c' R (located r) (located r') := by
  cases h with
  | ok h => exact simulates_pure hR h
  | error e => exact simulates_fail e.cause e.span

/-! ### Names -/

variable {v v' w w' : Value}

private theorem simulates_lookup (id : Ident) :
    Simulates gap π c c' Pairing.Matches (lookup c id) (lookup c' id) := by
  intro s s' hs _ hc _
  unfold lookup Scopes.get
  rcases hs.scopes.lookup hc id.name with ⟨hl, hl'⟩ | ⟨o, b, o', b', hl, hl', -, hb⟩
  · rw [hl, hl', hs.builtins]
    simp only [Except.map]
    split
    · exact .done (.refl hs) (Pairing.matches_of_isFlat rfl)
    · exact .failed (.refl hs)
  · rw [hl, hl']
    exact .done (.refl hs) hb.2

private theorem simulates_valueOf (name : String) (span : Span) :
    Simulates gap π c c' Pairing.Matches (valueOf c name span) (valueOf c' name span) := by
  intro s s' hs _ hc _
  rcases hs.scopes.lookup hc name with ⟨hl, hl'⟩ | ⟨o, b, o', b', hl, hl', -, hb⟩
  · rw [valueOf_of_notDeclared hl, valueOf_of_notDeclared hl']
    exact .failed (.refl hs)
  · rw [valueOf_of_ok hl, valueOf_of_ok hl']
    exact .done (.refl hs) hb.2

private theorem simulates_isConstant (name : String) (span : Span) :
    Simulates gap π c c' Pairing.Same (query name span (·.isConstant c name))
      (query name span (·.isConstant c' name)) := by
  intro s s' hs _ hc _
  rcases hs.scopes.lookup hc name with ⟨hl, hl'⟩ | ⟨o, b, o', b', hl, hl', -, hb⟩
  · simp only [query, Scopes.isConstant, hl, hl', Except.map]
    exact .failed (.refl hs)
  · simp only [query, Scopes.isConstant, hl, hl', Except.map]
    exact .done (.refl hs) hb.1

private theorem simulates_replace (name : Ident) (hv : π.Matches v v') :
    Simulates gap π c c' Pairing.Same (replace c name v) (replace c' name v') := by
  intro s s' hs hπ hc _
  rcases hs.scopes.lookup hc name.name with ⟨hl, hl'⟩ | ⟨o, b, o', b', hl, hl', ho, hb⟩
  · simp only [replace, Scopes.assign, hl, hl']
    exact .failed (.refl hs)
  · cases hconstant : b.isConstant with
    | true =>
      rw [replace_of_constant hl hconstant, replace_of_constant hl' (hb.1.trans hconstant)]
      exact .failed (.refl hs)
    | false =>
      rw [replace_of_ok hl hconstant, replace_of_ok hl' (hb.1.trans hconstant)]
      have hnote : Session.Follow gap s s' (s.note (.assigned s.scopes c name.name))
          (s'.note (.assigned s'.scopes c' name.name)) := hs.note trivial trivial
      have hset := hs.scopes.set ho name.name (hπ.matches hv)
      exact .done (hnote.trans (hnote.parallel.modify (fun _ => rfl) (fun _ => rfl) hset)) rfl

private theorem simulates_structNamed (name : Ident) :
    Simulates gap π c c' Pairing.Same (structNamed c name) (structNamed c' name) := by
  intro s s' hs _ hc _
  unfold structNamed
  rcases hs.scopes.getStruct hc name.name with ⟨hd, hd'⟩ | ⟨d, hd, hd'⟩
  · rw [hd, hd']
    exact .failed (.refl hs)
  · rw [hd, hd']
    exact .done (.refl hs) rfl

/-- Only in corresponding scopes can names be declared on both sides. -/
theorem simulates_declare (hjoins : π.Joins c c') (name : Ident) (hv : π.Matches v v') (isConstant : Bool) :
    Simulates gap π c c' Pairing.Same (declare c name v isConstant) (declare c' name v' isConstant) := by
  intro s s' hs hπ hc _
  have hlinked := Scopes.Linked.of_joins (hπ _ _ hjoins) hc.left
  obtain ⟨a, hget⟩ := Option.isSome_iff_exists.1 hc.left
  obtain ⟨a', hget'⟩ := Option.isSome_iff_exists.1 hc.right
  have hname := (hs.scopes.scope hget hget' hlinked.place).binding name.name
  simp only [declare, change, Scopes.declare, hget, hget']
  generalize a.binding? name.name = b at hname
  generalize a'.binding? name.name = b' at hname
  cases hname with
  | some _ => exact .failed (.refl hs)
  | none =>
    exact .done (hs.modify (fun _ => rfl) (fun _ => rfl) (hs.scopes.bind hlinked name.name ⟨rfl, hπ.matches hv⟩)) rfl

private theorem simulates_declareStruct (hjoins : π.Joins c c') (d : StructDecl) :
    Simulates gap π c c' Pairing.Same (change d.name.name d.name.span (·.declareStruct c d))
      (change d.name.name d.name.span (·.declareStruct c' d)) := by
  intro s s' hs hπ hc _
  have hlinked := Scopes.Linked.of_joins (hπ _ _ hjoins) hc.left
  obtain ⟨a, hget⟩ := Option.isSome_iff_exists.1 hc.left
  obtain ⟨a', hget'⟩ := Option.isSome_iff_exists.1 hc.right
  have hstructs : a'.struct? d.name.name = a.struct? d.name.name := by
    unfold Scope.struct?
    rw [(hs.scopes.scope hget hget' hlinked.place).structs]
  simp only [change, Scopes.declareStruct, hget, hget', hstructs]
  cases a.struct? d.name.name with
  | some _ => exact .failed (.refl hs)
  | none => exact .done (hs.modify (fun _ => rfl) (fun _ => rfl) (hs.scopes.declareStruct hlinked d)) rfl

/-! ### Assignments and properties -/

private theorem simulates_store (id : Ident) (hv : π.Matches v v') (span : Span) :
    Simulates gap π c c' Pairing.Matches (store c id v span) (store c' id v' span) := by
  refine (simulates_valueOf id.name span).bind_reads (reads_query _ _ _) fun ρ old old' hρ hold => ?_
  refine (simulates_isConstant id.name span).bind_reads (reads_query _ _ _) fun σ isConstant _ hσ hconstant => ?_
  cases hconstant
  cases isConstant with
  | true => exact simulates_fail _ _
  | false =>
    have hretag := (hσ.matches hold).retag ((hρ.trans hσ).matches hv)
    refine (simulates_checked Pairing.stable_matches hretag span).bind_reads (reads_checked _ _)
      fun τ new new' _ hnew => ?_
    refine (simulates_replace id hnew).bind (fun _ => (reads_pure _).grows) fun υ _ _ hυ _ => ?_
    exact simulates_pure Pairing.stable_matches (hυ.matches hnew)

private theorem simulates_assign (target : Expr) (op : Located AssignOp) (hv : π.Matches v v') (span : Span) :
    Simulates gap π c c' Pairing.Matches (assign c target op v span) (assign c' target op v' span) := by
  unfold assign
  split
  · split
    · exact simulates_store _ hv span
    · refine (simulates_valueOf _ span).bind_reads (reads_query _ _ _) fun ρ old old' hρ hold => ?_
      refine (simulates_ofExcept Pairing.stable_matches (hold.binary _ (hρ.matches hv)) _).bind_reads
        (reads_ofExcept _ _) ?_
      exact fun _ _ _ _ hcombined => simulates_store _ hcombined span
  · split
    · exact simulates_fail _ _
    · rename_i root path _
      refine (simulates_valueOf _ span).bind_reads (reads_query _ _ _) fun ρ old old' hρ hold => ?_
      have hset := (hρ.matches hv).setProperty op span path hold
      refine (simulates_located Pairing.stable_both hset).bind_reads (reads_located _) fun σ p q _ hpq => ?_
      refine (simulates_replace _ hpq.1).bind (fun _ => (reads_pure _).grows) fun τ _ _ hτ _ => ?_
      exact simulates_pure Pairing.stable_matches (hτ.matches hpq.2)
  · exact simulates_fail _ _

private theorem simulates_storeStep (op : Located UnaryOp) (operand : Expr) (hv : π.Matches v v') :
    Simulates gap π c c' Pairing.Matches (storeStep c op operand v) (storeStep c' op operand v') := by
  unfold storeStep
  split
  · exact simulates_store _ hv _
  · exact simulates_store _ hv _
  · exact simulates_pure Pairing.stable_matches hv

private theorem simulates_settable (struct : String) (d : StructDecl) (name : Ident) :
    Simulates gap π c c' Pairing.Same (settable struct d name) (settable struct d name) := by
  unfold settable
  split
  · exact simulates_fail _ _
  · split
    · exact simulates_fail _ _
    · exact simulates_pure Pairing.stable_same rfl

private theorem simulates_index (base : Ident) (hv : π.Matches v v') (hw : π.Matches w w') (span : Span) :
    Simulates gap π c c' Pairing.Matches (index base v w span) (index base v' w' span) := by
  have hposition : Simulates gap π c c' Pairing.Matches (fail (.typeMismatch (.position w.typeName)) span)
      (fail (.typeMismatch (.position w'.typeName)) span) := by
    rw [hw.typeName]
    exact simulates_fail _ _
  have hcollection : Simulates gap π c c' Pairing.Matches (fail (.typeMismatch (.notIndexable v.typeName)) base.span)
      (fail (.typeMismatch (.notIndexable v'.typeName)) base.span) := by
    rw [hv.typeName]
    exact simulates_fail _ _
  rcases hw.cases with ⟨hflat, rfl⟩ | ⟨_, _, _, rfl, rfl, -⟩ | ⟨_, _, rfl, rfl, -⟩ | ⟨_, _, _, rfl, rfl, -⟩
  · cases w' with
    | integer n t =>
      rcases hv.cases with
          ⟨hflat, rfl⟩ | ⟨_, _, _, rfl, rfl, -⟩ | ⟨items, items', rfl, rfl, -⟩ | ⟨_, _, _, rfl, rfl, -⟩
      · cases v' with
        | string text =>
          refine simulates_ofExcept Pairing.stable_matches ?_ span
          cases itemAt text.toList n with
          | ok character => exact .ok (Pairing.matches_of_isFlat rfl)
          | error e => exact .error e
        | array items => cases hflat
        | _ => exact hcollection
      · exact hcollection
      · have hitems := Value.array.inj hv
        rw [Value.relabelItems_eq, Value.relabelItems_eq] at hitems
        refine simulates_ofExcept Pairing.stable_matches (Pairing.alike_of_map ?_) span
        rw [← itemAt_map, ← itemAt_map, hitems]
      · exact hcollection
    | _ => exact hposition
  · exact hposition
  · exact hposition
  · exact hposition

private theorem simulates_iterated (hv : π.Matches v v') (span : Span) :
    Simulates gap π c c' (Pairing.Each Pairing.Matches) (iterated v span) (iterated v' span) := by
  have hbad : Simulates gap π c c' (Pairing.Each Pairing.Matches)
      (fail (.typeMismatch (.notIterable v.typeName)) span)
      (fail (.typeMismatch (.notIterable v'.typeName)) span) := by
    rw [hv.typeName]
    exact simulates_fail _ _
  have hstable := Pairing.stable_each Pairing.stable_matches
  rcases hv.cases with
      ⟨hflat, rfl⟩ | ⟨_, _, _, rfl, rfl, -⟩ | ⟨items, items', rfl, rfl, hitems⟩ | ⟨_, _, _, rfl, rfl, -⟩
  · cases v' with
    | string text =>
      refine simulates_pure hstable (List.forall₂_same.2 fun w hw => ?_)
      obtain ⟨character, -, rfl⟩ := List.mem_map.1 hw
      exact Pairing.matches_of_isFlat rfl
    | array items => cases hflat
    | _ => exact hbad
  · exact hbad
  · exact simulates_pure hstable hitems
  · exact hbad

/-! ### Declarations -/

private theorem simulates_introduce (hjoins : π.Joins c c') (name : Ident) (type : Ty) (hv : π.Matches v v')
    (isConstant : Bool) :
    Simulates gap π c c' Pairing.Same (introduce c name type v isConstant) (introduce c' name type v' isConstant) :=
  (simulates_declare hjoins name hv isConstant).bind (fun _ => grows_discipline.record c' (by trivial))
    fun _ _ _ _ _ =>
    simulates_record (by trivial) (by trivial)

private theorem simulates_declareVariable (hjoins : π.Joins c c') (d : VariableDecl) (hv : π.Matches v v') :
    Simulates gap π c c' Pairing.Same (declareVariable c d v) (declareVariable c' d v') := by
  unfold declareVariable
  split
  · exact simulates_introduce hjoins d.name _ hv d.isConstant
  · exact simulates_declare hjoins d.name hv d.isConstant

private theorem simulates_declareFunction (hjoins : π.Joins c c') (d : FunctionDecl) :
    Simulates gap π c c' Pairing.Matches (declareFunction c d) (declareFunction c' d) := by
  have hf : π.Matches (.function d c) (.function d c') := Pairing.matches_function.2 ⟨c', rfl, hjoins⟩
  have hpure : ∀ b : Unit, Grows c' (pure (.function d c') : Eval Value) := fun _ => (reads_pure _).grows
  refine (simulates_declare hjoins d.name hf true).bind (fun _ => ?_) fun ρ _ _ hρ _ => ?_
  · exact (grows_discipline.record c' (by trivial)).bind hpure
  · refine (simulates_record (by trivial) (by trivial)).bind hpure fun σ _ _ hσ _ => ?_
    exact simulates_pure Pairing.stable_matches ((hρ.trans hσ).matches hf)

private theorem simulates_bindItem (hjoins : π.Joins c c') (value : Ident) (position : Option Ident) (i : UInt64)
    (hv : π.Matches v v') :
    Simulates gap π c c' Pairing.Same (bindItem c value position i v) (bindItem c' value position i v') := by
  refine (simulates_declare hjoins value hv false).bind (fun _ => ?_) fun ρ _ _ hρ _ => ?_
  · cases position with
    | none => exact (reads_pure _).grows
    | some id => exact grows_change _ _ _
  · cases position with
    | none => exact simulates_pure Pairing.stable_same rfl
    | some id => exact simulates_declare (hρ _ _ hjoins) id (Pairing.matches_of_isFlat rfl) false

private theorem simulates_bindParams (function : String) (hjoins : π.Joins c c') (span : Span) (ps : List Param)
    {vs vs' : List Value} (hvs : Pairing.Each Pairing.Matches π vs vs') :
    Simulates gap π c c' Pairing.Same (bindParams function c span ps vs) (bindParams function c' span ps vs') := by
  induction ps generalizing π vs vs' with
  | nil => exact simulates_pure Pairing.stable_same rfl
  | cons p ps ih =>
    cases hvs with
    | nil => exact simulates_pure Pairing.stable_same rfl
    | @cons v v' vs vs' hv hvs =>
      have hconform := (hv.conform p.type).mapError (Mismatch.argument p.name.name function)
      refine (simulates_checked Pairing.stable_matches hconform span).bind_reads (reads_checked _ _)
        fun ρ w w' hρ hw => ?_
      refine (simulates_introduce (hρ _ _ hjoins) p.name p.type hw false).bind (fun _ => ?_) fun σ _ _ hσ _ => ?_
      · exact grows_discipline.bindParams function c' span ps vs'
      · exact ih ((hρ.trans hσ) _ _ hjoins) (Pairing.stable_each Pairing.stable_matches _ _ _ _ (hρ.trans hσ) hvs)

/-! ### Scopes of their own -/

theorem Simulates.inScope (hR : Pairing.Stable R) {body : ScopeId → Eval α} {body' : ScopeId → Eval β}
    (hgrows : ∀ id', Grows id' (body' id'))
    (hbody : ∀ ρ id id', π.Extends ρ → ρ.Joins id id' → Simulates gap ρ id id' R (body id) (body' id'))
    (span span' : Span) : Simulates gap π c c' R (inScope c span body) (inScope c' span' body') := by
  intro s s' hs hπ hc hfew
  have hinside := Nat.lt_of_le_of_lt (Event.entries_le (suffix_inScope c' span' body' s')) hfew
  have henter := Nat.lt_of_le_of_lt (Event.entries_le (hgrows _ (s'.entered c'))) hinside
  obtain ⟨hentered, hjoined, hlinked⟩ := hs.entered hc henter
  have hrun := hbody _ _ _ (hπ.trans hjoined) hlinked.joins _ _ hentered (.refl _) hlinked.sees hinside
  rw [inScope_eq, inScope_eq]
  generalize body (s.scopes.push c).2 (s.entered c) = o at hrun
  generalize body' (s'.scopes.push c').2 (s'.entered c') = o' at hrun
  cases hrun with
  | exhausted t t' => exact .exhausted t t'
  | @failed e t t' ht =>
    obtain ⟨hleave, hleave', hfollow, -⟩ := hs.left ht hjoined
    simp only [hleave, hleave']
    exact .failed hfollow
  | @done a b t t' ht hab =>
    obtain ⟨hleave, hleave', hfollow, hlast⟩ := hs.left ht hjoined
    simp only [hleave, hleave']
    exact .done hfollow (hR _ _ _ _ hlast hab)

/-- Only the second computation runs in a scope of its own. -/
theorem Simulates.inScope_right (hR : Pairing.Stable R) (hjoins : π.Joins c c') {body' : ScopeId → Eval β}
    (hgrows : ∀ id', Grows id' (body' id'))
    (hbody : ∀ m ρ id', π.Extends ρ → Simulates (some m) ρ c id' R x (body' id')) (span : Span) :
    Simulates none π c c' R x (Eval.inScope c' span body') := by
  intro s s' hs hπ hc hfew
  have hinside := Nat.lt_of_le_of_lt (Event.entries_le (suffix_inScope c' span body' s')) hfew
  have henter := Nat.lt_of_le_of_lt (Event.entries_le (hgrows _ (s'.entered c'))) hinside
  obtain ⟨hentered, hjoined, hsees⟩ := hs.entered_right (Scopes.Linked.of_joins (hπ _ _ hjoins) hc.left) henter
  have hrun := hbody _ _ _ (hπ.trans hjoined) _ _ hentered (.refl _) hsees hinside
  rw [inScope_eq]
  generalize x s = o at hrun
  generalize body' (s'.scopes.push c').2 (s'.entered c') = o' at hrun
  cases hrun with
  | exhausted t t' => exact .exhausted t t'
  | @failed e t t' ht =>
    obtain ⟨hleave, hfollow, -⟩ := hs.left_right ht hjoined
    simp only [hleave]
    exact .failed hfollow
  | @done a b t t' ht hab =>
    obtain ⟨hleave, hfollow, hlast⟩ := hs.left_right ht hjoined
    simp only [hleave]
    exact .done hfollow (hR _ _ _ _ hlast hab)

/-! ### Calls -/

private theorem simulates_callBuiltin (name : String) {args args' : List Value}
    (hargs : Pairing.Each Pairing.Matches π args args') (span : Span) :
    Simulates gap π c c' Pairing.Matches (callBuiltin name args span) (callBuiltin name args' span) := by
  intro s s' hs hπ _ _
  have hmap : args.map (Value.relabel (.ofScopes (s.pairing gap s').left)) =
      args'.map (Value.relabel (.ofScopes (s.pairing gap s').right)) := by
    rw [← List.forall₂_eq_eq_eq, List.forall₂_map_left_iff, List.forall₂_map_right_iff]
    exact hargs.imp fun _ _ => hπ.matches
  have hget : s'.builtins.get? name = s.builtins.get? name := by rw [hs.builtins]
  unfold callBuiltin
  rw [hget, hs.output, ← hargs.length_eq]
  cases hb : s.builtins.get? name with
  | none => exact .failed (.refl hs)
  | some b =>
    dsimp only
    split
    · exact .failed (.refl hs)
    · have huniform := hs.uniform b (List.mem_of_find?_eq_some hb)
      have hcall := huniform (s.pairing gap s').left args s.output
      rw [hmap, huniform] at hcall
      obtain ⟨hvalue, houtput⟩ := Prod.mk.inj hcall
      have halike := Pairing.alike_of_map hvalue.symm
      generalize b.call args s.output = answer at houtput halike
      generalize b.call args' s.output = answer' at houtput halike
      obtain ⟨r, output⟩ := answer
      obtain ⟨r', output'⟩ := answer'
      obtain rfl : output' = output := houtput
      cases halike with
      | ok hv => exact .done (hs.print output') hv
      | error m => exact .failed (hs.print output')

/-- A function can be called on both sides, or the call fails on both sides for the same reason. -/
private theorem callable_parallel {s s' : Session} (hs : s.Parallel gap s') {closure closure' : ScopeId}
    (hclosure : (s.pairing gap s').Joins closure closure') (d : FunctionDecl) (args : Nat) (span : Span) :
    (callable d closure args span s = .done () (s.note (.called d closure true)) ∧
      callable d closure' args span s' = .done () (s'.note (.called d closure' true)) ∧ s.depth < s.maxDepth ∧
      Scopes.Linked gap s.scopes s'.scopes closure closure') ∨
    ∃ e t t', callable d closure args span s = .failed e t ∧ callable d closure' args span s' = .failed e t' ∧
      Session.Follow gap s s' t t' := by
  have halive := Scopes.isAlive_of_joins hclosure
  unfold callable
  rw [hs.maxDepth, hs.depth, halive]
  split
  · exact .inr ⟨_, s, s', rfl, rfl, .refl hs⟩
  · split
    · exact .inr ⟨_, s, s', rfl, rfl, .refl hs⟩
    · rename_i hdepth
      cases hcase : s.scopes.isAlive closure with
      | true => exact .inl ⟨rfl, rfl, by omega, .of_joins hclosure hcase⟩
      | false => exact .inr ⟨_, _, _, rfl, rfl, hs.note (by trivial) (by trivial)⟩

/-- One call deeper on both sides. -/
private theorem deeper_parallel {s s' : Session}
    (hrun : (x (s.moveTo s.scopes (s.depth + 1))).Parallel gap R (s.moveTo s.scopes (s.depth + 1))
      (s'.moveTo s'.scopes (s'.depth + 1)) (x' (s'.moveTo s'.scopes (s'.depth + 1)))) :
    (deeper x s).Parallel gap R s s' (deeper x' s') := by
  have hback : ∀ {t t'},
      Session.Follow gap (s.moveTo s.scopes (s.depth + 1)) (s'.moveTo s'.scopes (s'.depth + 1)) t t' →
      Session.Follow gap s s' (t.moveTo t.scopes (t.depth - 1)) (t'.moveTo t'.scopes (t'.depth - 1)) := by
    intro t t' ht
    have hp := ht.parallel
    have hbound := (hp.tidy.sound.state t.recorded).2
    refine ⟨?_, (back_of_level hp.tidy.sound ht.level).2, (back_of_level hp.tidy'.sound ht.level').2, ht.joined⟩
    exact hp.moveTo hp.scopes (fun _ => rfl) (fun _ => rfl) (by rw [hp.depth]) (by omega)
  unfold deeper
  generalize x (s.moveTo s.scopes (s.depth + 1)) = o at hrun
  generalize x' (s'.moveTo s'.scopes (s'.depth + 1)) = o' at hrun
  cases hrun with
  | exhausted t t' => exact .exhausted t t'
  | failed ht => exact .failed (hback ht)
  | done ht hab => exact .done (hback ht) hab

private theorem simulates_call (hR : Pairing.Stable R) {closure closure' : ScopeId}
    (hclosure : π.Joins closure closure') (d : FunctionDecl) (args : Nat) (span : Span) {body : ScopeId → Eval α}
    {body' : ScopeId → Eval β} (hgrows : ∀ id', Grows id' (body' id'))
    (hbody : ∀ ρ id id', π.Extends ρ → ρ.Joins id id' → Simulates gap ρ id id' R (body id) (body' id')) :
    Simulates gap π c c' R (callable d closure args span >>= fun _ => deeper (inScope closure span body))
      (callable d closure' args span >>= fun _ => deeper (inScope closure' span body')) := by
  intro s s' hs hπ _ hfew
  rcases callable_parallel hs (hπ _ _ hclosure) d args span with ⟨hc, hc', hdepth, hlinked⟩ | ⟨e, t, t', hc, hc', ht⟩
  · have hnote : Session.Follow gap s s' (s.note (.called d closure true)) (s'.note (.called d closure' true)) :=
      hs.note trivial trivial
    rw [bind_of_done hc'] at hfew
    rw [bind_of_done hc, bind_of_done hc']
    refine Outcome.Parallel.after (deeper_parallel ?_) hnote
    refine Simulates.inScope hR hgrows hbody span span _ _ ?_ hπ hlinked.sees ?_
    · exact hnote.parallel.moveTo hs.scopes (fun _ => rfl) (fun _ => rfl) (congrArg (· + 1) hs.depth) hdepth
    · exact Nat.lt_of_le_of_lt (Event.entries_le (suffix_deeper _ _)) hfew
  · rw [bind_of_failed hc, bind_of_failed hc']
    exact .failed ht

end Eval

/-- Both statements have ended normally or both have returned, with values that match. -/
inductive Flow.Matches (π : Pairing) : Flow → Flow → Prop
  | normal {v v' : Value} (h : π.Matches v v') : Flow.Matches π (.normal v) (.normal v')
  | returned {v v' : Value} (h : π.Matches v v') : Flow.Matches π (.returned v) (.returned v')

theorem Flow.stable_matches : Pairing.Stable Flow.Matches := by
  intro π ρ a b h hab
  cases hab with
  | normal hv => exact .normal (h.matches hv)
  | returned hv => exact .returned (h.matches hv)

namespace Eval

variable {α β : Type} {gap : Option Nat} {π : Pairing} {c c' : ScopeId} {R : Pairing → α → β → Prop}

private theorem simulates_result (d : FunctionDecl) (span : Span) {flow flow' : Flow} (h : flow.Matches π flow') :
    Simulates gap π c c' Pairing.Matches (result d span flow) (result d span flow') := by
  cases h with
  | returned hv => exact simulates_checked Pairing.stable_matches ((hv.conform d.returnType).mapError _) span
  | normal _ =>
    unfold result
    dsimp only
    split
    · exact simulates_pure Pairing.stable_matches (Pairing.matches_of_isFlat rfl)
    · exact simulates_pure Pairing.stable_matches (Pairing.matches_of_isFlat rfl)
    · exact simulates_fail _ _

private theorem simulates_callFunction {closure closure' : ScopeId} (hclosure : π.Joins closure closure')
    (d : FunctionDecl) {args args' : List Value} (hargs : Pairing.Each Pairing.Matches π args args') (span : Span)
    {body body' : ScopeId → Eval Flow} (hgrows : ∀ id', Grows id' (body' id'))
    (hbody : ∀ ρ id id', π.Extends ρ → ρ.Joins id id' → Simulates gap ρ id id' Flow.Matches (body id) (body' id')) :
    Simulates gap π c c' Pairing.Matches (callFunction d closure args span body)
      (callFunction d closure' args' span body') := by
  have hframe : ∀ ρ id id', π.Extends ρ → ρ.Joins id id' → Simulates gap ρ id id' Flow.Matches
      (bindParams d.name.name id span d.params args >>= fun _ => body id)
      (bindParams d.name.name id' span d.params args' >>= fun _ => body' id') := by
    intro ρ id id' hρ hjoins
    have hargs' := Pairing.stable_each Pairing.stable_matches _ _ _ _ hρ hargs
    refine (simulates_bindParams d.name.name hjoins span d.params hargs').bind (fun _ => hgrows id')
      fun σ _ _ hσ _ => ?_
    exact hbody σ id id' (hρ.trans hσ) (hσ _ _ hjoins)
  have hgrows' : ∀ id', Grows id' (bindParams d.name.name id' span d.params args' >>= fun _ => body' id') :=
    fun id' => (grows_discipline.bindParams _ id' _ _ _).bind fun _ => hgrows id'
  have hcall : Simulates gap π c c' Flow.Matches _ _ :=
    simulates_call Flow.stable_matches hclosure d args.length span hgrows' hframe
  have hresult := hcall.bind (fun flow => (reads_result d span flow).grows) fun _ _ _ _ hflow =>
    simulates_result d span hflow
  rw [bind_assoc, bind_assoc] at hresult
  unfold callFunction
  rw [← hargs.length_eq]
  exact hresult

/-! ### Sequences and loops -/

private theorem simulates_each (hR : Pairing.Stable R) {γ : Type} {f : γ → Eval α} {f' : γ → Eval β}
    (hgrows : ∀ a, Grows c' (f' a)) (h : ∀ ρ a, Simulates gap ρ c c' R (f a) (f' a)) (as : List γ) :
    Simulates gap π c c' (Pairing.Each R) (each f as) (each f' as) := by
  induction as generalizing π with
  | nil => exact simulates_pure (Pairing.stable_each hR) .nil
  | cons a as ih =>
    have hpure : ∀ (b : β) (bs : List β), Grows c' (pure (b :: bs) : Eval (List β)) :=
      fun _ _ => (reads_pure _).grows
    refine (h π a).bind (fun b => (grows_discipline.each hgrows as).bind (hpure b)) fun ρ b b' _ hb => ?_
    refine ih.bind (hpure b') fun σ bs bs' hσ hbs => ?_
    exact simulates_pure (Pairing.stable_each hR) (.cons (hR _ _ _ _ hσ hb) hbs)

theorem simulates_statements {exec exec' : Stmt → Eval Flow} (hgrows : ∀ st, Grows c' (exec' st)) (ss : List Stmt)
    (h : ∀ st ∈ ss, ∀ ρ, π.Extends ρ → Simulates gap ρ c c' Flow.Matches (exec st) (exec' st)) {last last' : Value}
    (hlast : π.Matches last last') :
    Simulates gap π c c' Flow.Matches (statements exec last ss) (statements exec' last' ss) := by
  induction ss generalizing π last last' with
  | nil => exact simulates_pure Flow.stable_matches (.normal hlast)
  | cons st ss ih =>
    refine (h st List.mem_cons_self π (.refl π)).bind (fun flow => ?_) fun ρ flow flow' hρ hflow => ?_
    · cases flow with
      | normal v => exact grows_discipline.statements hgrows v ss
      | returned v => exact (reads_pure _).grows
    · cases hflow with
      | normal hv => exact ih (fun st hst σ hσ => h st (List.mem_cons_of_mem _ hst) σ (hρ.trans hσ)) hv
      | returned hv => exact simulates_pure Flow.stable_matches (.returned hv)

private theorem simulates_forEach {body body' : UInt64 → Value → Eval Flow} (hgrows : ∀ i v, Grows c' (body' i v))
    (h : ∀ ρ i v v', ρ.Matches v v' → Simulates gap ρ c c' Flow.Matches (body i v) (body' i v')) (i : UInt64)
    {items items' : List Value} (hitems : Pairing.Each Pairing.Matches π items items') :
    Simulates gap π c c' Flow.Matches (forEach body i items) (forEach body' i items') := by
  induction items generalizing π i items' with
  | nil =>
    cases hitems
    exact simulates_pure Flow.stable_matches (.normal (Pairing.matches_of_isFlat rfl))
  | cons v vs ih =>
    cases hitems with
    | @cons _ v' _ vs' hv hvs =>
      refine (h π i v v' hv).bind (fun flow => ?_) fun ρ flow flow' hρ hflow => ?_
      · cases flow with
        | normal _ => exact grows_discipline.forEach hgrows (i + 1) vs'
        | returned v => exact (reads_pure _).grows
      · cases hflow with
        | normal _ => exact ih (i + 1) (Pairing.stable_each Pairing.stable_matches _ _ _ _ hρ hvs)
        | returned hv => exact simulates_pure Flow.stable_matches (.returned hv)

private theorem Simulates.yields {x x' : Eval Value} (h : Simulates gap π c c' Pairing.Matches x x') (e : Expr) :
    Simulates gap π c c' Pairing.Matches (yields e x) (yields e x') := by
  have hpure : ∀ (v : Value) (_ : Unit), Grows c' (pure v : Eval Value) := fun _ _ => (reads_pure _).grows
  refine h.bind (fun v => (grows_discipline.record c' (by trivial)).bind (hpure v)) fun ρ v v' _ hv => ?_
  refine (simulates_record (by trivial) (by trivial)).bind (hpure v') fun σ _ _ hσ _ => ?_
  exact simulates_pure Pairing.stable_matches (hσ.matches hv)

end Eval

/-! ### The evaluators -/

open Eval

/-- With the given fuel, the same code does the same on both sides.  Statements may declare names, so that they must
run in corresponding scopes. -/
structure Simulated (gap : Option Nat) (fuel : Nat) : Prop where
  expr : ∀ π c c' (e : Expr), Simulates gap π c c' Pairing.Matches (e.eval fuel c) (e.eval fuel c')
  field : ∀ π c c' struct d f,
    Simulates gap π c c' Pairing.MatchesField (Expr.evalField fuel c struct d f) (Expr.evalField fuel c' struct d f)
  stmts : ∀ {π c c'} ss, π.Joins c c' →
    Simulates gap π c c' Flow.Matches (Stmt.execAll fuel c ss) (Stmt.execAll fuel c' ss)
  stmt : ∀ {π c c'} (st : Stmt), π.Joins c c' → Simulates gap π c c' Flow.Matches (st.exec fuel c) (st.exec fuel c')
  initial : ∀ π c c' (d : VariableDecl), Simulates gap π c c' Pairing.Matches (d.initial fuel c) (d.initial fuel c')
  block : ∀ π c c' (b : Block), Simulates gap π c c' Flow.Matches (b.exec fuel c) (b.exec fuel c')
  branch : ∀ π c c' (i : IfStmt), Simulates gap π c c' Flow.Matches (i.exec fuel c) (i.exec fuel c')
  loop : ∀ π c c' condition body post,
    Simulates gap π c c' Flow.Matches (Stmt.loop fuel c condition body post) (Stmt.loop fuel c' condition body post)

namespace Simulated

variable {gap : Option Nat} {fuel : Nat} (h : Simulated gap fuel) (π : Pairing) (c c' : ScopeId)
include h

private theorem expr_succ (e : Expr) :
    Simulates gap π c c' Pairing.Matches (e.eval (fuel + 1) c) (e.eval (fuel + 1) c') := by
  have hgrows := grows_discipline.disciplined fuel
  refine Simulates.yields ?_ e
  cases e with
  | ident id => exact simulates_lookup id
  | literal l span =>
    refine simulates_pure Pairing.stable_matches (Pairing.matches_of_isFlat ?_)
    cases l <;> rfl
  | unary op operand side span =>
    refine (h.expr π c c' operand).bind (fun v => ?_) fun ρ v v' _ hv => ?_
    · exact (reads_ofExcept _ _).grows.bind fun new => grows_discipline.storeStep c' op operand new
    · refine (simulates_ofExcept Pairing.stable_matches (hv.unary op.value) _).bind_reads (reads_ofExcept _ _) ?_
      exact fun _ _ _ _ hnew => simulates_storeStep op operand hnew
  | binary op left right span =>
    refine (h.expr π c c' left).bind (fun a => ?_) fun ρ a a' _ ha => ?_
    · exact (hgrows.expr c' right).bind fun b => (reads_ofExcept _ _).grows
    · refine (h.expr ρ c c' right).bind (fun b => (reads_ofExcept _ _).grows) fun σ b b' hσ hb => ?_
      exact simulates_ofExcept Pairing.stable_matches ((hσ.matches ha).binary op.value hb) _
  | assign target op value span =>
    refine (h.expr π c c' value).bind (fun v => grows_discipline.assignTo c' target op v value.span) ?_
    exact fun _ _ _ _ hnew => simulates_assign target op hnew value.span
  | call callee arguments span =>
    refine (simulates_lookup callee).bind_reads (reads_lookup _ _) fun ρ target target' _ htarget => ?_
    refine (simulates_each Pairing.stable_matches (hgrows.expr c') (fun ρ e => h.expr ρ c c' e) arguments).bind
      (fun args => ?_) fun σ args args' hσ hargs => ?_
    · split
      · exact grows_discipline.callFunction _ _ _ _ fun frame => hgrows.stmts frame _
      · exact grows_callBuiltin _ _ _
      · exact (reads_fail _ _).grows
    · rcases htarget.cases with ⟨hflat, rfl⟩ | ⟨d, closure, closure', rfl, rfl, hjoins⟩ | ⟨_, _, rfl, rfl, -⟩ |
        ⟨_, _, _, rfl, rfl, -⟩
      · cases target' with
        | builtin name => exact simulates_callBuiltin name hargs span
        | function d closure => cases hflat
        | _ => exact simulates_fail _ _
      · refine simulates_callFunction (hσ _ _ hjoins) d hargs span (fun frame => hgrows.stmts frame _) ?_
        exact fun _ _ _ _ hframe => h.stmts d.body.statements hframe
      · exact simulates_fail _ _
      · exact simulates_fail _ _
  | build name fields span =>
    refine (simulates_structNamed name).bind_reads (reads_structNamed _ _) fun ρ d _ _ hd => ?_
    cases hd
    refine (simulates_each Pairing.stable_field (hgrows.field c' name.name d)
      (fun ρ f => h.field ρ c c' name.name d f)
      fields).bind (fun _ => (reads_pure _).grows) fun σ values values' _ hvalues => ?_
    refine simulates_pure Pairing.stable_matches (Pairing.matches_struct.2 ⟨_, rfl, ?_⟩)
    exact Pairing.setFields_matches hvalues (Pairing.defaultFields_matches d)
  | property object name span =>
    refine (h.expr π c c' object).bind (fun _ => (reads_located _).grows) fun ρ v v' _ hv => ?_
    exact simulates_located Pairing.stable_matches (hv.readProperty name)
  | array elements size span =>
    refine (simulates_each Pairing.stable_matches (hgrows.expr c') (fun ρ e => h.expr ρ c c' e) elements).bind
      (fun _ => (reads_pure _).grows) fun ρ items items' _ hitems => ?_
    exact simulates_pure Pairing.stable_matches (Pairing.matches_array.2 ⟨items', rfl, hitems⟩)
  | index base position span =>
    refine (simulates_lookup base).bind_reads (reads_lookup _ _) fun ρ v v' _ hv => ?_
    refine (h.expr ρ c c' position).bind (fun _ => (reads_index _ _ _ _).grows) fun σ w w' hσ hw => ?_
    exact simulates_index base (hσ.matches hv) hw position.span

private theorem field_succ (struct : String) (d : StructDecl) (f : Ident × Expr) :
    Simulates gap π c c' Pairing.MatchesField
    (Expr.evalField (fuel + 1) c struct d f) (Expr.evalField (fuel + 1) c' struct d f) := by
  obtain ⟨name, e⟩ := f
  refine (simulates_settable struct d name).bind_reads (reads_settable _ _ _) fun ρ p _ _ hp => ?_
  cases hp
  refine (h.expr ρ c c' e).bind (fun v => (reads_checked _ _).grows.bind fun _ => (reads_pure _).grows)
    fun σ v v' _ hv => ?_
  refine (simulates_checked Pairing.stable_matches (hv.conform p.type) e.span).bind_reads (reads_checked _ _) ?_
  exact fun τ w w' _ hw => simulates_pure Pairing.stable_field ⟨rfl, hw⟩

private theorem initial_succ (d : VariableDecl) :
    Simulates gap π c c' Pairing.Matches (d.initial (fuel + 1) c) (d.initial (fuel + 1) c') := by
  unfold VariableDecl.initial
  split
  · refine (h.expr π c c' _).bind (fun _ => (reads_checked _ _).grows) fun ρ v v' _ hv => ?_
    exact simulates_checked Pairing.stable_matches (hv.conform _) _
  · exact h.expr π c c' _
  · refine simulates_pure Pairing.stable_matches ?_
    unfold Pairing.Matches
    rw [Value.relabel_defaultFor, Value.relabel_defaultFor]
  · exact simulates_pure Pairing.stable_matches (Pairing.matches_of_isFlat rfl)

private theorem branch_succ (i : IfStmt) :
    Simulates gap π c c' Flow.Matches (i.exec (fuel + 1) c) (i.exec (fuel + 1) c') := by
  have hgrows := grows_discipline.disciplined fuel
  refine (h.expr π c c' _).bind (fun v => ?_) fun ρ v v' _ hv => ?_
  · split
    · exact hgrows.block _ _
    · split
      · exact (reads_pure _).grows
      · exact hgrows.branch _ _
      · exact hgrows.block _ _
  · rw [hv.isTruthy]
    split
    · exact h.block ρ c c' _
    · split
      · exact simulates_pure Flow.stable_matches (.normal (Pairing.matches_of_isFlat rfl))
      · exact h.branch ρ c c' _
      · exact h.block ρ c c' _

private theorem loop_succ (condition : Expr) (body : Block) (post : Option Expr) : Simulates gap π c c' Flow.Matches
    (Stmt.loop (fuel + 1) c condition body post) (Stmt.loop (fuel + 1) c' condition body post) := by
  have hgrows := grows_discipline.disciplined fuel
  have hnext : ∀ e : Expr, Grows c' (e.eval fuel c' >>= fun _ => Stmt.loop fuel c' condition body post) := fun e =>
    (hgrows.expr c' e).bind fun _ => hgrows.loop _ _ _ _
  refine (h.expr π c c' condition).bind (fun v => ?_) fun ρ v v' _ hv => ?_
  · split
    · refine (hgrows.block c' body).bind fun flow => ?_
      cases flow with
      | returned v => exact (reads_pure _).grows
      | normal _ =>
        cases post with
        | some e => exact hnext e
        | none => exact hgrows.loop _ _ _ _
    · exact (reads_pure _).grows
  · rw [hv.isTruthy]
    split
    · refine (h.block ρ c c' body).bind (fun flow => ?_) fun σ flow flow' _ hflow => ?_
      · cases flow with
        | returned v => exact (reads_pure _).grows
        | normal _ =>
          cases post with
          | some e => exact hnext e
          | none => exact hgrows.loop _ _ _ _
      · cases hflow with
        | returned hw => exact simulates_pure Flow.stable_matches (.returned hw)
        | normal _ =>
          cases post with
          | some e =>
            refine (h.expr σ c c' e).bind (fun _ => hgrows.loop _ _ _ _) fun τ _ _ _ _ => ?_
            exact h.loop τ c c' condition body (some e)
          | none => exact h.loop σ c c' condition body none
    · exact simulates_pure Flow.stable_matches (.normal (Pairing.matches_of_isFlat rfl))

private theorem block_succ (b : Block) :
    Simulates gap π c c' Flow.Matches (b.exec (fuel + 1) c) (b.exec (fuel + 1) c') :=
  Simulates.inScope Flow.stable_matches (fun id' => (grows_discipline.disciplined fuel).stmts id' _)
    (fun _ _ _ _ hjoins => h.stmts b.statements hjoins) _ _

private theorem stmt_succ {π : Pairing} {c c' : ScopeId} (st : Stmt) (hjoins : π.Joins c c') :
    Simulates gap π c c' Flow.Matches (st.exec (fuel + 1) c) (st.exec (fuel + 1) c') := by
  have hgrows := grows_discipline.disciplined fuel
  have hnormal : ∀ v : Value, Grows c' (pure (.normal v) : Eval Flow) := fun _ => (reads_pure _).grows
  cases st with
  | expression e span =>
    refine (h.expr π c c' e).bind hnormal fun ρ v v' _ hv => ?_
    exact simulates_pure Flow.stable_matches (.normal hv)
  | block body => exact h.block π c c' body
  | declare d =>
    refine (h.initial π c c' d).bind (fun v => (grows_discipline.declareVariable c' d v).bind fun _ => hnormal v)
      fun ρ v v' hρ hv => ?_
    refine (simulates_declareVariable (hρ _ _ hjoins) d hv).bind (fun _ => hnormal v') fun σ _ _ hσ _ => ?_
    exact simulates_pure Flow.stable_matches (.normal (hσ.matches hv))
  | function d =>
    refine (simulates_declareFunction hjoins d).bind hnormal fun ρ f f' _ hf => ?_
    exact simulates_pure Flow.stable_matches (.normal hf)
  | ret value span =>
    cases value with
    | none => exact simulates_pure Flow.stable_matches (.returned (Pairing.matches_of_isFlat rfl))
    | some e =>
      refine (h.expr π c c' e).bind (fun _ => (reads_pure _).grows) fun ρ v v' _ hv => ?_
      exact simulates_pure Flow.stable_matches (.returned hv)
  | branch s => exact h.branch π c c' s
  | struct d =>
    refine (simulates_declareStruct hjoins d).bind (fun _ => hnormal .null) fun ρ _ _ _ _ => ?_
    exact simulates_pure Flow.stable_matches (.normal (Pairing.matches_of_isFlat rfl))
  | whileLoop condition body span => exact h.loop π c c' condition body none
  | forLoop counter init condition post body span =>
    rw [Stmt.exec, Stmt.exec]
    refine Simulates.inScope Flow.stable_matches (fun id' => ?_) (fun ρ id id' _ hid => ?_) _ _
    · exact (hgrows.expr id' init).bind fun v => (grows_change _ _ _).bind fun _ => hgrows.loop _ _ _ _
    · refine (h.expr ρ id id' init).bind (fun v => (grows_change _ _ _).bind fun _ => hgrows.loop _ _ _ _)
        fun σ v v' hσ hv => ?_
      refine (simulates_declare (hσ _ _ hid) counter hv false).bind (fun _ => hgrows.loop _ _ _ _)
        fun τ _ _ _ _ => ?_
      exact h.loop τ id id' condition body (some post)
  | foreach value position iterable body span =>
    have hround : ∀ i item, Grows c' (inScope c' body.span fun inner => do
        bindItem inner value position i item
        Stmt.execAll fuel inner body.statements) := fun i item =>
      Grows.inScope fun inner => (grows_discipline.bindItem inner value position i item).bind
        fun _ => hgrows.stmts _ _
    refine (h.expr π c c' iterable).bind (fun v => (reads_iterated _ _).grows.bind fun items =>
      grows_discipline.forEach hround 0 items) fun ρ v v' _ hv => ?_
    refine (simulates_iterated hv iterable.span).bind_reads (reads_iterated _ _) fun σ items items' _ hitems => ?_
    refine simulates_forEach hround (fun τ i item item' hitem => ?_) 0 hitems
    refine Simulates.inScope Flow.stable_matches (fun inner => ?_) (fun υ id id' hυ hid => ?_) _ _
    · exact (grows_discipline.bindItem inner value position i item').bind fun _ => hgrows.stmts _ _
    · refine (simulates_bindItem hid value position i (hυ.matches hitem)).bind (fun _ => hgrows.stmts _ _) ?_
      exact fun _ _ _ hφ _ => h.stmts body.statements (hφ _ _ hid)
  | imports i => exact simulates_pure Flow.stable_matches (.normal (Pairing.matches_of_isFlat rfl))

end Simulated

/-- The same code does the same on both sides, by induction on the fuel. -/
theorem simulated (gap : Option Nat) (fuel : Nat) : Simulated gap fuel := by
  induction fuel with
  | zero =>
    constructor
    · exact fun _ _ _ _ => simulates_exhausted
    · exact fun _ _ _ _ _ _ => simulates_exhausted
    · exact fun _ _ => simulates_exhausted
    · exact fun _ _ => simulates_exhausted
    · exact fun _ _ _ _ => simulates_exhausted
    · exact fun _ _ _ _ => simulates_exhausted
    · exact fun _ _ _ _ => simulates_exhausted
    · exact fun _ _ _ _ _ _ => simulates_exhausted
  | succ fuel ih =>
    constructor
    · exact ih.expr_succ
    · exact ih.field_succ
    · intro π c c' ss hjoins
      refine simulates_statements ((grows_discipline.disciplined fuel).stmt c') ss (fun st _ ρ hρ => ?_)
        (Pairing.matches_of_isFlat rfl)
      exact ih.stmt st (hρ _ _ hjoins)
    · exact ih.stmt_succ
    · exact ih.initial_succ
    · exact ih.block_succ
    · exact ih.branch_succ
    · exact ih.loop_succ

end BraceScript
