import BraceScript.Proofs.Fuel
import BraceScript.Proofs.Occurrence
import BraceScript.Proofs.ParallelRuns

/-!
# A `for` loop as a `while` loop

The loop `for i := init; condition; post { B }` does what the block
`{ let i := init; while condition { { B } post; } }` does (`Session.OccursBy.for_loop_expands`).  Both go through
rounds (`Eval.rounds`), and a round of the block has one scope more than a round of the loop, in which nothing is
declared.  To compare them step by step, the rounds of the block are first taken without that scope
(`Stmt.flatRound`): up to fuel, these are the rounds of the loop, and up to the additional scope, those of the block.
-/

namespace BraceScript

open Eval

/-! ### Rounds -/

/-- Takes rounds as long as a condition holds and none of them returns. -/
def Eval.rounds (round : Nat → Eval Flow) (scope : ScopeId) (condition : Expr) : Nat → Eval Flow
  | 0 => exhausted
  | fuel + 1 => do
    let v ← condition.eval fuel scope
    if v.isTruthy then
      match ← round fuel with
      | .returned v => return .returned v
      | .normal _ => rounds round scope condition fuel
    else return .normal .null

namespace Eval

private theorem statements_singleton (exec : Stmt → Eval Flow) (last : Value) (st : Stmt) :
    statements exec last [st] = exec st := by
  funext s
  rw [statements]
  cases h : exec st s with
  | done flow t =>
    rw [bind_of_done h]
    cases flow <;> rfl
  | failed e t => rw [bind_of_failed h]
  | exhausted t => rw [bind_of_exhausted h]

variable {round round' : Nat → Eval Flow} {scope scope' : ScopeId} {condition : Expr}

/-- Rounds that end in the same way with more fuel. -/
private theorem within_rounds {more : Nat} (h : ∀ fuel, (round fuel).Within (round' (fuel + more))) (fuel : Nat) :
    (rounds round scope condition fuel).Within (rounds round' scope condition (fuel + more)) := by
  induction fuel with
  | zero => exact within_of_exhausted _
  | succ fuel ih =>
    have hcondition := (refuelled (Nat.le_add_right fuel more)).expr scope condition
    rw [Nat.succ_add]
    refine hcondition.bind fun v => ?_
    split
    · refine (h fuel).bind fun flow => ?_
      cases flow with
      | returned v => exact .refl _
      | normal _ => exact ih
    · exact .refl _

private theorem grows_rounds (h : ∀ fuel, Grows scope (round fuel)) (fuel : Nat) :
    Grows scope (rounds round scope condition fuel) := by
  induction fuel with
  | zero => exact grows_discipline.exhausted
  | succ fuel ih =>
    refine ((grows_discipline.disciplined fuel).expr scope condition).bind fun v => ?_
    split
    · refine (h fuel).bind fun flow => ?_
      cases flow with
      | returned v => exact (reads_pure _).grows
      | normal _ => exact ih
    · exact (reads_pure _).grows

/-- Rounds that do the same on both sides. -/
private theorem simulates_rounds {gap : Option Nat} {π : Pairing} (hgrows : ∀ fuel, Grows scope' (round' fuel))
    (h : ∀ fuel ρ, π.Extends ρ → Simulates gap ρ scope scope' Flow.Matches (round fuel) (round' fuel)) (fuel : Nat) :
    Simulates gap π scope scope' Flow.Matches (rounds round scope condition fuel)
      (rounds round' scope' condition fuel) := by
  induction fuel generalizing π with
  | zero => exact simulates_exhausted
  | succ fuel ih =>
    have hnext : ∀ flow : Flow, Grows scope' (match flow with
        | .returned v => pure (.returned v)
        | .normal _ => rounds round' scope' condition fuel : Eval Flow) := by
      intro flow
      cases flow with
      | returned v => exact (reads_pure _).grows
      | normal _ => exact grows_rounds hgrows fuel
    refine ((simulated gap fuel).expr π scope scope' condition).bind (fun v => ?_) fun ρ v v' hρ hv => ?_
    · split
      · exact (hgrows fuel).bind hnext
      · exact (reads_pure _).grows
    · rw [hv.isTruthy]
      split
      · refine (h fuel ρ hρ).bind hnext fun σ flow flow' hσ hflow => ?_
        cases hflow with
        | returned hw => exact simulates_pure Flow.stable_matches (.returned hw)
        | normal _ => exact ih fun fuel τ hτ => h fuel τ ((hρ.trans hσ).trans hτ)
      · exact simulates_pure Flow.stable_matches (.normal (Pairing.matches_of_isFlat rfl))

end Eval

namespace Stmt

variable (scope : ScopeId) (condition post : Expr) (body : Block)

private theorem loop_none (fuel : Nat) :
    Stmt.loop fuel scope condition body none = rounds (fun fuel => body.exec fuel scope) scope condition fuel := by
  induction fuel with
  | zero => rfl
  | succ fuel ih =>
    unfold Stmt.loop rounds
    congr 1
    funext v
    split
    · congr 1
      funext flow
      cases flow with
      | returned v => rfl
      | normal _ => exact ih
    · rfl

/-- A round of a `for` loop: its body and then `post`. -/
private def forRound (fuel : Nat) : Eval Flow := do
  match ← body.exec fuel scope with
  | .returned v => return .returned v
  | .normal _ => return .normal (← post.eval fuel scope)

private theorem loop_some (fuel : Nat) :
    Stmt.loop fuel scope condition body (some post) = rounds (forRound scope post body) scope condition fuel := by
  induction fuel with
  | zero => rfl
  | succ fuel ih =>
    rw [Stmt.loop, rounds, ih]
    generalize rounds (forRound scope post body) scope condition fuel = rest
    congr 1
    funext v
    split
    · unfold forRound
      rw [bind_assoc]
      congr 1
      funext flow
      cases flow with
      | returned v => rfl
      | normal v =>
        dsimp only
        rw [bind_assoc]
        rfl
    · rfl

end Stmt

/-! ### Expanded loops -/

/-- The places of those parts of an expanded loop that the loop itself does not have. -/
structure ExpansionPlaces where
  counter : Span
  post : Span
  round : Span
  loop : Span
  block : Span

namespace Stmt

variable (scope : ScopeId) (counter : Ident) (init condition post : Expr) (body : Block) (places : ExpansionPlaces)

/-- The block `{ { body } post; }`. -/
def expandedRound : Block := ⟨[.block body, .expression post places.post], places.round⟩

/-- The block `{ let counter := init; while condition { { body } post; } }`. -/
def expandedFor : Stmt :=
  .block ⟨[.declare ⟨counter, false, none, some init, places.counter⟩,
    .whileLoop condition (expandedRound post body places) places.loop], places.block⟩

/-- A round of an expanded loop in the scope of the loop. -/
def flatRound : Nat → Eval Flow
  | 0 => exhausted
  | fuel + 1 => Stmt.execAll fuel scope (expandedRound post body places).statements

/-- The statements of a round are the body of the loop and `post`, for which there is less fuel. -/
private theorem flatRound_add (fuel : Nat) :
    flatRound scope post body places (fuel + 3) = forRound scope post body fuel := by
  change statements (Stmt.exec (fuel + 1) scope) .null [.block body, .expression post places.post] = _
  rw [statements]
  unfold forRound
  change body.exec fuel scope >>= _ = _
  congr 1
  funext flow
  cases flow with
  | returned v => rfl
  | normal v => exact statements_singleton _ _ _

private theorem within_flatRound (fuel : Nat) :
    (flatRound scope post body places fuel).Within (forRound scope post body (fuel + 3)) := by
  have hless : ∀ fuel, (forRound scope post body fuel).Within (forRound scope post body (fuel + 6)) := by
    intro fuel
    have hmore := refuelled (Nat.le_add_right fuel 6)
    refine (hmore.block scope body).bind fun flow => ?_
    cases flow with
    | returned v => exact .refl _
    | normal _ => exact (hmore.expr scope post).andThen _
  -- without fuel for the statements of the round it gives up
  cases fuel with
  | zero => exact within_of_exhausted _
  | succ fuel =>
    cases fuel with
    | zero => exact within_of_exhausted _
    | succ fuel =>
      cases fuel with
      | zero => exact fun s => .inl ⟨s, rfl⟩
      | succ fuel =>
        rw [flatRound_add]
        exact hless fuel

/-- A round in a scope of its own does what it does without one. -/
private theorem simulates_flatRound {π : Pairing} {scope scope' : ScopeId} (hjoins : π.Joins scope scope')
    (fuel : Nat) :
    Simulates none π scope scope' Flow.Matches (flatRound scope post body places fuel)
      ((expandedRound post body places).exec fuel scope') := by
  cases fuel with
  | zero => exact simulates_exhausted
  | succ fuel =>
    refine Simulates.inScope_right Flow.stable_matches hjoins
      (fun id' => (grows_discipline.disciplined fuel).stmts id' _)
      (fun m ρ inner _ => ?_) _
    cases fuel with
    | zero => exact simulates_exhausted
    | succ fuel =>
      refine simulates_statements ((grows_discipline.disciplined fuel).stmt inner) _ (fun st hst σ _ => ?_)
        (Pairing.matches_of_isFlat rfl)
      cases fuel with
      | zero => exact simulates_exhausted
      | succ fuel =>
        have hsame := simulated (some m) fuel
        rcases List.mem_pair.1 hst with rfl | rfl
        · exact hsame.block σ scope inner body
        · refine (hsame.expr σ scope inner post).bind (fun _ => (reads_pure _).grows) fun τ v v' _ hv => ?_
          exact simulates_pure Flow.stable_matches (.normal hv)

/-! ### Loops with a counter -/

/-- Binds the counter in a new scope and takes rounds there.  The fuel is for the first value of the counter and for
the rounds. -/
def countedRounds (round : ScopeId → Nat → Eval Flow) (span : Span) (first rest : Nat) : Eval Flow :=
  inScope scope span fun outer => do
    let v ← init.eval first outer
    Eval.declare outer counter v false
    rounds (round outer) outer condition rest

private theorem exec_forLoop (span : Span) (fuel : Nat) :
    (Stmt.forLoop counter init condition post body span).exec (fuel + 1) scope =
    countedRounds scope counter init condition (fun outer => forRound outer post body) span fuel fuel := by
  simp only [Stmt.exec, countedRounds, loop_some]

private theorem exec_expandedFor (fuel : Nat) :
    (expandedFor counter init condition post body places).exec (fuel + 5) scope =
    countedRounds scope counter init condition
      (fun outer fuel => (expandedRound post body places).exec fuel outer) places.block fuel (fuel + 1) := by
  have hdeclare : ∀ outer, Stmt.exec (fuel + 2) outer (.declare ⟨counter, false, none, some init, places.counter⟩) =
      init.eval fuel outer >>= fun v => Eval.declare outer counter v false >>= fun _ => pure (Flow.normal v) :=
    fun outer => rfl
  simp only [expandedFor, Stmt.exec, Block.exec, countedRounds]
  congr 1
  funext outer
  change statements (Stmt.exec (fuel + 2) outer) .null _ = _
  rw [statements, hdeclare, bind_assoc]
  congr 1
  funext v
  rw [bind_assoc]
  congr 1
  funext _
  exact (statements_singleton _ v _).trans (loop_none outer condition _ _)

/-- Without fuel for the first value of the counter, nothing is done. -/
private theorem exec_expandedFor_of_lt {fuel : Nat} (h : fuel < 5) (s : Session) :
    ∃ t, (expandedFor counter init condition post body places).exec fuel scope s = .exhausted t := by
  rcases fuel with _ | _ | _ | _ | _ | fuel
  · exact ⟨_, rfl⟩
  · exact ⟨_, rfl⟩
  · exact ⟨_, rfl⟩
  · exact ⟨_, rfl⟩
  · exact ⟨_, rfl⟩
  · omega

private theorem within_countedRounds {round round' : ScopeId → Nat → Eval Flow} {more : Nat}
    (h : ∀ outer fuel, (round outer fuel).Within (round' outer (fuel + more))) (span : Span) {first first' : Nat}
    (hfirst : first ≤ first') (rest : Nat) :
    (countedRounds scope counter init condition round span first rest).Within
      (countedRounds scope counter init condition round' span first' (rest + more)) := by
  refine within_inScope (fun outer => ?_) scope span
  exact ((refuelled hfirst).expr outer init).bind fun v => within_after _ fun _ => within_rounds (h outer) rest

/-- A `for` loop that ends does so if its rounds are those of its expansion, without a scope of their own. -/
private theorem within_flat (span : Span) (fuel : Nat) :
    ((Stmt.forLoop counter init condition post body span).exec (fuel + 1) scope).Within
      (countedRounds scope counter init condition (fun outer => flatRound outer post body places) span (fuel + 2)
        (fuel + 3)) := by
  rw [exec_forLoop]
  refine within_countedRounds _ _ _ _ (fun outer fuel => ?_) span (Nat.le_add_right fuel 2) fuel
  rw [flatRound_add]
  exact .refl _

private theorem flat_within (span : Span) (fuel : Nat) :
    (countedRounds scope counter init condition (fun outer => flatRound outer post body places)
      span fuel (fuel + 1)).Within
      ((Stmt.forLoop counter init condition post body span).exec (fuel + 5) scope) := by
  rw [exec_forLoop]
  exact within_countedRounds _ _ _ _ (fun outer fuel => within_flatRound outer post body places fuel) span
    (Nat.le_add_right fuel 4) (fuel + 1)

/-- Rounds with and without a scope of their own do the same. -/
private theorem simulates_flat (π : Pairing) (scope scope' : ScopeId) (span : Span) (fuel : Nat) :
    Simulates none π scope scope' Flow.Matches
      (countedRounds scope counter init condition (fun outer => flatRound outer post body places)
        span fuel (fuel + 1))
      ((expandedFor counter init condition post body places).exec (fuel + 5) scope') := by
  have hgrows : ∀ outer more, Grows outer ((expandedRound post body places).exec more outer) := fun outer more =>
    (grows_discipline.disciplined more).block outer _
  have hrest : ∀ outer, Grows outer
      (rounds (fun fuel => (expandedRound post body places).exec fuel outer) outer condition (fuel + 1)) :=
    fun outer =>
    grows_rounds (hgrows outer) _
  rw [exec_expandedFor]
  refine Simulates.inScope Flow.stable_matches (fun outer => ?_) (fun ρ outer outer' _ houter => ?_) _ _
  · exact ((grows_discipline.disciplined fuel).expr outer init).bind fun v =>
      (grows_change _ _ _).bind fun _ => hrest outer
  · refine ((simulated none fuel).expr ρ outer outer' init).bind
      (fun v => (grows_change _ _ _).bind fun _ => hrest outer') fun σ v v' hσ hv => ?_
    refine (simulates_declare (hσ _ _ houter) counter hv false).bind (fun _ => hrest outer') fun τ _ _ hτ _ => ?_
    refine simulates_rounds (hgrows outer') (fun more υ hυ => ?_) (fuel + 1)
    exact simulates_flatRound post body places (hυ _ _ (hτ _ _ (hσ _ _ houter))) more

end Stmt

/-! ### What is left in the end -/

namespace Scopes

variable {s t t' : Scopes}

/-- A handle that is alive, and the same one for all that are not. -/
def living (s : Scopes) (c : ScopeId) : ScopeId := if s.isAlive c then c else ⟨s.live, 0⟩

/-- Handles that are alive stand for themselves, and those that are not all stand for the same. -/
def remaining (s : Scopes) : Pairing := ⟨s.living, s.living⟩

private theorem joins_remaining_iff {c c' : ScopeId} :
    s.remaining.Joins c c' ↔ c = c' ∨ s.isAlive c = false ∧ s.isAlive c' = false := by
  -- a handle that is alive is for another slot than the one for all others
  have hslot : ∀ {d : ScopeId}, s.isAlive d = true → d ≠ ⟨s.live, 0⟩ := by
    rintro d hd rfl
    exact Nat.lt_irrefl _ (isAlive_iff.1 hd).1
  have hne : s.isAlive c ≠ s.isAlive c' → c ≠ c' := mt (congrArg s.isAlive)
  change s.living c = s.living c' ↔ _
  unfold living
  cases hc : s.isAlive c <;> cases hc' : s.isAlive c'
  · simp
  · simp [hne (by simp [hc, hc']), (hslot hc').symm]
  · simp [hne (by simp [hc, hc']), hslot hc]
  · simp

/-- If the same scopes are alive on both sides, handles that go together are the same one or both not alive. -/
private theorem extends_remaining (h : s.SameOutline t) (h' : s.SameOutline t') :
    (pairing none t t').Extends s.remaining := by
  intro c c' hc
  rw [joins_remaining_iff, ← h.isAlive_eq, ← h'.isAlive_eq c']
  rcases joins_pairing_iff.1 hc with ⟨ha, ha', hindex⟩ | ⟨⟨-, hdead⟩, -, hdead'⟩
  · exact .inl (eq_of_isAlive (h.symm.isAlive ha) (h'.symm.isAlive ha') hindex).symm
  · exact .inr ⟨hdead, hdead'⟩

end Scopes

/-- What has become of `s` in `t` and in `t'` is the same: the scopes that were alive are still so and no others are,
and in them the same names are bound to the same values, where functions from scopes that are not alive are the same
if they have the same declaration. -/
structure Session.EndsAlike (s t t' : Session) : Prop where
  outline : s.scopes.SameOutline t.scopes
  outline' : s.scopes.SameOutline t'.scopes
  scope : ∀ c, s.scopes.isAlive c = true → ∃ a a', t.scopes.get? c = some a ∧ t'.scopes.get? c = some a' ∧
    a.Matches s.scopes.remaining Eq a'
  output : t'.output = t.output
  depth : t.depth = s.depth
  depth' : t'.depth = s.depth

private theorem Session.Follow.endsAlike {s t t' : Session} (h : Follow none s s t t') : s.EndsAlike t t' := by
  have ho := h.level.outline
  have ho' := h.level'.outline
  refine ⟨ho, ho', fun c hc => ?_, h.parallel.output, h.level.depth, h.level'.depth⟩
  obtain ⟨a, hget⟩ := Option.isSome_iff_exists.1 (ho.isAlive hc)
  obtain ⟨a', hget'⟩ := Option.isSome_iff_exists.1 (ho'.isAlive hc)
  refine ⟨a, a', hget, hget', (h.parallel.scopes.scope hget hget' rfl).mono (Scopes.extends_remaining ho ho') ?_⟩
  intro p p' _ _ hp
  rcases hp.place with hindex | ⟨hgap, -⟩
  · exact (Scopes.eq_of_isAlive (ho.symm.isAlive hp.left) (ho'.symm.isAlive hp.right) hindex).symm
  · cases hgap

/-- Two loops that have started in `s` have ended alike: both after their last round, both with the same value
returned, or both with the same error. -/
inductive Outcome.EndAlike (s : Session) : Outcome Flow → Outcome Flow → Prop
  | normal {t t' : Session} (h : s.EndsAlike t t') : EndAlike s (.done (.normal .null) t) (.done (.normal .null) t')
  | returned {v v' : Value} {t t' : Session} (hv : s.scopes.remaining.Matches v v') (h : s.EndsAlike t t') :
    EndAlike s (.done (.returned v) t) (.done (.returned v') t')
  | failed {e : RuntimeError} {t t' : Session} (h : s.EndsAlike t t') : EndAlike s (.failed e t) (.failed e t')

namespace Eval

private theorem Within.eq_of_ended {α : Type} {x y : Eval α} {s t : Session} (h : x.Within y)
    (hx : (x s).session? = some t) : y s = x s := by
  rcases h s with ⟨u, hu⟩ | heq
  · rw [hu] at hx
    cases hx
  · exact heq

/-- After its last round a loop yields `null`. -/
private theorem eq_null_of_rounds {round : Nat → Eval Flow} {scope : ScopeId} {condition : Expr} {fuel : Nat}
    {s t : Session} {v : Value} (h : rounds round scope condition fuel s = .done (.normal v) t) : v = .null := by
  induction fuel generalizing s with
  | zero => cases h
  | succ fuel ih =>
    obtain ⟨w, s₁, -, h⟩ := bind_eq_done_iff.1 h
    split at h
    · obtain ⟨flow, s₂, -, h⟩ := bind_eq_done_iff.1 h
      cases flow with
      | returned _ => cases h
      | normal _ => exact ih h
    · cases h
      rfl

private theorem exists_of_inScope {α : Type} {parent : ScopeId} {span : Span} {body : ScopeId → Eval α}
    {s t : Session} {a : α} (h : inScope parent span body s = .done a t) :
    ∃ u, body (s.scopes.push parent).2 (s.entered parent) = .done a u := by
  rw [inScope_eq] at h
  split at h
  · cases h
  · rename_i b u hbody
    split at h
    · cases h
      exact ⟨u, hbody⟩
    · cases h
  · cases h

end Eval

namespace Stmt

variable {scope : ScopeId} {counter : Ident} {init condition : Expr}

private theorem eq_null_of_countedRounds {round : ScopeId → Nat → Eval Flow} {span : Span} {first rest : Nat}
    {s t : Session} {v : Value}
    (h : countedRounds scope counter init condition round span first rest s = .done (.normal v) t) : v = .null := by
  obtain ⟨u, hbody⟩ := exists_of_inScope h
  obtain ⟨_, s₁, -, hbody⟩ := bind_eq_done_iff.1 hbody
  obtain ⟨_, s₂, -, hrounds⟩ := bind_eq_done_iff.1 hbody
  exact eq_null_of_rounds hrounds

variable {post : Expr} {body : Block} {places : ExpansionPlaces}

/-- Unless they give up, both have ended alike. -/
private theorem endAlike_of_flat {s : Session} (hs : s.Parallel none s) (ha : s.scopes.isAlive scope = true)
    (span : Span) (fuel : Nat)
    (hfew : Event.entries
      ((expandedFor counter init condition post body places).exec (fuel + 5) scope s).session.events < 4294967296) :
    (countedRounds scope counter init condition (fun outer => flatRound outer post body places)
      span fuel (fuel + 1) s).EndAlike s
        ((expandedFor counter init condition post body places).exec (fuel + 5) scope s) ∨
      ∃ t t', countedRounds scope counter init condition (fun outer => flatRound outer post body places)
          span fuel (fuel + 1) s = .exhausted t ∧
        (expandedFor counter init condition post body places).exec (fuel + 5) scope s = .exhausted t' := by
  have hrun := simulates_flat counter init condition post body places _ scope scope span fuel s s hs (.refl _)
    (Scopes.Linked.sees ⟨ha, ha, rfl⟩) hfew
  generalize hflat : countedRounds scope counter init condition
    (fun outer => flatRound outer post body places) span fuel (fuel + 1) s = o at hrun
  generalize (expandedFor counter init condition post body places).exec (fuel + 5) scope s = o' at hrun
  cases hrun with
  | exhausted t t' => exact .inr ⟨t, t', rfl, rfl⟩
  | failed h => exact .inl (.failed h.endsAlike)
  | done h hflow =>
    cases hflow with
    | normal hv =>
      obtain rfl := eq_null_of_countedRounds hflat
      rw [hv.eq_of_isFlat rfl]
      exact .inl (.normal h.endsAlike)
    | returned hv =>
      exact .inl (.returned ((Scopes.extends_remaining h.level.outline h.level'.outline).matches hv) h.endsAlike)

end Stmt

/-- The loop `for counter := init; condition; post { body }` and the block `{ let counter := init;
while condition { { body } post; } }` end alike.  If the block ends, the loop does so with the same fuel, and if the
loop ends, the block does so with a little more. -/
theorem Session.OccursBy.for_loop_expands {s : Session} (hs : s.OccursBy Builtin.Discreet) {scope : ScopeId}
    (ha : s.scopes.isAlive scope = true) (counter : Ident) (init condition post : Expr) (body : Block) (span : Span)
    (places : ExpansionPlaces) (fuel : Nat)
    (hfew : Event.entries
      ((Stmt.expandedFor counter init condition post body places).exec fuel scope s).session.events < 4294967296) :
    (∀ t, ((Stmt.expandedFor counter init condition post body places).exec fuel scope s).session? = some t →
      ((Stmt.forLoop counter init condition post body span).exec fuel scope s).EndAlike s
        ((Stmt.expandedFor counter init condition post body places).exec fuel scope s)) ∧
    ∀ less t, less + 6 ≤ fuel →
      ((Stmt.forLoop counter init condition post body span).exec less scope s).session? = some t →
      ((Stmt.forLoop counter init condition post body span).exec less scope s).EndAlike s
        ((Stmt.expandedFor counter init condition post body places).exec fuel scope s) := by
  have hstart : Event.entries s.events < 4294967296 :=
    Nat.lt_of_le_of_lt (Event.entries_le ((grows_discipline.disciplined fuel).stmt scope _ s)) hfew
  have hparallel := hs.parallel hstart
  refine ⟨fun t ht => ?_, fun less t hless ht => ?_⟩
  · by_cases hlt : fuel < 5
    · obtain ⟨u, hu⟩ := Stmt.exec_expandedFor_of_lt scope counter init condition post body places hlt s
      rw [hu] at ht
      cases ht
    · obtain ⟨rest, rfl⟩ : ∃ rest, fuel = rest + 5 := ⟨fuel - 5, by omega⟩
      rcases Stmt.endAlike_of_flat hparallel ha span rest hfew with hend | ⟨u, u', -, hu'⟩
      · rcases Stmt.flat_within scope counter init condition post body places span rest s with ⟨u, hu⟩ | heq
        · rw [hu] at hend
          cases hend
        · rw [heq]
          exact hend
      · rw [hu'] at ht
        cases ht
  · cases less with
    | zero => cases ht
    | succ less =>
      obtain ⟨rest, rfl⟩ : ∃ rest, fuel = rest + 7 := ⟨fuel - 7, by omega⟩
      have hmore : (Stmt.exec (rest + 1) scope (.forLoop counter init condition post body span)) s = _ :=
        ((refuelled (show less + 1 ≤ rest + 1 by omega)).stmt scope _).eq_of_ended ht
      have hflat := (Stmt.within_flat scope counter init condition post body places span rest).eq_of_ended
        (by rw [hmore]; exact ht)
      rcases Stmt.endAlike_of_flat hparallel ha span (rest + 2) hfew with hend | ⟨u, u', hu, -⟩
      · rw [hflat, hmore] at hend
        exact hend
      · rw [hflat, hmore] at hu
        rw [hu] at ht
        cases ht

/-- The function `fn f() {}`. -/
private def idle : FunctionDecl := ⟨⟨"f", default⟩, [], .void, ⟨[], default⟩, default⟩

/-- The body `{ fn f() {} ret f; }`. -/
private def handOut : Block := ⟨[.function idle, .ret (some (.ident idle.name)) default], default⟩

/-- The expression `i = false`. -/
private def stop : Expr :=
  .assign (.ident ⟨"i", default⟩) ⟨.set, default⟩ (.literal (.boolean false) default) default

/-- The loop `for i := true; i; i = false { fn f() {} ret f; }`. -/
private def handOutOnce : Stmt :=
  .forLoop ⟨"i", default⟩ (.literal (.boolean true) default) (.ident ⟨"i", default⟩) stop handOut default

private def handOutExpanded : Stmt :=
  .expandedFor ⟨"i", default⟩ (.literal (.boolean true) default) (.ident ⟨"i", default⟩) stop handOut
    ⟨default, default, default, default, default⟩

/-- The loop returns a function from a scope in slot 2, and its expansion one from a scope in slot 3, but neither of
these scopes is alive. -/
theorem Session.OccursBy.for_loop_expands_handOut :
    ∃ t t', handOutOnce.exec 9 ⟨0, 0⟩ (.fresh (.default 0) 1 .empty) = .done (.returned (.function idle ⟨2, 0⟩)) t ∧
      handOutExpanded.exec 15 ⟨0, 0⟩ (.fresh (.default 0) 1 .empty) = .done (.returned (.function idle ⟨3, 0⟩)) t' ∧
      Session.EndsAlike (.fresh (.default 0) 1 .empty) t t' := by
  have hreachable : (Session.fresh (.default 0) 1 .empty).ReachableBy Builtin.Discreet :=
    .fresh 1 .empty (Registry.discreet_default 0)
  obtain ⟨t, hrun⟩ : ∃ t, handOutOnce.exec 9 ⟨0, 0⟩ (.fresh (.default 0) 1 .empty) =
      .done (.returned (.function idle ⟨2, 0⟩)) t := ⟨_, rfl⟩
  obtain ⟨t', hrun', hcount⟩ : ∃ t', handOutExpanded.exec 15 ⟨0, 0⟩ (.fresh (.default 0) 1 .empty) =
      .done (.returned (.function idle ⟨3, 0⟩)) t' ∧ Event.entries t'.events = 3 := by
    refine ⟨_, rfl, ?_⟩
    apply Session.events_of_timeline (P := fun es => Event.entries es = 3)
    · repeat apply Ghost.is_map
      exact rfl
    · rfl
  have hfew : Event.entries (handOutExpanded.exec 15 ⟨0, 0⟩ (.fresh (.default 0) 1 .empty)).session.events <
      4294967296 := by
    rw [hrun']
    exact Nat.lt_of_le_of_lt (Nat.le_of_eq hcount) (by decide)
  obtain ⟨-, hends⟩ := Session.OccursBy.for_loop_expands hreachable.occurs rfl ⟨"i", default⟩
    (.literal (.boolean true) default) (.ident ⟨"i", default⟩) stop handOut default
    ⟨default, default, default, default, default⟩
    15 hfew
  have hend : (handOutOnce.exec 9 ⟨0, 0⟩ (.fresh (.default 0) 1 .empty)).EndAlike (.fresh (.default 0) 1 .empty)
      (handOutExpanded.exec 15 ⟨0, 0⟩ (.fresh (.default 0) 1 .empty)) :=
    hends 9 t (Nat.le_refl 15) (congrArg Outcome.session? hrun)
  rw [hrun, hrun'] at hend
  cases hend with
  | returned _ h => exact ⟨t, t', hrun, hrun', h⟩

end BraceScript
