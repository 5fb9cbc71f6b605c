import BraceScript.Proofs.Nesting
import BraceScript.Syntax.Program

/-!
# The limit on nested calls

A computation that does not run into the limit on nested calls does not notice it: under a larger limit it ends in
the same way and in the same session, the limit apart (`Eval.Raises`).  The only step that looks at the limit is the
check before a call, and once that check has failed nothing brings the computation back: the error goes through every
block, loop and call that it is in.  So what is shown of a single step carries over to whole runs
(`Program.run_under_larger_limit`).
-/

namespace BraceScript

variable {α β : Type}

/-! ### Other limits -/

/-- The session with another limit on nested calls. -/
def Session.withLimit (s : Session) (limit : Nat) : Session := { s with maxDepth := limit }

/-- Whether the error is that calls are nested too deeply. -/
def RuntimeError.Cause.isTooDeep : RuntimeError.Cause → Bool
  | .callDepthExceeded _ => true
  | _ => false

private theorem RuntimeError.Cause.isTooDeep_eq_false {cause : RuntimeError.Cause}
    (h : ∀ limit, cause ≠ .callDepthExceeded limit) : cause.isTooDeep = false := by
  cases cause with
  | callDepthExceeded limit => exact absurd rfl (h limit)
  | _ => rfl

namespace Outcome

/-- The outcome in a session with another limit on nested calls. -/
def withLimit (limit : Nat) : Outcome α → Outcome α
  | done a s => done a (s.withLimit limit)
  | failed e s => failed e (s.withLimit limit)
  | exhausted s => exhausted (s.withLimit limit)

/-- Whether the computation has run into the limit on nested calls. -/
def hitsLimit : Outcome α → Bool
  | failed e _ => e.cause.isTooDeep
  | _ => false

end Outcome

/-! ### Computations under a larger limit -/

namespace Eval

variable {scope : ScopeId}

/-- The computation leaves the limit on nested calls as it is, and unless it runs into the limit it does the same
under every larger one. -/
def Raises ⦃α : Type⦄ (_ : ScopeId) (x : Eval α) : Prop :=
  ∀ s : Session, (x s).session.maxDepth = s.maxDepth ∧
    ∀ limit, s.maxDepth ≤ limit → (x s).hitsLimit = false → x (s.withLimit limit) = (x s).withLimit limit

/-- A step that does not look at the limit. -/
private theorem raises_of_commutes {x : Eval α} (hkeep : ∀ s, (x s).session.maxDepth = s.maxDepth)
    (hsame : ∀ s limit, x (s.withLimit limit) = (x s).withLimit limit) : Raises scope x :=
  fun s => ⟨hkeep s, fun limit _ _ => hsame s limit⟩

private theorem Reads.raises {x : Eval α} (h : x.Reads) : Raises scope x := by
  intro s
  rcases h s with ⟨a, ha⟩ | ⟨e, he⟩
  · rw [ha s rfl rfl]
    exact ⟨rfl, fun limit _ _ => ha (s.withLimit limit) rfl rfl⟩
  · rw [he s rfl rfl]
    exact ⟨rfl, fun limit _ _ => he (s.withLimit limit) rfl rfl⟩

private theorem Raises.bind {x : Eval α} {f : α → Eval β} (hx : Raises scope x) (hf : ∀ a, Raises scope (f a)) :
    Raises scope (x >>= f) := by
  intro s
  obtain ⟨hkeep, hraise⟩ := hx s
  cases h : x s with
  | done a s₁ =>
    rw [h] at hkeep hraise
    obtain ⟨hkeep₁, hraise₁⟩ := hf a s₁
    rw [bind_of_done h]
    refine ⟨hkeep₁.trans hkeep, fun limit hle hfree => ?_⟩
    have hle₁ : s₁.maxDepth ≤ limit := by rw [show s₁.maxDepth = s.maxDepth from hkeep]; exact hle
    have hdone : x (s.withLimit limit) = .done a (s₁.withLimit limit) := hraise limit hle rfl
    rw [bind_of_done hdone]
    exact hraise₁ limit hle₁ hfree
  | failed e s₁ =>
    rw [h] at hkeep hraise
    rw [bind_of_failed h]
    refine ⟨hkeep, fun limit hle hfree => ?_⟩
    have hfailed : x (s.withLimit limit) = .failed e (s₁.withLimit limit) := hraise limit hle hfree
    exact bind_of_failed hfailed f
  | exhausted s₁ =>
    rw [h] at hkeep hraise
    rw [bind_of_exhausted h]
    refine ⟨hkeep, fun limit hle _ => ?_⟩
    have hexhausted : x (s.withLimit limit) = .exhausted (s₁.withLimit limit) := hraise limit hle rfl
    exact bind_of_exhausted hexhausted f

private theorem raises_change (name : String) (span : Span) (f : Scopes → Except ScopeError Scopes) :
    Raises scope (change name span f) := by
  apply raises_of_commutes
  · intro s
    unfold change
    split <;> rfl
  · intro s limit
    simp only [change, Session.withLimit]
    cases f s.scopes <;> rfl

private theorem raises_replace (name : Ident) (value : Value) : Raises scope (replace scope name value) := by
  apply raises_of_commutes
  · intro s
    unfold replace
    split <;> rfl
  · intro s limit
    simp only [replace, Session.withLimit]
    cases s.scopes.assign scope name.name value <;> rfl

private theorem raises_callBuiltin (name : String) (args : List Value) (span : Span) :
    Raises scope (callBuiltin name args span) := by
  apply raises_of_commutes
  · intro s
    unfold callBuiltin
    split
    · rfl
    · split
      · rfl
      · split <;> rfl
  · intro s limit
    simp only [callBuiltin, Session.withLimit]
    cases s.builtins.get? name with
    | none => rfl
    | some b =>
      by_cases harity : b.arity.any (· ≠ args.length) = true
      · simp only [if_pos harity]
        rfl
      · simp only [if_neg harity]
        obtain ⟨answer, output⟩ := b.call args s.output
        cases answer <;> rfl

/-- The check before a call is the only step that looks at the limit. -/
private theorem raises_callable (d : FunctionDecl) (closure : ScopeId) (args : Nat) (span : Span) :
    Raises scope (callable d closure args span) := by
  intro s
  by_cases harity : args ≠ d.params.length
  · have hcheck : ∀ limit, callable d closure args span (s.withLimit limit) =
        .failed ⟨.arityMismatch d.name.name d.params.length args, span⟩ (s.withLimit limit) :=
      fun limit => if_pos harity
    rw [show callable d closure args span s = _ from hcheck s.maxDepth]
    exact ⟨rfl, fun limit _ _ => hcheck limit⟩
  · by_cases hdepth : s.maxDepth ≤ s.depth
    · -- the error that the statement leaves out
      have hcheck : callable d closure args span s = .failed ⟨.callDepthExceeded s.maxDepth, span⟩ s := by
        rw [callable, if_neg harity, if_pos hdepth]
      rw [hcheck]
      exact ⟨rfl, fun _ _ hfree => nomatch hfree⟩
    · have hcheck : ∀ limit, s.maxDepth ≤ limit → callable d closure args span (s.withLimit limit) =
          if s.scopes.isAlive closure then .done () ((s.note (.called d closure true)).withLimit limit)
          else .failed ⟨.staleScope d.name.name, span⟩ ((s.note (.called d closure false)).withLimit limit) := by
        intro limit hle
        have hbelow : ¬ limit ≤ s.depth := by omega
        exact (if_neg harity).trans (if_neg hbelow)
      rw [show callable d closure args span s = _ from hcheck s.maxDepth (Nat.le_refl _)]
      by_cases halive : s.scopes.isAlive closure = true
      · simp only [if_pos halive] at hcheck ⊢
        exact ⟨rfl, fun limit hle _ => hcheck limit hle⟩
      · simp only [if_neg halive] at hcheck ⊢
        exact ⟨rfl, fun limit hle _ => hcheck limit hle⟩

private theorem leave_withLimit (id : ScopeId) (s : Session) (limit : Nat) :
    leave id (s.withLimit limit) = ((leave id s).1, (leave id s).2.withLimit limit) := by
  have hscopes : (s.withLimit limit).scopes = s.scopes := rfl
  cases hpop : s.scopes.pop id with
  | ok scopes =>
    simp only [leave, hscopes, hpop]
    rfl
  | error e =>
    simp only [leave, hscopes, hpop]
    rfl

private theorem maxDepth_leave (id : ScopeId) (s : Session) : (leave id s).2.maxDepth = s.maxDepth := by
  unfold leave
  split <;> rfl

/-- How a computation in the scope `id` ends once the scope has been left. -/
def leftWith (id : ScopeId) (span : Span) : Outcome α → Outcome α
  | .exhausted s => .exhausted s
  | .done a s =>
    match leave id s with
    | (none, t) => .done a t
    | (some e, t) => .failed ⟨scopeFault "<block>" e, span⟩ t
  | .failed e s => .failed e (leave id s).2

private theorem leftWith_withLimit (id : ScopeId) (span : Span) (o : Outcome α) (limit : Nat) :
    leftWith id span (o.withLimit limit) = (leftWith id span o).withLimit limit := by
  cases o with
  | exhausted s => rfl
  | done a s =>
    simp only [leftWith, Outcome.withLimit, leave_withLimit]
    obtain ⟨fault, t⟩ := leave id s
    cases fault <;> rfl
  | failed e s => simp only [leftWith, Outcome.withLimit, leave_withLimit]

private theorem maxDepth_leftWith (id : ScopeId) (span : Span) (o : Outcome α) :
    (leftWith id span o).session.maxDepth = o.session.maxDepth := by
  cases o with
  | exhausted s => rfl
  | done a s =>
    have hleave := maxDepth_leave id s
    simp only [leftWith]
    generalize leave id s = left at hleave ⊢
    obtain ⟨fault, t⟩ := left
    cases fault <;> exact hleave
  | failed e s => exact maxDepth_leave id s

/-- Leaving a scope hides no error. -/
private theorem hitsLimit_of_leftWith {id : ScopeId} {span : Span} {o : Outcome α}
    (h : (leftWith id span o).hitsLimit = false) : o.hitsLimit = false := by
  cases o with
  | failed e s => exact h
  | _ => rfl

private theorem Raises.inScope {parent : ScopeId} {span : Span} {body : ScopeId → Eval α}
    (h : ∀ id, Raises id (body id)) : Raises scope (inScope parent span body) := by
  intro s
  obtain ⟨hkeep, hraise⟩ := h (s.scopes.push parent).2 (s.entered parent)
  have hends : ∀ limit, Eval.inScope parent span body (s.withLimit limit) =
      leftWith (s.scopes.push parent).2 span (body (s.scopes.push parent).2 ((s.entered parent).withLimit limit)) :=
    fun _ => rfl
  rw [show Eval.inScope parent span body s = _ from hends s.maxDepth]
  refine ⟨(maxDepth_leftWith _ _ _).trans hkeep, fun limit hle hfree => ?_⟩
  have hbody := hraise limit hle (hitsLimit_of_leftWith hfree)
  rw [hends limit, hbody]
  exact leftWith_withLimit _ _ _ _

private theorem Raises.deeper {body : Eval α} (h : Raises scope body) : Raises scope (deeper body) := by
  intro s
  obtain ⟨hkeep, hraise⟩ := h (s.moveTo s.scopes (s.depth + 1))
  have hmoved : ∀ limit, (s.withLimit limit).moveTo (s.withLimit limit).scopes ((s.withLimit limit).depth + 1) =
      (s.moveTo s.scopes (s.depth + 1)).withLimit limit := fun _ => rfl
  cases hbody : body (s.moveTo s.scopes (s.depth + 1)) with
  | exhausted t =>
    rw [hbody] at hkeep hraise
    simp only [Eval.deeper, hbody]
    refine ⟨hkeep, fun limit hle _ => ?_⟩
    rw [hmoved, hraise limit hle rfl]
    rfl
  | done a t =>
    rw [hbody] at hkeep hraise
    simp only [Eval.deeper, hbody]
    refine ⟨hkeep, fun limit hle _ => ?_⟩
    rw [hmoved, hraise limit hle rfl]
    rfl
  | failed e t =>
    rw [hbody] at hkeep hraise
    simp only [Eval.deeper, hbody]
    refine ⟨hkeep, fun limit hle hfree => ?_⟩
    rw [hmoved, hraise limit hle hfree]
    rfl

/-- Every evaluation does the same under a larger limit. -/
private theorem raises_discipline : Discipline Raises Raises where
  reads := Reads.raises
  exhausted := raises_of_commutes (fun _ => rfl) fun _ _ => rfl
  record _ _ _ := raises_of_commutes (fun _ => rfl) fun _ _ => rfl
  opened := id
  bind := Raises.bind
  bind_loud := Raises.bind
  assign _ := raises_replace
  builtin _ := raises_callBuiltin
  declare _ _ _ _ := raises_change _ _ _
  declareStruct _ _ _ _ := raises_change _ _ _
  inScope h := Raises.inScope h
  call d closure args h := (raises_callable d closure args _).bind fun _ => (Raises.inScope h).deeper

end Eval

/-! ### Runs -/

/-- What a run comes to if it does not run into the limit on nested calls, it comes to under every larger limit: the
same value or the same error, and the same session, the limit apart.  The output, the scopes with their bindings and
all that has happened on the way are parts of the session. -/
theorem Program.run_under_larger_limit (p : Program) (s : Session) {d d' : Nat} (hle : d ≤ d') (fuel : Nat) :
    (∀ v t, p.run fuel (s.withLimit d) = .done v t → p.run fuel (s.withLimit d') = .done v (t.withLimit d')) ∧
    ∀ e t, p.run fuel (s.withLimit d) = .failed e t → (∀ limit, e.cause ≠ .callDepthExceeded limit) →
      p.run fuel (s.withLimit d') = .failed e (t.withLimit d') := by
  have hraise : Eval.Raises s.scopes.root (Stmt.execAll fuel s.scopes.root p.contents >>= fun flow =>
      pure flow.value) :=
    ((Eval.raises_discipline.disciplined fuel).stmts _ _).bind fun _ => (Eval.reads_pure _).raises
  have hrun : ∀ limit, p.run fuel (s.withLimit limit) =
      (Stmt.execAll fuel s.scopes.root p.contents >>= fun flow => pure flow.value : Eval Value)
      (s.withLimit limit) :=
    fun limit => p.run_eq_bind fuel (s.withLimit limit)
  have hsame := (hraise (s.withLimit d)).2 d' hle
  rw [← hrun d] at hsame
  constructor
  · intro v t hdone
    rw [hdone] at hsame
    exact (hrun d').trans (hsame rfl)
  · intro e t hfailed hcause
    rw [hfailed] at hsame
    exact (hrun d').trans (hsame (RuntimeError.Cause.isTooDeep_eq_false hcause))

/-- A function that calls itself twice before it returns. -/
private def countdown : String :=
  "fn f(n: i8) -> i8 \x7b if n > 0 \x7b ret f(n - 1); \x7d ret n; \x7d f(2);"

/-- The text of the value that the function comes to under a limit, if it does. -/
private def countdownUnder (limit : Nat) : Option String :=
  match Program.parse countdown "m" with
  | .ok p =>
    match p.program.run 40 (.fresh (.default 0) limit .empty) with
    | .done v _ => some v.text
    | _ => none
  | .error _ => none

private theorem run_of_countdownUnder {limit : Nat} {text : String} (h : countdownUnder limit = some text) :
    ∃ p v t, Program.parse countdown "m" = .ok p ∧ p.program.run 40 (.fresh (.default 0) limit .empty) = .done v t ∧
      v.text = text := by
  unfold countdownUnder at h
  split at h
  · rename_i p hparse
    split at h
    · rename_i v t hrun
      cases h
      exact ⟨p, v, t, hparse, hrun, rfl⟩
    · cases h
  · cases h

/-- Three calls fit under the limit three but not under two, and what they come to is the same under the largest
limit that a configuration can ask for. -/
theorem Program.run_under_larger_limit_countdown :
    countdownUnder 2 = none ∧ ∃ p v t, parse countdown "m" = .ok p ∧ v.text = "0" ∧
      p.program.run 40 (.fresh (.default 0) 3 .empty) = .done v t ∧
      p.program.run 40 (.fresh (.default 0) 1024 .empty) = .done v (t.withLimit 1024) := by
  have hthree : countdownUnder 3 = some "0" := by decide +kernel
  obtain ⟨p, v, t, hparse, hrun, htext⟩ := run_of_countdownUnder hthree
  have hlimits : 3 ≤ 1024 := by decide
  have hlarger := (Program.run_under_larger_limit p.program (.fresh (.default 0) 3 .empty) hlimits 40).1 v t hrun
  exact ⟨by decide +kernel, p, v, t, hparse, htext, hrun, hlarger⟩

end BraceScript
