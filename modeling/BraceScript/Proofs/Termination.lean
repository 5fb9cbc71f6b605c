import BraceScript.Proofs.Escape
import BraceScript.Proofs.Steady

/-!
# Only loops run forever

A computation settles if it ends as soon as there is enough fuel, always in the same way (`Eval.Settles`).  Where
neither the program nor a function that a variable holds has a `while` or a `for` in it, every evaluation settles.
The proof is by induction on how many more calls may be nested, since a call is the only way from a part of the
program to a larger one, and for a given number of calls by induction on the syntax.  The contract
`Contract.loopFree` carries along that functions stay without loops, and that every evaluation ends on the level of
calls on which it has started.
-/

namespace BraceScript

/-! ### Computations that end -/

namespace Eval

variable {α β : Type} {s t : Session}

/-- With enough fuel the computation ends, and with more fuel it ends in the same way. -/
def Settles (x : Nat → Eval α) (s : Session) : Prop :=
  ∃ n o, (∀ m, n ≤ m → x m s = o) ∧ o.session?.isSome = true

/-- The computation never gives up. -/
private def Answers (x : Eval α) : Prop := ∀ s, (x s).session?.isSome = true

private theorem Settles.congr {x y : Nat → Eval α} (h : Settles y t) (heq : ∀ m, x m s = y m t) : Settles x s := by
  obtain ⟨n, o, ho, hsome⟩ := h
  exact ⟨n, o, fun m hm => (heq m).trans (ho m hm), hsome⟩

private theorem Settles.succ {x : Nat → Eval α} (h : Settles (fun m => x (m + 1)) s) : Settles x s := by
  obtain ⟨n, o, ho, hsome⟩ := h
  refine ⟨n + 1, o, fun m hm => ?_, hsome⟩
  obtain ⟨k, rfl⟩ := Nat.exists_eq_add_of_le' hm
  exact ho (k + n) (Nat.le_add_left n k)

private theorem Answers.settles {x : Eval α} (h : x.Answers) (s : Session) : Settles (fun _ => x) s :=
  ⟨0, x s, fun _ _ => rfl, h s⟩

/-- Enough fuel for both is enough for two computations in a row. -/
private theorem Settles.bind {x : Nat → Eval α} {f : Nat → α → Eval β} (hx : Settles x s)
    (hf : ∀ a t, (∃ m, x m s = .done a t) → Settles (fun m => f m a) t) : Settles (fun m => x m >>= f m) s := by
  obtain ⟨n, o, ho, hsome⟩ := hx
  cases o with
  | done a t =>
    obtain ⟨k, o', ho', hsome'⟩ := hf a t ⟨n, ho n (Nat.le_refl n)⟩
    exact ⟨max n k, o', fun m hm => (bind_of_done (ho m (by omega)) _).trans (ho' m (by omega)), hsome'⟩
  | failed e t => exact ⟨n, .failed e t, fun m hm => bind_of_failed (ho m hm) _, rfl⟩
  | exhausted t => cases hsome

private theorem Reads.answers {x : Eval α} (h : x.Reads) : x.Answers := by
  intro s
  rcases h.cases s with ⟨a, ha⟩ | ⟨e, he⟩
  · rw [ha]
    rfl
  · rw [he]
    rfl

private theorem Answers.bind {x : Eval α} {f : α → Eval β} (hx : x.Answers) (hf : ∀ a, (f a).Answers) :
    (x >>= f).Answers := by
  intro s
  have hsome := hx s
  cases h : x s with
  | done a t =>
    rw [bind_of_done h]
    exact hf a t
  | failed e t =>
    rw [bind_of_failed h]
    rfl
  | exhausted t =>
    rw [h] at hsome
    cases hsome

private theorem answers_change (name : String) (span : Span) (f : Scopes → Except ScopeError Scopes) :
    (change name span f).Answers := by
  intro s
  unfold change
  split <;> rfl

private theorem answers_replace (scope : ScopeId) (name : Ident) (value : Value) :
    (replace scope name value).Answers := by
  intro s
  unfold replace
  split <;> rfl

private theorem answers_callBuiltin (name : String) (args : List Value) (span : Span) :
    (callBuiltin name args span).Answers := by
  intro s
  unfold callBuiltin
  split
  · rfl
  · split
    · rfl
    · split <;> rfl

private theorem answers_callable (d : FunctionDecl) (closure : ScopeId) (args : Nat) (span : Span) :
    (callable d closure args span).Answers := by
  intro s
  rcases callable_cases d closure args span s with ⟨h, -⟩ | ⟨h, -⟩ | ⟨_, h, -⟩ <;> rw [h] <;> rfl

private theorem isSome_inScope {parent : ScopeId} {span : Span} {body : ScopeId → Eval α}
    (h : (body (s.scopes.push parent).2 (s.entered parent)).session?.isSome = true) :
    (inScope parent span body s).session?.isSome = true := by
  rw [inScope_eq]
  cases hb : body (s.scopes.push parent).2 (s.entered parent) with
  | done a t =>
    dsimp only
    split <;> rfl
  | failed e t => rfl
  | exhausted t =>
    rw [hb] at h
    cases h

private theorem isSome_deeper {body : Eval α} (h : (body (s.moveTo s.scopes (s.depth + 1))).session?.isSome = true) :
    (deeper body s).session?.isSome = true := by
  unfold deeper
  cases hb : body (s.moveTo s.scopes (s.depth + 1)) with
  | done a t => rfl
  | failed e t => rfl
  | exhausted t =>
    rw [hb] at h
    cases h

/-- What is computed without fuel does not give up. -/
private theorem rules_answers : Rules (fun ⦃_⦄ _ x => x.Answers) (fun ⦃_⦄ _ x => x.Answers) where
  reads := Reads.answers
  record _ _ _ _ := rfl
  opened := id
  bind := Answers.bind
  bind_loud := Answers.bind
  assign := answers_replace
  builtin _ := answers_callBuiltin
  declare _ _ _ _ := answers_change _ _ _
  declareStruct _ _ _ _ := answers_change _ _ _
  inScope h _ := isSome_inScope (h _ _)
  call d closure args h := (answers_callable d closure args _).bind fun _ _ => isSome_deeper (isSome_inScope (h _ _))

private theorem Settles.inScope {parent : ScopeId} {span : Span} {body : Nat → ScopeId → Eval α}
    (h : Settles (fun m => body m (s.scopes.push parent).2) (s.entered parent)) :
    Settles (fun m => Eval.inScope parent span (body m)) s := by
  obtain ⟨n, o, ho, hsome⟩ := h
  have hbody : ∀ m, n ≤ m → body m (s.scopes.push parent).2 (s.entered parent) = o := ho
  refine ⟨n, Eval.inScope parent span (body n) s, fun m hm => ?_, ?_⟩
  · change Eval.inScope parent span (body m) s = Eval.inScope parent span (body n) s
    rw [inScope_eq, inScope_eq, hbody m hm, hbody n (Nat.le_refl n)]
  · exact isSome_inScope (by rw [hbody n (Nat.le_refl n)]; exact hsome)

private theorem Settles.deeper {body : Nat → Eval α} (h : Settles body (s.moveTo s.scopes (s.depth + 1))) :
    Settles (fun m => Eval.deeper (body m)) s := by
  obtain ⟨n, o, ho, hsome⟩ := h
  refine ⟨n, Eval.deeper (body n) s, fun m hm => ?_, ?_⟩
  · change Eval.deeper (body m) s = Eval.deeper (body n) s
    simp only [Eval.deeper, ho m hm, ho n (Nat.le_refl n)]
  · exact isSome_deeper (by rw [ho n (Nat.le_refl n)]; exact hsome)

end Eval

/-! ### Computations that end under a contract -/

namespace Contract

variable {C : Contract} {α β : Type} {calls : Nat} {scope : ScopeId} {held held' : List Value}

/-- Whenever it is started in `scope` while the values `held` are good and at most `calls` more calls may be nested,
the computation settles. -/
private def Halts (C : Contract) (calls : Nat) (scope : ScopeId) (held : List Value) (x : Nat → Eval α) : Prop :=
  ∀ s : Session, s.Sound → s.scopes.isAlive scope = true → C.inv s → (∀ v ∈ held, C.good s.events v) →
    s.maxDepth ≤ s.depth + calls → Eval.Settles x s

private theorem Halts.weaken {x : Nat → Eval α} (h : C.Halts calls scope held x) (hsub : held ⊆ held') :
    C.Halts calls scope held' x :=
  fun s hs ha hinv hheld hcalls => h s hs ha hinv (fun v hv => hheld v (hsub hv)) hcalls

private theorem Halts.succ {x : Nat → Eval α} (h : C.Halts calls scope held fun m => x (m + 1)) :
    C.Halts calls scope held x :=
  fun s hs ha hinv hheld hcalls => (h s hs ha hinv hheld hcalls).succ

private theorem halts_of_answers {x : Eval α} (h : x.Answers) : C.Halts calls scope held fun _ => x :=
  fun s _ _ _ _ _ => h.settles s

private theorem Halts.andThen {x : Nat → Eval α} {f : α → Eval β} (hx : C.Halts calls scope held x)
    (hf : ∀ a, (f a).Answers) : C.Halts calls scope held fun m => x m >>= f :=
  fun s hs ha hinv hheld hcalls => (hx s hs ha hinv hheld hcalls).bind fun a t _ => (hf a).settles t

private theorem Halts.yields {x : Nat → Eval Value} (e : Expr) (hx : C.Halts calls scope held x) :
    C.Halts calls scope held fun m => Eval.yields e (x m) :=
  hx.andThen fun _ => Eval.Answers.bind (fun _ => rfl) fun _ => (Eval.reads_pure _).answers

namespace Lawful

variable (hC : C.Lawful)
include hC

/-- The second computation starts on the same level as the first, so it may nest as many calls. -/
private theorem halts_bind {x : Nat → Eval α} {f : Nat → α → Eval β} {vals : α → List Value} {Q : α → Prop}
    (hx : C.Halts calls scope held x) (hensures : ∀ m, C.Ensures scope held (x m) vals Q)
    (hf : ∀ a, Q a → C.Halts calls scope (vals a ++ held) fun m => f m a) :
    C.Halts calls scope held fun m => x m >>= f m := by
  intro s hs ha hinv hheld hcalls
  refine (hx s hs ha hinv hheld hcalls).bind ?_
  rintro a t ⟨m, hm⟩
  have hobeys := hensures m s hs ha hinv hheld
  rw [hm] at hobeys
  obtain ⟨honward, hinv', hvals, hq⟩ := hobeys
  refine hf a hq t honward.sound (honward.level.outline.isAlive ha) hinv' ?_ ?_
  · intro v hv
    rcases List.mem_append.1 hv with hv | hv
    · exact hvals v hv
    · exact hC.stable honward.events (hheld v hv)
  · rw [honward.level.maxDepth, honward.level.depth]
    exact hcalls

private theorem halts_inScope (span : Span) {body : Nat → ScopeId → Eval α}
    (h : ∀ id, C.Halts calls id held fun m => body m id) :
    C.Halts calls scope held fun m => Eval.inScope scope span (body m) := by
  intro s hs ha hinv hheld hcalls
  have halive := Scopes.isAlive_push scope hs.nested.stored
  have hheld' : ∀ v ∈ held, C.good (s.entered scope).events v :=
    fun v hv => hC.stable (s.suffix_entered scope) (hheld v hv)
  exact (h _ (s.entered scope) (hs.entered ha) halive (hC.enter hs ha hinv) hheld' hcalls).inScope

/-- A function that may be called leaves room for one call less. -/
private theorem halts_call {span : Span} {body : Nat → ScopeId → Eval α} {d : FunctionDecl} {closure : ScopeId}
    (hd : .function d closure ∈ held) (args : Nat) (h : ∀ k < calls, ∀ id, C.Halts k id held fun m => body m id) :
    C.Halts calls scope held fun m =>
      Eval.callable d closure args span >>= fun _ => Eval.deeper (Eval.inScope closure span (body m)) := by
  intro s hs _ hinv hheld hcalls
  rcases Eval.callable_cases d closure args span s with ⟨hc, hdepth, ha⟩ | ⟨hc, -⟩ | ⟨cause, hc, -⟩
  · refine Eval.Settles.congr ?_ fun m => Eval.bind_of_done hc _
    have hnote : (s.note (.called d closure true)).Sound := hs.note (by simp) (by simp)
    have hsuffix : s.events <:+ ((s.note (.called d closure true)).moveTo s.scopes (s.depth + 1)).events := by
      refine List.IsSuffix.trans ?_ (Session.suffix_moveTo _ _ _)
      rw [Session.events_note]
      exact List.suffix_cons _ _
    have hroom : s.maxDepth ≤ s.depth + 1 + (calls - 1) := by omega
    have hbody := hC.halts_inScope span (h (calls - 1) (by omega))
      ((s.note (.called d closure true)).moveTo s.scopes (s.depth + 1)) (hnote.moveTo hnote.nested hdepth) ha
      (hC.deeper _ (hC.call hs hinv (hheld _ hd) ha)) (fun v hv => hC.stable hsuffix (hheld v hv)) hroom
    exact hbody.deeper
  · exact ⟨0, _, fun m _ => Eval.bind_of_failed hc _, rfl⟩
  · exact ⟨0, _, fun m _ => Eval.bind_of_failed hc _, rfl⟩

private theorem halts_callFunction {body : Nat → ScopeId → Eval Flow} {d : FunctionDecl} {closure : ScopeId}
    {args : List Value} (span : Span) (hd : .function d closure ∈ held) (hargs : args ⊆ held)
    (h : ∀ k < calls, ∀ frame, C.Halts k frame [] fun m => body m frame) :
    C.Halts calls scope held fun m => Eval.callFunction d closure args span (body m) := by
  have hframe : ∀ k < calls, ∀ frame, C.Halts k frame held fun m =>
      Eval.bindParams d.name.name frame span d.params args >>= fun _ => body m frame := by
    intro k hk frame
    have hparams : (Eval.bindParams d.name.name frame span d.params args).Answers :=
      Eval.rules_answers.bindParams d.name.name frame span d.params args
    refine hC.halts_bind (halts_of_answers hparams) (fun _ => hC.bindParams d.name.name span d.params hargs)
      fun _ _ => ?_
    exact (h k hk frame).weaken (List.nil_subset _)
  have hcall : C.Halts calls scope held fun m => Eval.callable d closure args.length span >>= fun _ =>
      Eval.deeper (Eval.inScope closure span fun frame =>
        Eval.bindParams d.name.name frame span d.params args >>= fun _ => body m frame) :=
    hC.halts_call hd args.length hframe
  have hresult := hcall.andThen fun flow => (Eval.reads_result d span flow).answers
  simp only [Eval.bind_assoc] at hresult
  exact hresult

private theorem halts_each {f : Nat → α → Eval β} {as : List α} {vals : β → List Value} {Q : β → Prop}
    (h : ∀ a ∈ as, C.Halts calls scope [] fun m => f m a)
    (hensures : ∀ m, ∀ a ∈ as, C.Ensures scope [] (f m a) vals Q) :
    C.Halts calls scope held fun m => Eval.each (f m) as := by
  induction as generalizing held with
  | nil => exact halts_of_answers (Eval.reads_pure _).answers
  | cons a as ih =>
    have hfirst := (h a (by simp)).weaken (List.nil_subset held)
    have hrest := fun held => @ih held (fun b hb => h b (by simp [hb])) fun m b hb => hensures m b (by simp [hb])
    refine hC.halts_bind hfirst (fun m => (hensures m a (by simp)).weaken (List.nil_subset _)) fun b _ => ?_
    exact (hrest _).andThen fun bs => (Eval.reads_pure _).answers

private theorem halts_statements {exec : Nat → Stmt → Eval Flow} {ss : List Stmt}
    (h : ∀ st ∈ ss, C.Halts calls scope [] fun m => exec m st)
    (hflows : ∀ m, ∀ st ∈ ss, C.Flows scope [] (exec m st)) (last : Value) :
    C.Halts calls scope held fun m => Eval.statements (exec m) last ss := by
  induction ss generalizing held last with
  | nil => exact halts_of_answers (Eval.reads_pure _).answers
  | cons st ss ih =>
    have hfirst := (h st (by simp)).weaken (List.nil_subset held)
    refine hC.halts_bind hfirst (fun m => (hflows m st (by simp)).weaken (List.nil_subset _)) fun flow _ => ?_
    cases flow with
    | normal v => exact ih (fun st hst => h st (by simp [hst])) (fun m st hst => hflows m st (by simp [hst])) v
    | returned v => exact halts_of_answers (Eval.reads_pure _).answers

/-- A loop over items goes on for as many rounds as there are items. -/
private theorem halts_forEach {body : Nat → UInt64 → Value → Eval Flow} {items : List Value} (hitems : items ⊆ held)
    (h : ∀ i, ∀ v ∈ items, C.Halts calls scope [v] fun m => body m i v)
    (hflows : ∀ m i, ∀ v ∈ items, C.Flows scope [v] (body m i v)) (i : UInt64) :
    C.Halts calls scope held fun m => Eval.forEach (body m) i items := by
  induction items generalizing held i with
  | nil => exact halts_of_answers (Eval.reads_pure _).answers
  | cons v vs ih =>
    obtain ⟨hv, hvs⟩ := List.cons_subset.1 hitems
    have hsub : [v] ⊆ held := by simpa using hv
    refine hC.halts_bind ((h i v (by simp)).weaken hsub) (fun m => (hflows m i v (by simp)).weaken hsub)
      fun flow _ => ?_
    cases flow with
    | normal w =>
      exact ih (fun u hu => by simp [hvs hu]) (fun i u hu => h i u (by simp [hu]))
        (fun m i u hu => hflows m i u (by simp [hu])) (i + 1)
    | returned w => exact halts_of_answers (Eval.reads_pure _).answers

end Lawful

end Contract

/-! ### Code without loops -/

/-- A statement that may be repeated without end. -/
def Stmt.isLoop : Stmt → Bool
  | .whileLoop .. | .forLoop .. => true
  | _ => false

/-- None of the statements may be repeated without end. -/
def LoopFree (ss : List Stmt) : Prop := ∀ st ∈ ss, st.isLoop = false

instance (ss : List Stmt) : Decidable (LoopFree ss) := inferInstanceAs (Decidable (∀ st ∈ ss, st.isLoop = false))

private theorem LoopFree.mono {ss ss' : List Stmt} (h : LoopFree ss) (hsub : ss' ⊆ ss) : LoopFree ss' :=
  fun st hst => h st (hsub hst)

/-- The functions in the value have bodies without loops. -/
def Value.LoopFree : Value → Prop := Value.All (IsKnown fun d _ => BraceScript.LoopFree d.parts)

private theorem Registry.keeps_loopFree_default (now : Nat) :
    ∀ b ∈ (Registry.default now).entries, b.Keeps Value.LoopFree := by
  intro b hb args output v rest _ hcall
  rcases call_default hb hcall with rfl | ⟨n, -, rfl⟩
  · exact trivial
  · exact trivial

namespace Contract

variable {past : List Event} {calls : Nat} {scope : ScopeId}

/-- No function with a loop in its body is about. -/
def loopFree (past : List Event) : Contract :=
  steady Value.LoopFree (fun _ => True) (fun st => st.isLoop = false) past

private theorem valueLaws_loopFree : (loopFree past).ValueLaws :=
  .of_known (fun _ _ => .rfl) (fun _ h => h) (fun h => h) (fun h => ⟨fun _ _ _ => trivial, h⟩) fun _ h => h.stmts

private theorem lawful_loopFree : (loopFree past).Lawful :=
  lawful_steady valueLaws_loopFree fun d _ => (Value.closed_isKnown _).all_default d

private theorem allows_loopFree (es : List Expr) : (loopFree past).Allows es := fun _ _ _ => trivial

/-- Statements without loops settle if fewer than `calls` more calls may be nested. -/
private def CallsHalt (past : List Event) (calls : Nat) : Prop :=
  ∀ k < calls, ∀ scope ss, LoopFree (Stmt.listParts ss) → (loopFree past).Halts k scope [] fun m =>
    Stmt.execAll m scope ss

end Contract

/-! ### The evaluators -/

section Evaluators

open Contract

variable {past : List Event} {calls : Nat}

/-- A call settles, since fewer calls may be nested in it. -/
private theorem Expr.halts_call (hcalls : CallsHalt past calls) (scope : ScopeId) (callee : Ident)
    {arguments : List Expr} (span : Span)
    (h : ∀ e ∈ arguments, (loopFree past).Halts calls scope [] fun m => e.eval m scope) :
    (loopFree past).Halts calls scope [] fun m => Expr.eval m scope (.call callee arguments span) := by
  have hC : (loopFree past).Lawful := lawful_loopFree
  have hlookup : (Eval.lookup scope callee).Answers := (Eval.reads_lookup scope callee).answers
  have hyields : ∀ m, ∀ e ∈ arguments, (loopFree past).Yields scope [] (e.eval m scope) :=
    fun m e _ => (hC.obeyed m).expr scope e (allows_loopFree _)
  refine .succ (.yields _ ?_)
  refine hC.halts_bind (halts_of_answers hlookup) (fun _ => hC.lookup callee) fun target _ => ?_
  refine hC.halts_bind (hC.halts_each h hyields) (fun m => (hC.each (hyields m)).weaken (List.nil_subset _))
    fun args _ => ?_
  have hsub : args ⊆ args.flatMap (fun v => [v]) ++ ([target] ++ []) := fun v hv => by simp [hv]
  cases target with
  | function d closure =>
    intro s hs ha hinv hheld hroom
    -- the function was bound, so its body has no loops
    have hcode : LoopFree (Stmt.listParts d.body.statements) := by
      rw [← FunctionDecl.parts_eq]
      exact (hC.code (hheld (.function d closure) (by simp))).stmts
    exact hC.halts_callFunction span (by simp) hsub (fun k hk frame => hcalls k hk frame _ hcode) s hs
      ha hinv hheld hroom
  | builtin name => exact halts_of_answers (Eval.answers_callBuiltin _ _ _)
  | _ => exact halts_of_answers (Eval.reads_fail _ _).answers

mutual

/-- Expressions settle, by induction on their structure. -/
private theorem Expr.halts (hcalls : CallsHalt past calls) (scope : ScopeId) :
    ∀ e : Expr, (loopFree past).Halts calls scope [] fun m => e.eval m scope
  | .ident id => .succ (.yields _ (halts_of_answers (Eval.reads_lookup scope id).answers))
  | .literal l _ => .succ (.yields _ (halts_of_answers (Eval.reads_pure (Value.ofLiteral l)).answers))
  | .unary op operand _ _ => by
    refine .succ (.yields _ ((Expr.halts hcalls scope operand).andThen fun v => ?_))
    exact (Eval.reads_ofExcept _ _).answers.bind fun new => Eval.rules_answers.storeStep scope op operand new
  | .binary op left right _ => by
    have hC : (loopFree past).Lawful := lawful_loopFree
    have hleft : ∀ m, (loopFree past).Yields scope [] (left.eval m scope) :=
      fun m => (hC.obeyed m).expr scope left (allows_loopFree _)
    refine .succ (.yields _ (hC.halts_bind (Expr.halts hcalls scope left) hleft fun a _ => ?_))
    exact ((Expr.halts hcalls scope right).weaken (List.nil_subset _)).andThen fun b =>
      (Eval.reads_ofExcept _ _).answers
  | .assign target op value _ =>
    .succ (.yields _ ((Expr.halts hcalls scope value).andThen fun new =>
      Eval.rules_answers.assignTo scope target op new value.span))
  | .call callee arguments span => Expr.halts_call hcalls scope callee span (Expr.listHalts hcalls scope arguments)
  | .build name fields _ => by
    have hC : (loopFree past).Lawful := lawful_loopFree
    have hnamed : (Eval.structNamed scope name).Answers := (Eval.reads_structNamed scope name).answers
    refine .succ (.yields _ (hC.halts_bind (halts_of_answers hnamed) (fun _ => hC.structNamed name) fun d _ => ?_))
    have hfields : (loopFree past).Halts calls scope [] fun m =>
        Eval.each (Expr.evalField m scope name.name d) fields :=
      hC.halts_each (Expr.fieldsHalt hcalls scope name.name d fields)
        fun m f _ => (hC.obeyed m).field scope name.name d f (allows_loopFree _)
    exact (hfields.weaken (List.nil_subset _)).andThen fun values => (Eval.reads_pure _).answers
  | .property object name _ =>
    .succ (.yields _ ((Expr.halts hcalls scope object).andThen fun v => (Eval.reads_located _).answers))
  | .array elements _ _ => by
    have hC : (loopFree past).Lawful := lawful_loopFree
    have hitems : (loopFree past).Halts calls scope [] fun m => Eval.each (Expr.eval m scope) elements :=
      hC.halts_each (Expr.listHalts hcalls scope elements) fun m e _ =>
        (hC.obeyed m).expr scope e (allows_loopFree _)
    exact .succ (.yields _ (hitems.andThen fun items => (Eval.reads_pure _).answers))
  | .index base position _ => by
    have hC : (loopFree past).Lawful := lawful_loopFree
    have hlookup : (Eval.lookup scope base).Answers := (Eval.reads_lookup scope base).answers
    refine .succ (.yields _ (hC.halts_bind (halts_of_answers hlookup) (fun _ => hC.lookup base)
      fun collection _ => ?_))
    exact ((Expr.halts hcalls scope position).weaken (List.nil_subset _)).andThen fun p =>
      (Eval.reads_index _ _ _ _).answers

private theorem Expr.listHalts (hcalls : CallsHalt past calls) (scope : ScopeId) :
    ∀ es : List Expr, ∀ e ∈ es, (loopFree past).Halts calls scope [] fun m => e.eval m scope
  | [] => by simp
  | e :: es => List.forall_mem_cons.2 ⟨Expr.halts hcalls scope e, Expr.listHalts hcalls scope es⟩

private theorem Expr.fieldsHalt (hcalls : CallsHalt past calls) (scope : ScopeId) (struct : String)
    (d : StructDecl) :
    ∀ fields : List (Ident × Expr), ∀ f ∈ fields,
      (loopFree past).Halts calls scope [] fun m => Expr.evalField m scope struct d f
  | [] => by simp
  | (name, e) :: fields => by
    have hC : (loopFree past).Lawful := lawful_loopFree
    have hsettable : (Eval.settable struct d name).Answers := (Eval.reads_settable struct d name).answers
    refine List.forall_mem_cons.2 ⟨?_, Expr.fieldsHalt hcalls scope struct d fields⟩
    refine .succ (hC.halts_bind (halts_of_answers hsettable) (fun _ => hC.settable struct d name) fun p _ => ?_)
    refine ((Expr.halts hcalls scope e).weaken (List.nil_subset _)).andThen fun v => ?_
    exact (Eval.reads_checked _ _).answers.bind fun w => (Eval.reads_pure _).answers

end

private theorem VariableDecl.halts (hcalls : CallsHalt past calls) (scope : ScopeId) (d : VariableDecl) :
    (loopFree past).Halts calls scope [] fun m => d.initial m scope := by
  obtain ⟨name, isConstant, type, value, span⟩ := d
  refine .succ ?_
  cases value with
  | some e =>
    cases type with
    | some t => exact (Expr.halts hcalls scope e).andThen fun v => (Eval.reads_checked _ _).answers
    | none => exact Expr.halts hcalls scope e
  | none =>
    cases type with
    | some t => exact halts_of_answers (Eval.reads_pure _).answers
    | none => exact halts_of_answers (Eval.reads_pure _).answers

private theorem Block.halts_exec {scope : ScopeId} {b : Block}
    (h : ∀ inner, (loopFree past).Halts calls inner [] fun m => Stmt.execAll m inner b.statements) :
    (loopFree past).Halts calls scope [] fun m => b.exec m scope :=
  .succ (lawful_loopFree.halts_inScope b.span h)

private theorem Stmt.halts_foreach (hcalls : CallsHalt past calls) (scope : ScopeId) (value : Ident)
    (position : Option Ident) (iterable : Expr) {body : Block} (span : Span) (hbody : LoopFree body.parts)
    (h : ∀ inner, (loopFree past).Halts calls inner [] fun m => Stmt.execAll m inner body.statements) :
    (loopFree past).Halts calls scope [] fun m =>
      Stmt.exec m scope (.foreach value position iterable body span) := by
  have hC : (loopFree past).Lawful := lawful_loopFree
  have hiterable : ∀ m, (loopFree past).Yields scope [] (iterable.eval m scope) :=
    fun m => (hC.obeyed m).expr scope iterable (allows_loopFree _)
  have hstmts : ∀ m inner, (loopFree past).Flows inner [] (Stmt.execAll m inner body.statements) := by
    rw [Block.parts_eq] at hbody
    exact fun m inner => (hC.obeyed m).stmts inner _ ⟨allows_loopFree _, hbody⟩
  refine .succ (hC.halts_bind (Expr.halts hcalls scope iterable) hiterable fun v _ => ?_)
  have hiterated : (Eval.iterated v iterable.span).Answers := (Eval.reads_iterated v iterable.span).answers
  refine hC.halts_bind (halts_of_answers hiterated) (fun _ => hC.iterated iterable.span (by simp)) fun items _ => ?_
  have hbind : ∀ inner i item, (Eval.bindItem inner value position i item).Answers :=
    fun inner i item => Eval.rules_answers.bindItem inner value position i item
  refine hC.halts_forEach (by simp) (fun i item _ => hC.halts_inScope _ fun inner => ?_) (fun m i item _ => ?_) 0
  · refine hC.halts_bind (halts_of_answers (hbind inner i item)) (fun _ => hC.bindItem value position i (by simp))
      fun _ _ => ?_
    exact (h inner).weaken (List.nil_subset _)
  · refine hC.inScope _ fun inner => hC.bind (hC.bindItem value position i (by simp)) fun _ _ => ?_
    exact (hstmts m inner).weaken (List.nil_subset _)

mutual

/-- Statements without loops settle, by induction on their structure. -/
private theorem Stmt.halts (hcalls : CallsHalt past calls) : ∀ st : Stmt, LoopFree st.parts → ∀ scope,
    (loopFree past).Halts calls scope [] fun m => st.exec m scope
  | .expression e _, _, scope => .succ ((Expr.halts hcalls scope e).andThen fun v => (Eval.reads_pure _).answers)
  | .block body, h, scope => by
    rw [Stmt.parts] at h
    exact .succ (Block.halts_exec (Block.halts hcalls body (h.mono (List.subset_cons_self _ _))))
  | .declare d, _, scope => by
    refine .succ ((VariableDecl.halts hcalls scope d).andThen fun v => ?_)
    exact Eval.Answers.bind (Eval.rules_answers.declareVariable scope d v) fun _ => (Eval.reads_pure _).answers
  | .function d, _, scope =>
    .succ (halts_of_answers (Eval.Answers.bind (Eval.rules_answers.declareFunction scope d) fun _ =>
      (Eval.reads_pure _).answers))
  | .ret none _, _, _ => .succ (halts_of_answers (Eval.reads_pure _).answers)
  | .ret (some e) _, _, scope => .succ ((Expr.halts hcalls scope e).andThen fun v => (Eval.reads_pure _).answers)
  | .branch s, h, scope => by
    rw [Stmt.parts] at h
    exact .succ (IfStmt.halts hcalls s (h.mono (List.subset_cons_self _ _)) scope)
  | .struct d, _, scope =>
    .succ (halts_of_answers (Eval.Answers.bind (Eval.answers_change _ _ _) fun _ => (Eval.reads_pure _).answers))
  | .whileLoop condition body span, h, _ => by
    have hloop := h _ (Stmt.mem_parts_self _)
    cases hloop
  | .forLoop counter init condition post body span, h, _ => by
    have hloop := h _ (Stmt.mem_parts_self _)
    cases hloop
  | .foreach value position iterable body span, h, scope => by
    rw [Stmt.parts] at h
    have hbody : LoopFree body.parts := h.mono (List.subset_cons_self _ _)
    exact Stmt.halts_foreach hcalls scope value position iterable span hbody (Block.halts hcalls body hbody)
  | .imports _, _, _ => .succ (halts_of_answers (Eval.reads_pure _).answers)

private theorem Block.halts (hcalls : CallsHalt past calls) : ∀ b : Block, LoopFree b.parts → ∀ scope,
    (loopFree past).Halts calls scope [] fun m => Stmt.execAll m scope b.statements
  | ⟨ss, _⟩, h, scope => by
    rw [Block.parts] at h
    have hC : (loopFree past).Lawful := lawful_loopFree
    have hflows : ∀ m, ∀ st ∈ ss, (loopFree past).Flows scope [] (st.exec m scope) :=
      fun m st hst => (hC.obeyed m).stmt scope st (Admits.of_list ⟨allows_loopFree _, h⟩ hst)
    exact .succ (hC.halts_statements (fun st hst => Stmt.listHalts hcalls ss h st hst scope) hflows .null)

private theorem IfStmt.halts (hcalls : CallsHalt past calls) : ∀ i : IfStmt, LoopFree i.parts → ∀ scope,
    (loopFree past).Halts calls scope [] fun m => i.exec m scope
  | ⟨condition, consequent, alternate, span⟩, h, scope => by
    have hC : (loopFree past).Lawful := lawful_loopFree
    rw [IfStmt.parts] at h
    have hcondition : ∀ m, (loopFree past).Yields scope [] (condition.eval m scope) :=
      fun m => (hC.obeyed m).expr scope condition (allows_loopFree _)
    have hconsequent := Block.halts hcalls consequent (h.mono (List.subset_append_left _ _))
    have halternate := Alternate.halts hcalls alternate (h.mono (List.subset_append_right _ _)) scope
    refine .succ (hC.halts_bind (Expr.halts hcalls scope condition) hcondition fun v _ => ?_)
    cases v.isTruthy with
    | true =>
      simp only [if_true]
      exact (Block.halts_exec hconsequent).weaken (List.nil_subset _)
    | false =>
      simp only [Bool.false_eq_true, if_false]
      exact halternate.weaken (List.nil_subset _)

private theorem Alternate.halts (hcalls : CallsHalt past calls) : ∀ a : Alternate, LoopFree a.parts → ∀ scope,
    (loopFree past).Halts calls scope [] fun m =>
      match a with
      | .nothing => pure (.normal .null)
      | .elseIf next => next.exec m scope
      | .otherwise body => body.exec m scope
  | .nothing, _, _ => halts_of_answers (Eval.reads_pure _).answers
  | .elseIf next, h, scope => by
    rw [Alternate.parts] at h
    exact IfStmt.halts hcalls next h scope
  | .otherwise body, h, scope => by
    rw [Alternate.parts] at h
    exact Block.halts_exec (Block.halts hcalls body h)

private theorem Stmt.listHalts (hcalls : CallsHalt past calls) :
    ∀ ss : List Stmt, LoopFree (Stmt.listParts ss) → ∀ st ∈ ss,
    ∀ scope, (loopFree past).Halts calls scope [] fun m => st.exec m scope
  | [], _ => by simp
  | st :: ss, h => by
    rw [Stmt.listParts] at h
    exact List.forall_mem_cons.2 ⟨Stmt.halts hcalls st (h.mono (List.subset_append_left _ _)),
      Stmt.listHalts hcalls ss (h.mono (List.subset_append_right _ _))⟩

end

/-- However many calls may be nested, statements without loops settle. -/
private theorem Stmt.execAll_halts (calls : Nat) (scope : ScopeId) (ss : List Stmt)
    (h : LoopFree (Stmt.listParts ss)) : (loopFree past).Halts calls scope [] fun m => Stmt.execAll m scope ss := by
  induction calls using Nat.strongRecOn generalizing scope ss with
  | ind calls ih =>
    refine Block.halts (fun k hk scope ss h => ih k hk scope ss h) ⟨ss, default⟩ ?_ scope
    rw [Block.parts]
    exact h

end Evaluators

/-! ### Runs -/

/-- A program without `while` and `for`, run where no variable holds a function with one of them in its body and no
built-in function makes one up, ends with a value or with an error, whatever the limit of calls: there is an amount
of fuel from which on the run ends, always in the same way. -/
theorem Program.run_settles {s : Session} (hs : s.Reachable) (p : Program)
    (hp : LoopFree (Stmt.listParts p.contents)) (hbound : s.scopes.Holds Value.LoopFree)
    (hbuiltins : ∀ b ∈ s.builtins.entries, b.Keeps Value.LoopFree) :
    ∃ n, (∃ v t, ∀ m, n ≤ m → p.run m s = .done v t) ∨ ∃ e t, ∀ m, n ≤ m → p.run m s = .failed e t := by
  have hinv : (Contract.loopFree s.events).inv s := .start hbuiltins ⟨hbound, fun _ _ => rfl⟩
  have hroom : s.maxDepth ≤ s.depth + s.maxDepth := Nat.le_add_left _ _
  obtain ⟨n, o, ho, hsome⟩ := Stmt.execAll_halts s.maxDepth s.scopes.root p.contents hp s hs.sound
    hs.sound.nested.isAlive_root hinv (by simp) hroom
  refine ⟨n, ?_⟩
  cases o with
  | done flow t => exact .inl ⟨flow.value, t, fun m hm => by simp only [run, ho m hm]⟩
  | failed e t => exact .inr ⟨e, t, fun m hm => by simp only [run, ho m hm]⟩
  | exhausted t => cases hsome

/-- The program `fn f() { foreach x in [1, 1] { g(); } } fn g() { f(); } f();`, in which two functions call each
other from inside a `foreach`. -/
private def endlessCalls : Program :=
  let f : Ident := ⟨"f", default⟩
  let g : Ident := ⟨"g", default⟩
  let call (id : Ident) : Stmt := .expression (.call id [] default) default
  let one : Expr := .literal (.integer 1 .w32) default
  let loop : Stmt := .foreach ⟨"x", default⟩ none (.array [one, one] 2 default) ⟨[call g], default⟩ default
  ⟨"m", [], [.function ⟨f, [], .void, ⟨[loop], default⟩, default⟩,
    .function ⟨g, [], .void, ⟨[call f], default⟩, default⟩,
    call f], default⟩

/-- The limit of calls that a run has hit. -/
private def Outcome.limitHit? : Outcome Value → Option Nat
  | .failed ⟨.callDepthExceeded limit, _⟩ _ => some limit
  | _ => none

private theorem Outcome.failed_of_limitHit {o : Outcome Value} {limit : Nat} (h : o.limitHit? = some limit) :
    ∃ e t, o = .failed e t ∧ e.cause = .callDepthExceeded limit := by
  unfold limitHit? at h
  split at h
  · cases h
    exact ⟨_, _, rfl, rfl⟩
  · cases h

/-- The functions would call each other forever, but the run ends at the limit of calls. -/
theorem Program.run_settles_endlessCalls :
    LoopFree (Stmt.listParts endlessCalls.contents) ∧
      (∃ e t, endlessCalls.run 40 (.fresh (.default 0) 3 .empty) = .failed e t ∧ e.cause = .callDepthExceeded 3) ∧
      ∃ n, (∃ v t, ∀ m, n ≤ m → endlessCalls.run m (.fresh (.default 0) 3 .empty) = .done v t) ∨
        ∃ e t, ∀ m, n ≤ m → endlessCalls.run m (.fresh (.default 0) 3 .empty) = .failed e t := by
  have hfree : LoopFree (Stmt.listParts endlessCalls.contents) := by decide
  refine ⟨hfree, Outcome.failed_of_limitHit (by decide +kernel), ?_⟩
  exact Program.run_settles (.fresh (.default 0) 3 .empty) endlessCalls hfree Scopes.holds_initial
    (Registry.keeps_loopFree_default 0)

end BraceScript
