import BraceScript.Proofs.CallLimit
import BraceScript.Proofs.Steps

/-!
# Bounded output

A run writes a text that does not depend on how much of it the output accepts, as long as all is accepted: programs
cannot look at what they have written.  So two runs of a program with different outputs go side by side
(`Eval.Streams`) until one of the outputs refuses a write.  From there on nothing more is written in this run, since
the error of `print` goes through every block, loop and call, and the output has kept the beginning of the text.
`Program.run_bounded_output` compares the runs with an output that accepts everything and with one that has a limit.
-/

namespace BraceScript

variable {α β : Type}

/-! ### Offering data -/

namespace Output

/-- Whether all of the data is accepted. -/
def fits (o : Output) (data : ByteArray) : Bool := o.room data.size == data.size

/-- The output after the data has been offered: it keeps what it accepts. -/
def offered (o : Output) (data : ByteArray) : Output :=
  { o with bytes := o.bytes ++ data.extract 0 (o.room data.size) }

variable {o : Output}

private theorem write_eq (o : Output) (text : String) : o.write text = (o.fits text.toUTF8, o.offered text.toUTF8) :=
  rfl

private theorem room_le (o : Output) (n : Nat) : o.room n ≤ n := by
  unfold room
  split
  · exact Nat.le_refl n
  · exact Nat.min_le_left _ _

private theorem size_offered (o : Output) (data : ByteArray) :
    (o.offered data).bytes.size = o.bytes.size + o.room data.size := by
  have hle := o.room_le data.size
  simp only [offered, ByteArray.size_append, ByteArray.size_extract]
  omega

/-- Offering data leaves room for the rest. -/
private theorem room_offered (o : Output) (a : ByteArray) (n : Nat) :
    o.room (a.size + n) = o.room a.size + (o.offered a).room n := by
  have hsize := o.size_offered a
  cases hlimit : o.limit with
  | none => simp [room, offered, hlimit]
  | some limit =>
    have hlimit' : (o.offered a).limit = some limit := hlimit
    simp only [room, hlimit, hlimit'] at hsize ⊢
    omega

/-- If something has been refused then nothing more is accepted. -/
private theorem room_offered_of_not_fits {a : ByteArray} (h : o.fits a = false) (n : Nat) :
    (o.offered a).room n = 0 := by
  have hle := o.room_le a.size
  have hne : o.room a.size ≠ a.size := by simpa [fits] using h
  have hsize := o.size_offered a
  cases hlimit : o.limit with
  | none => simp [room, hlimit] at hne
  | some limit =>
    have hlimit' : (o.offered a).limit = some limit := hlimit
    simp only [room, hlimit, hlimit'] at hsize hne ⊢
    omega

private theorem extract_min (data : ByteArray) (n : Nat) : data.extract 0 (min n data.size) = data.extract 0 n := by
  have h := ByteArray.extract_extract (a := data) (i := 0) (j := data.size) (k := 0) (l := n)
  rw [ByteArray.extract_zero_size, Nat.zero_add, Nat.zero_add] at h
  exact h.symm

private theorem fits_append (o : Output) (a b : ByteArray) :
    o.fits (a ++ b) = (o.fits a && (o.offered a).fits b) := by
  have hroom := o.room_offered a b.size
  have ha := o.room_le a.size
  have hb := (o.offered a).room_le b.size
  rw [Bool.eq_iff_iff]
  simp only [fits, ByteArray.size_append, Bool.and_eq_true, beq_iff_eq]
  omega

/-- Data can be offered in pieces. -/
private theorem offered_append (o : Output) (a b : ByteArray) : o.offered (a ++ b) = (o.offered a).offered b := by
  have hroom := o.room_offered a b.size
  have ha := o.room_le a.size
  -- Either all of `a` is accepted or nothing of `b` is.
  have hcut : min (o.room (a.size + b.size)) a.size = o.room a.size ∧
      o.room (a.size + b.size) - a.size = (o.offered a).room b.size := by
    cases hfits : o.fits a with
    | true =>
      have hall : o.room a.size = a.size := by simpa [fits] using hfits
      omega
    | false =>
      have hnone := room_offered_of_not_fits hfits b.size
      omega
  have hdata : (a ++ b).extract 0 (o.room (a ++ b).size) =
      a.extract 0 (o.room a.size) ++ b.extract 0 ((o.offered a).room b.size) := by
    rw [ByteArray.size_append, ByteArray.extract_append, Nat.zero_sub, hcut.2, ← extract_min a, hcut.1]
  simp only [offered, hdata, ByteArray.append_assoc]

private theorem offered_of_room_eq_zero {data : ByteArray} (h : o.room data.size = 0) : o.offered data = o := by
  unfold offered
  rw [h, ByteArray.extract_same, ByteArray.append_empty]

private theorem offered_offered_of_not_fits {a : ByteArray} (h : o.fits a = false) (b : ByteArray) :
    (o.offered a).offered b = o.offered a :=
  offered_of_room_eq_zero (room_offered_of_not_fits h b.size)

private theorem room_zero (o : Output) : o.room 0 = 0 := Nat.eq_zero_of_le_zero (o.room_le 0)

@[simp] private theorem fits_empty (o : Output) : o.fits .empty = true := by
  simp [fits, room_zero]

@[simp] private theorem offered_empty (o : Output) : o.offered .empty = o := offered_of_room_eq_zero o.room_zero

/-- Texts that are written one after another are written as one text. -/
private theorem writeAll_eq_write (o : Output) (texts : List String) :
    o.writeAll texts = o.write (String.join texts) := by
  induction texts generalizing o with
  | nil =>
    have hempty : "".toUTF8 = ByteArray.empty := rfl
    rw [writeAll, String.join_nil, write_eq, hempty, fits_empty, offered_empty]
  | cons text texts ih =>
    have hbytes : (String.join (text :: texts)).toUTF8 = text.toUTF8 ++ (String.join texts).toUTF8 := by
      rw [String.join_cons]
      exact String.toByteArray_append
    rw [writeAll, write_eq, write_eq, hbytes, fits_append, offered_append]
    cases hfits : o.fits text.toUTF8 with
    | true => rw [Bool.true_and]; exact ih _
    | false => rw [Bool.false_and, offered_offered_of_not_fits hfits]

end Output

/-! ### Built-in functions that write -/

/-- What an error of `print` says. -/
def Output.writeFailure : String := "failed to write output: " ++ fullMessage

/-- A call offers data to the output that depends on the arguments only, and answers what depends on them only if all
of the data is accepted.  Only `print` writes. -/
def Builtin.Streams (b : Builtin) : Prop :=
  ∀ args, ∃ answer data, ∀ o : Output,
    (o.fits data = true → b.call args o = (answer, o.offered data)) ∧
    (o.fits data = false → b.name = "print" ∧ b.call args o = (.error Output.writeFailure, o.offered data))

private theorem Builtin.streams_of_silent {b : Builtin} (h : ∀ args, ∃ answer, ∀ o, b.call args o = (answer, o)) :
    b.Streams := by
  intro args
  obtain ⟨answer, hanswer⟩ := h args
  refine ⟨answer, .empty, fun o => ⟨fun _ => ?_, fun hfits => ?_⟩⟩
  · rw [hanswer, Output.offered_empty]
  · rw [Output.fits_empty] at hfits
    cases hfits

private theorem Builtin.streams_print : print.Streams := by
  intro args
  refine ⟨.ok .void, (String.join (args.map Value.text ++ ["\n"])).toUTF8,
    fun o => ⟨fun hfits => ?_, fun hfits => ⟨rfl, ?_⟩⟩⟩
  · simp only [print, Output.writeAll_eq_write, Output.write_eq, hfits]
  · simp only [print, Output.writeAll_eq_write, Output.write_eq, hfits]
    rfl

private theorem Registry.streams_default (now : Nat) : ∀ b ∈ (Registry.default now).entries, b.Streams := by
  intro b hb
  rcases mem_register hb with rfl | hb
  · exact Builtin.streams_of_silent fun _ => ⟨_, fun _ => rfl⟩
  rcases mem_register hb with rfl | hb
  · exact Builtin.streams_of_silent fun _ => ⟨_, fun _ => rfl⟩
  rcases mem_register hb with rfl | hb
  · exact Builtin.streams_print
  · cases hb

/-! ### Computations with another output -/

/-- The session with another output. -/
def Session.withOutput (s : Session) (output : Output) : Session := { s with output }

namespace Outcome

/-- The outcome in a session with another output. -/
def withOutput (output : Output) : Outcome α → Outcome α
  | done a s => done a (s.withOutput output)
  | failed e s => failed e (s.withOutput output)
  | exhausted s => exhausted (s.withOutput output)

/-- The computation has failed because `print` could not write all, and this is the output since then. -/
def WriteFails (output : Output) (r : Outcome α) : Prop :=
  ∃ span s, r = failed ⟨.builtin "print" Output.writeFailure, span⟩ s ∧ s.output = output

private theorem withOutput_withOutput (r : Outcome α) (o o' : Output) :
    (r.withOutput o).withOutput o' = r.withOutput o' := by
  cases r <;> rfl

private theorem session?_withOutput (r : Outcome α) (o : Output) :
    (r.withOutput o).session? = r.session?.map (·.withOutput o) := by
  cases r <;> rfl

end Outcome

namespace Eval

variable {scope : ScopeId}

/-- Started in `s` with any output, the computation offers the same data to it, and unless some of the data is
refused, it comes to the same. -/
def StreamsFrom (s : Session) (x : Eval α) : Prop :=
  ∃ (data : ByteArray) (r : Outcome α), r.session.builtins = s.builtins ∧ ∀ o : Output,
    (o.fits data = true → x (s.withOutput o) = r.withOutput (o.offered data)) ∧
    (o.fits data = false → (x (s.withOutput o)).WriteFails (o.offered data))

/-- What the computation does depends on its output only in that writes may be refused. -/
def Streams ⦃α : Type⦄ (_ : ScopeId) (x : Eval α) : Prop :=
  ∀ s : Session, (∀ b ∈ s.builtins.entries, b.Streams) → x.StreamsFrom s

private theorem streamsFrom_of_commutes {x : Eval α} {s : Session} {r : Outcome α}
    (hkeep : r.session.builtins = s.builtins) (hsame : ∀ o, x (s.withOutput o) = r.withOutput o) :
    x.StreamsFrom s := by
  refine ⟨.empty, r, hkeep, fun o => ⟨fun _ => ?_, fun hfits => ?_⟩⟩
  · rw [hsame, Output.offered_empty]
  · rw [Output.fits_empty] at hfits
    cases hfits

/-- A step that does not write. -/
private theorem streams_of_commutes {x : Eval α} (hkeep : ∀ s, (x s).session.builtins = s.builtins)
    (hsame : ∀ s o, x (s.withOutput o) = (x s).withOutput o) : Streams scope x :=
  fun s _ => streamsFrom_of_commutes (hkeep s) (hsame s)

private theorem Reads.streams {x : Eval α} (h : x.Reads) : Streams scope x := by
  intro s _
  rcases h s with ⟨a, ha⟩ | ⟨e, he⟩
  · exact streamsFrom_of_commutes (r := .done a s) rfl fun o => ha (s.withOutput o) rfl rfl
  · exact streamsFrom_of_commutes (r := .failed e s) rfl fun o => he (s.withOutput o) rfl rfl

private theorem writeFails_bind {x : Eval α} {s : Session} {o : Output} (h : (x s).WriteFails o) (f : α → Eval β) :
    ((x >>= f) s).WriteFails o := by
  obtain ⟨span, t, hx, houtput⟩ := h
  exact ⟨span, t, bind_of_failed hx f, houtput⟩

private theorem Streams.bind {x : Eval α} {f : α → Eval β} (hx : Streams scope x) (hf : ∀ a, Streams scope (f a)) :
    Streams scope (x >>= f) := by
  intro s hbuiltins
  obtain ⟨data, r, hkeep, hx⟩ := hx s hbuiltins
  cases r with
  | done a t =>
    have hkeep : t.builtins = s.builtins := hkeep
    obtain ⟨more, r, hkeep', hf⟩ := hf a t (by rw [hkeep]; exact hbuiltins)
    refine ⟨data ++ more, r, hkeep'.trans hkeep, fun o => ?_⟩
    rw [Output.fits_append, Output.offered_append]
    cases hfits : o.fits data with
    | true =>
      -- the first part is written, and the second starts where it ends
      rw [Bool.true_and, bind_of_done ((hx o).1 hfits)]
      exact hf (o.offered data)
    | false =>
      rw [Bool.false_and, Output.offered_offered_of_not_fits hfits]
      exact ⟨fun h => Bool.noConfusion h, fun _ => writeFails_bind ((hx o).2 hfits) f⟩
  | failed e t =>
    refine ⟨data, .failed e t, hkeep, fun o => ⟨fun hfits => ?_, fun hfits => writeFails_bind ((hx o).2 hfits) f⟩⟩
    exact bind_of_failed ((hx o).1 hfits) f
  | exhausted t =>
    refine ⟨data, .exhausted t, hkeep, fun o => ⟨fun hfits => ?_, fun hfits => writeFails_bind ((hx o).2 hfits) f⟩⟩
    exact bind_of_exhausted ((hx o).1 hfits) f

private theorem streams_change (name : String) (span : Span) (f : Scopes → Except ScopeError Scopes) :
    Streams scope (change name span f) := by
  apply streams_of_commutes
  · intro s
    unfold change
    split <;> rfl
  · intro s o
    simp only [change, Session.withOutput]
    cases f s.scopes <;> rfl

private theorem streams_replace (name : Ident) (value : Value) : Streams scope (replace scope name value) := by
  apply streams_of_commutes
  · intro s
    unfold replace
    split <;> rfl
  · intro s o
    simp only [replace, Session.withOutput]
    cases s.scopes.assign scope name.name value <;> rfl

/-- How a call of a built-in function ends, once it has answered and left this output. -/
private def answered (name : String) (span : Span) (s : Session) (output : Output) :
    Except String Value → Outcome Value
  | .ok v => .done v (s.withOutput output)
  | .error m => .failed ⟨.builtin name m, span⟩ (s.withOutput output)

private theorem streams_callBuiltin (name : String) (args : List Value) (span : Span) :
    Streams scope (callBuiltin name args span) := by
  intro s hbuiltins
  cases hget : s.builtins.get? name with
  | none =>
    refine streamsFrom_of_commutes (r := .failed ⟨.undeclared name, span⟩ s) rfl fun o => ?_
    simp only [callBuiltin, Session.withOutput, hget]
    rfl
  | some b =>
    by_cases harity : b.arity.any (· ≠ args.length) = true
    · refine streamsFrom_of_commutes (r := .failed ⟨.arityMismatch name (b.arity.getD 0) args.length, span⟩ s) rfl
        fun o => ?_
      simp only [callBuiltin, Session.withOutput, hget, if_pos harity]
      rfl
    · obtain ⟨answer, data, hcall⟩ := hbuiltins b (List.mem_of_find?_eq_some hget) args
      have hname : b.name = name := by simpa using List.find?_some hget
      have hends : ∀ o answer output, b.call args o = (answer, output) →
          callBuiltin name args span (s.withOutput o) = answered name span s output answer := by
        intro o answer output hcalled
        simp only [callBuiltin, Session.withOutput, hget, if_neg harity, hcalled]
        cases answer <;> rfl
      have hrefused : ∀ o : Output, o.fits data = false →
          (callBuiltin name args span (s.withOutput o)).WriteFails (o.offered data) := by
        intro o hfits
        obtain ⟨hprint, hfailed⟩ := (hcall o).2 hfits
        refine ⟨span, s.withOutput (o.offered data), ?_, rfl⟩
        rw [hends o _ _ hfailed, ← hname, hprint]
        rfl
      cases answer with
      | ok v => exact ⟨data, .done v s, rfl, fun o => ⟨fun hfits => hends o _ _ ((hcall o).1 hfits), hrefused o⟩⟩
      | error m =>
        exact ⟨data, .failed ⟨.builtin name m, span⟩ s, rfl,
          fun o => ⟨fun hfits => hends o _ _ ((hcall o).1 hfits), hrefused o⟩⟩

private theorem streams_callable (d : FunctionDecl) (closure : ScopeId) (args : Nat) (span : Span) :
    Streams scope (callable d closure args span) := by
  intro s _
  by_cases harity : args ≠ d.params.length
  · exact streamsFrom_of_commutes (r := .failed ⟨.arityMismatch d.name.name d.params.length args, span⟩ s) rfl
      fun o => if_pos harity
  · by_cases hdepth : s.maxDepth ≤ s.depth
    · exact streamsFrom_of_commutes (r := .failed ⟨.callDepthExceeded s.maxDepth, span⟩ s) rfl
        fun o => (if_neg harity).trans (if_pos hdepth)
    · by_cases halive : s.scopes.isAlive closure = true
      · exact streamsFrom_of_commutes (r := .done () (s.note (.called d closure true))) rfl
          fun o => (if_neg harity).trans ((if_neg hdepth).trans (if_pos halive))
      · exact streamsFrom_of_commutes
          (r := .failed ⟨.staleScope d.name.name, span⟩ (s.note (.called d closure false))) rfl
          fun o => (if_neg harity).trans ((if_neg hdepth).trans (if_neg halive))

private theorem leave_withOutput (id : ScopeId) (s : Session) (o : Output) :
    leave id (s.withOutput o) = ((leave id s).1, (leave id s).2.withOutput o) := by
  have hscopes : (s.withOutput o).scopes = s.scopes := rfl
  cases hpop : s.scopes.pop id with
  | ok scopes =>
    simp only [leave, hscopes, hpop]
    rfl
  | error e =>
    simp only [leave, hscopes, hpop]
    rfl

private theorem output_leave (id : ScopeId) (s : Session) : (leave id s).2.output = s.output := by
  unfold leave
  split <;> rfl

private theorem builtins_leave (id : ScopeId) (s : Session) : (leave id s).2.builtins = s.builtins := by
  unfold leave
  split <;> rfl

private theorem leftWith_withOutput (id : ScopeId) (span : Span) (r : Outcome α) (o : Output) :
    leftWith id span (r.withOutput o) = (leftWith id span r).withOutput o := by
  cases r with
  | exhausted s => rfl
  | done a s =>
    simp only [leftWith, Outcome.withOutput, leave_withOutput]
    obtain ⟨fault, t⟩ := leave id s
    cases fault <;> rfl
  | failed e s => simp only [leftWith, Outcome.withOutput, leave_withOutput]

private theorem builtins_leftWith (id : ScopeId) (span : Span) (r : Outcome α) :
    (leftWith id span r).session.builtins = r.session.builtins := by
  cases r with
  | exhausted s => rfl
  | done a s =>
    have hleave := builtins_leave id s
    simp only [leftWith]
    generalize leave id s = left at hleave ⊢
    obtain ⟨fault, t⟩ := left
    cases fault <;> exact hleave
  | failed e s => exact builtins_leave id s

private theorem Streams.inScope {parent : ScopeId} {span : Span} {body : ScopeId → Eval α}
    (h : ∀ id, Streams id (body id)) : Streams scope (inScope parent span body) := by
  intro s hbuiltins
  obtain ⟨data, r, hkeep, hbody⟩ := h (s.scopes.push parent).2 (s.entered parent) hbuiltins
  have hends : ∀ o, Eval.inScope parent span body (s.withOutput o) =
      leftWith (s.scopes.push parent).2 span (body (s.scopes.push parent).2 ((s.entered parent).withOutput o)) :=
    fun _ => rfl
  refine ⟨data, leftWith (s.scopes.push parent).2 span r, (builtins_leftWith _ _ _).trans hkeep,
    fun o => ⟨fun hfits => ?_, fun hfits => ?_⟩⟩
  · rw [hends, (hbody o).1 hfits]
    exact leftWith_withOutput _ _ _ _
  · obtain ⟨place, t, hfailed, houtput⟩ := (hbody o).2 hfits
    refine ⟨place, (leave (s.scopes.push parent).2 t).2, by rw [hends, hfailed]; rfl, ?_⟩
    rw [output_leave]
    exact houtput

/-- How a computation one call deeper ends once it has come back. -/
private def backWith : Outcome α → Outcome α
  | .exhausted s => .exhausted s
  | .done a s => .done a (s.moveTo s.scopes (s.depth - 1))
  | .failed e s => .failed e (s.moveTo s.scopes (s.depth - 1))

private theorem backWith_withOutput (r : Outcome α) (o : Output) :
    backWith (r.withOutput o) = (backWith r).withOutput o := by
  cases r <;> rfl

private theorem builtins_backWith (r : Outcome α) : (backWith r).session.builtins = r.session.builtins := by
  cases r <;> rfl

private theorem Streams.deeper {body : Eval α} (h : Streams scope body) : Streams scope (deeper body) := by
  intro s hbuiltins
  obtain ⟨data, r, hkeep, hbody⟩ := h (s.moveTo s.scopes (s.depth + 1)) hbuiltins
  have hends : ∀ o, Eval.deeper body (s.withOutput o) =
      backWith (body ((s.moveTo s.scopes (s.depth + 1)).withOutput o)) := by
    intro o
    have hmoved : (s.withOutput o).moveTo (s.withOutput o).scopes ((s.withOutput o).depth + 1) =
      (s.moveTo s.scopes (s.depth + 1)).withOutput o := rfl
    rw [Eval.deeper, hmoved]
    cases body ((s.moveTo s.scopes (s.depth + 1)).withOutput o) <;> rfl
  refine ⟨data, backWith r, (builtins_backWith r).trans hkeep, fun o => ⟨fun hfits => ?_, fun hfits => ?_⟩⟩
  · rw [hends, (hbody o).1 hfits]
    exact backWith_withOutput _ _
  · obtain ⟨place, t, hfailed, houtput⟩ := (hbody o).2 hfits
    exact ⟨place, t.moveTo t.scopes (t.depth - 1), by rw [hends, hfailed]; rfl, houtput⟩

/-- Every evaluation depends on its output only in that writes may be refused. -/
private theorem streams_discipline : Discipline Streams Streams where
  reads := Reads.streams
  exhausted := streams_of_commutes (fun _ => rfl) fun _ _ => rfl
  record _ _ _ := streams_of_commutes (fun _ => rfl) fun _ _ => rfl
  opened := id
  bind := Streams.bind
  bind_loud := Streams.bind
  assign _ := streams_replace
  builtin _ := streams_callBuiltin
  declare _ _ _ _ := streams_change _ _ _
  declareStruct _ _ _ _ := streams_change _ _ _
  inScope h := Streams.inScope h
  call d closure args h := (streams_callable d closure args _).bind fun _ => (Streams.inScope h).deeper

end Eval

/-! ### Runs -/

private theorem Program.streamsFrom_run (p : Program) (fuel : Nat) {s : Session}
    (h : ∀ b ∈ s.builtins.entries, b.Streams) : Eval.StreamsFrom s (p.run fuel) := by
  have hstreams : Eval.Streams s.scopes.root (Stmt.execAll fuel s.scopes.root p.contents >>= fun flow =>
      pure flow.value) :=
    ((Eval.streams_discipline.disciplined fuel).stmts _ _).bind fun _ => (Eval.reads_pure _).streams
  obtain ⟨data, r, hkeep, hrun⟩ := hstreams s h
  refine ⟨data, r, hkeep, fun o => ?_⟩
  rw [show p.run fuel (s.withOutput o) = _ from p.run_eq_bind fuel (s.withOutput o)]
  exact hrun o

namespace Output

variable {o : Output} {data : ByteArray}

private theorem offered_of_limit_eq_none (h : o.limit = none) (data : ByteArray) :
    o.offered data = ⟨o.bytes ++ data, none⟩ := by
  simp only [offered, room, h, ByteArray.extract_zero_size]

private theorem fits_of_limit_eq_none (h : o.limit = none) (data : ByteArray) : o.fits data = true := by
  simp [fits, room, h]

/-- The output that already holds some bytes and accepts `k` more. -/
def accepting (earlier : ByteArray) (k : Nat) : Output := ⟨earlier, some (earlier.size + k)⟩

private theorem room_accepting (earlier : ByteArray) (k n : Nat) : (accepting earlier k).room n = min n k := by
  simp only [accepting, room, Nat.add_sub_cancel_left]

private theorem fits_accepting (earlier data : ByteArray) (k : Nat) :
    (accepting earlier k).fits data = decide (data.size ≤ k) := by
  rw [fits, room_accepting, Bool.eq_iff_iff, beq_iff_eq, decide_eq_true_iff]
  omega

private theorem bytes_offered_accepting (earlier data : ByteArray) (k : Nat) :
    ((accepting earlier k).offered data).bytes = earlier ++ data.extract 0 (min data.size k) := by
  rw [offered, room_accepting]
  rfl

end Output

/-- Let a program run to its end, with a value or an error, and write something to an output without a limit.  Run in
the same session with an output that accepts `k` bytes, it writes the first `k` bytes of that.  If this is all, the
run comes to the same, in a session that differs in the output only.  Otherwise it ends with the error of `print`
that reports the failure, and as many scopes are alive and as many calls under way as before the run. -/
theorem Program.run_bounded_output {now : Nat} {s t : Session} (hs : s.Reachable)
    (hbuiltins : ∀ b ∈ s.builtins.entries, b ∈ (Registry.default now).entries) (hunbounded : s.output.limit = none)
    (p : Program) (fuel : Nat) (h : (p.run fuel s).session? = some t) :
    ∃ written : ByteArray, t.output = ⟨s.output.bytes ++ written, none⟩ ∧ ∀ (earlier : ByteArray) (k : Nat), ∃ t',
      (p.run fuel (s.withOutput (.accepting earlier k))).session? = some t' ∧
      t'.output.bytes = earlier ++ written.extract 0 (min written.size k) ∧
      (written.size ≤ k → p.run fuel (s.withOutput (.accepting earlier k)) = (p.run fuel s).withOutput t'.output) ∧
      (k < written.size → t'.scopes.depth = s.scopes.depth ∧ t'.depth = s.depth ∧
        ∃ span, p.run fuel (s.withOutput (.accepting earlier k)) =
          .failed ⟨.builtin "print" Output.writeFailure, span⟩ t') := by
  obtain ⟨written, r, -, hrun⟩ :=
    p.streamsFrom_run fuel fun b hb => Registry.streams_default now b (hbuiltins b hb)
  have hfull : p.run fuel s = r.withOutput ⟨s.output.bytes ++ written, none⟩ := by
    rw [← Output.offered_of_limit_eq_none hunbounded]
    exact (hrun s.output).1 (Output.fits_of_limit_eq_none hunbounded written)
  rw [hfull, Outcome.session?_withOutput] at h
  obtain ⟨ended, hended, rfl⟩ := Option.map_eq_some_iff.1 h
  refine ⟨written, rfl, fun earlier k => ?_⟩
  have hsink := hrun (.accepting earlier k)
  rw [Output.fits_accepting] at hsink
  by_cases hle : written.size ≤ k
  · have hsame := hsink.1 (decide_eq_true hle)
    refine ⟨ended.withOutput ((Output.accepting earlier k).offered written), ?_,
      Output.bytes_offered_accepting _ _ _,
      fun _ => ?_, fun hlt => absurd hle (Nat.not_le_of_lt hlt)⟩
    · rw [hsame, Outcome.session?_withOutput, hended]
      rfl
    · rw [hsame, hfull, Outcome.withOutput_withOutput]
      rfl
  · obtain ⟨span, t', hfailed, houtput⟩ := hsink.2 (decide_eq_false hle)
    have hsession : (p.run fuel (s.withOutput (.accepting earlier k))).session? = some t' := by
      rw [hfailed]
      rfl
    obtain ⟨-, hlevel⟩ := Program.run_level (hs.redirect (.accepting earlier k)).sound hsession
    refine ⟨t', hsession, ?_, fun hle' => absurd hle' hle,
      fun _ => ⟨hlevel.outline.live, hlevel.depth, span, hfailed⟩⟩
    rw [houtput]
    exact Output.bytes_offered_accepting _ _ _

/-- A function that prints a number and a letter of two bytes, three times in nested calls. -/
private def counting : String :=
  "fn f(n: i8) \x7b if n > 0 \x7b print(n, \"é\"); f(n - 1); \x7d \x7d f(3);"

/-- What the function has written when it has run. -/
private def countingBytes : Option ByteArray :=
  match Program.parse counting "m" with
  | .ok p => (p.program.run 40 (.fresh (.default 0) 4 .empty)).session?.map (·.output.bytes)
  | .error _ => none

/-- The sixth byte is the first one of the letter that the second call prints, and no more is accepted. -/
theorem Program.run_bounded_output_counting :
    ∃ p span t', parse counting "m" = .ok p ∧
      p.program.run 40 ((Session.fresh (.default 0) 4 .empty).withOutput (.accepting .empty 6)) =
        .failed ⟨.builtin "print" "failed to write output: sink is full", span⟩ t' ∧
      t'.output.bytes = "3é\n2é\n1é\n".toUTF8.extract 0 6 ∧ t'.scopes.depth = 1 ∧ t'.depth = 0 := by
  have hbytes : countingBytes = some "3é\n2é\n1é\n".toUTF8 := by decide +kernel
  unfold countingBytes at hbytes
  split at hbytes
  case h_2 => cases hbytes
  rename_i p hparse
  obtain ⟨t, ht, hout⟩ := Option.map_eq_some_iff.1 hbytes
  obtain ⟨written, houtput, hsinks⟩ :=
    Program.run_bounded_output (.fresh (.default 0) 4 .empty) (fun _ hb => hb) rfl p.program 40 ht
  have hwritten : written = "3é\n2é\n1é\n".toUTF8 := by
    rw [← hout, houtput]
    exact ByteArray.empty_append.symm
  obtain ⟨t', -, hkept, -, hfails⟩ := hsinks .empty 6
  rw [hwritten] at hkept hfails
  obtain ⟨hscopes, hdepth, span, hfailed⟩ := hfails (by decide)
  exact ⟨p, span, t', hparse, hfailed, by rw [hkept, ByteArray.empty_append]; rfl, hscopes, hdepth⟩

end BraceScript
