import Abacus.Proofs.Expression.Value
import Abacus.Proofs.Library.Registered

/-!
# Precedence

A run over the tokens of a tree does what the tree says (`evaluateTokens_tokens`). When the tokens
of an expression have been read, the operators on its right edge wait; whatever comes next lets all
of them go, and then the value of the expression is on top of the operands that were there before
it (`Expr.ReadsAs`, `Expr.Fits.isRead`).
-/

namespace Abacus

open Abacus.Expr

namespace Expr

theorem isScope_of_mem_rightEdge {op : Operation} :
    ∀ {e : Expr}, op ∈ e.rightEdge → op.isScope = false
  | prefixOp _ _ _ operand, h => by
    rcases List.mem_append.1 h with h | h
    · exact isScope_of_mem_rightEdge h
    · rw [List.mem_singleton.1 h]
      rfl
  | binary _ _ _ _ _ right, h => by
    rcases List.mem_append.1 h with h | h
    · exact isScope_of_mem_rightEdge h
    · rw [List.mem_singleton.1 h]
      rfl
  | literal .., h | var _, h | call .., h | group .., h | postfixOp .., h => by
    simp [rightEdge] at h

/-- What a run is after it has read an expression: it has failed as the expression does, or the
operators on the right edge wait and lead to the value of the expression. -/
inductive ReadsAs (store : Store) (e : Expr) (run : Run) : Except EvalError Run → Prop where
  | error {error : EvalError} (h : e.settle store run.workspace = .error error) :
    ReadsAs store e run (.error error)
  | ok {pending : List Frame} {w : Workspace} {previous : Reading}
    (hp : previous.completesOperand = true)
    (he : pending.map Frame.operation = e.rightEdge)
    (hw : ∀ ready : Operation → Bool, (∀ op ∈ e.rightEdge, ready op = true) →
      Run.unwind ⟨pending ++ run.frames, w, previous⟩ ready =
        e.settle store run.workspace >>= fun w => Run.unwind ⟨run.frames, w, previous⟩ ready) :
    ReadsAs store e run (.ok ⟨pending ++ run.frames, w, previous⟩)

variable {store : Store} {e : Expr} {run next : Run}

/-- Whatever lets the right edge go, and nothing that waited before the expression, leaves its
value. -/
theorem ReadsAs.unwind (h : ReadsAs store e run (.ok next)) (ready : Operation → Bool)
    (hr : ∀ op ∈ e.rightEdge, ready op = true)
    (hf : ∀ frame ∈ run.frames.head?, ready frame.operation = false) :
    next.unwind ready =
      e.settle store run.workspace >>= fun w => .ok ⟨run.frames, w, next.previous⟩ := by
  cases h with
  | ok hp he hw =>
    rw [hw ready hr]
    exact bind_congr fun w => Run.unwind_of_head hf

theorem leftSpine_of_isClosed (h : e.isClosed = true) : e.leftSpine = [] := by
  cases e <;> first | rfl | simp [isClosed] at h

/-- At the end of an argument, a group or everything, all of the right edge goes. -/
theorem ReadsAs.unwindScope (h : ReadsAs store e run (.ok next))
    (hf : ∀ frame ∈ run.frames.head?, frame.operation.isScope = true) :
    next.unwindScope =
      e.settle store run.workspace >>= fun w => .ok ⟨run.frames, w, next.previous⟩ :=
  h.unwind _ (fun op hop => by simp [isScope_of_mem_rightEdge hop]) fun frame hframe => by
    simp [hf frame hframe]

/-- What follows an expression need only be looked at when the expression has been read. -/
theorem ReadsAs.bind {α : Type} {x : Except EvalError Run} (h : ReadsAs store e run x)
    {f : Run → Except EvalError α} {g : Workspace → Except EvalError α}
    (hf : ∀ next, ReadsAs store e run (.ok next) → f next = e.settle store run.workspace >>= g) :
    x >>= f = e.settle store run.workspace >>= g := by
  cases h with
  | error h => rw [h, error_bind, error_bind]
  | ok hp he hw => exact hf _ (.ok hp he hw)

theorem ReadsAs.completesOperand (h : ReadsAs store e run (.ok next)) :
    next.previous.completesOperand = true := by
  cases h with
  | ok hp => exact hp

theorem rightEdge_of_isClosed (h : e.isClosed = true) : e.rightEdge = [] := by
  cases e <;> first | rfl | simp [isClosed] at h

/-- An expression that leaves its value at once is read. -/
theorem ReadsAs.of_eq_settle (previous : Reading) {x : Except EvalError Run}
    (h : x = e.settle store run.workspace >>= fun w => .ok ⟨run.frames, w, previous⟩)
    (hp : previous.completesOperand = true) (he : e.rightEdge = []) : ReadsAs store e run x := by
  cases hs : e.settle store run.workspace with
  | error error =>
    rw [h, hs, error_bind]
    exact .error hs
  | ok w =>
    rw [h, hs, ok_bind]
    show ReadsAs store e run (.ok ⟨[] ++ run.frames, w, previous⟩)
    exact .ok hp he.symm fun ready _ => by rw [hs, ok_bind, List.nil_append]

/-- The operand of an operator is read first; then the operator waits outside its right edge. -/
theorem ReadsAs.under {inner : Expr} {frame : Frame} {x : Except EvalError Run}
    (h : ReadsAs store inner next x) (hn : next.frames = frame :: run.frames)
    (hs : frame.operation.isScope = false)
    (he : e.rightEdge = inner.rightEdge ++ [frame.operation])
    (hv : e.settle store run.workspace =
      inner.settle store next.workspace >>= fun w => w.run frame.operation) :
    ReadsAs store e run x := by
  cases h with
  | error h =>
    rw [h, error_bind] at hv
    exact .error hv
  | @ok pending w previous hp hi hw =>
    rw [hn, ← List.singleton_append, ← List.append_assoc]
    refine .ok hp (by rw [he, ← hi, List.map_append, List.map_singleton]) fun ready hr => ?_
    rw [he] at hr
    have hw := hw ready fun op hop => hr op (List.mem_append_left _ hop)
    rw [List.append_assoc, List.singleton_append, ← hn, hw, hv, hn, bind_assoc]
    refine bind_congr fun v => ?_
    rw [Run.unwind_cons (hr _ (by simp)), Frame.fire_of_not_isScope hs]

/-- After a closed expression nothing waits that has not waited before. -/
theorem ReadsAs.of_isClosed (h : ReadsAs store e run (.ok next)) (hc : e.isClosed = true) :
    ∃ w previous, next = ⟨run.frames, w, previous⟩ ∧ e.settle store run.workspace = .ok w := by
  have hr := rightEdge_of_isClosed hc
  have hu := h.unwind (fun _ => false) (by simp [hr]) (fun _ _ => rfl)
  rw [Run.unwind_of_head fun _ _ => rfl] at hu
  obtain ⟨w, hw, hn⟩ := bind_eq_ok.1 hu.symm
  exact ⟨w, _, (Except.ok.inj hn).symm, hw⟩

/-- The tokens of an expression do not end in the name of a function. -/
theorem kind_of_mem_getLast?_tokens {token : Token} :
    ∀ {e : Expr}, token ∈ e.tokens.getLast? → token.kind ≠ .function
  | literal .., h | var _, h => by
    simp only [tokens, List.getLast?_singleton, Option.mem_some_iff] at h
    simp [← h]
  | call .., h => by
    simp only [tokens, List.getLast?_cons, List.getLast?_append, Option.some_or, Option.getD_some,
      Option.mem_some_iff] at h
    simp [← h]
  | group .., h => by
    simp only [tokens, List.getLast?_cons, List.getLast?_append, Option.some_or, Option.getD_some,
      Option.mem_some_iff] at h
    simp [← h]
  | postfixOp .., h => by
    simp only [tokens, List.getLast?_append, List.getLast?_singleton, Option.some_or,
      Option.mem_some_iff] at h
    simp [← h]
  | prefixOp _ _ _ operand, h => by
    simp only [tokens, List.getLast?_cons, Option.mem_some_iff] at h
    cases hl : operand.tokens.getLast? with
    | none => simp [hl] at h; simp [← h]
    | some last => exact kind_of_mem_getLast?_tokens (e := operand) (by simp_all)
  | binary left _ _ _ _ right, h => by
    simp only [tokens, List.getLast?_append, List.getLast?_cons, Option.some_or,
      Option.mem_some_iff] at h
    cases hl : right.tokens.getLast? with
    | none => simp [hl] at h; simp [← h]
    | some last => exact kind_of_mem_getLast?_tokens (e := right) (by simp_all)

end Expr

/-! ## Reading a tree -/

namespace Expr

variable {registry : Registry} {store : Store} {run : Run} {index : Nat}

/-- Whether every run that may go on with an expression reads it as the tree says. -/
def IsRead (registry : Registry) (store : Store) (e : Expr) : Prop :=
  ∀ (run : Run) (index : Nat), run.previous.expectsOperand = true →
    (∀ op ∈ e.leftSpine, ∀ frame ∈ run.frames.head?, frame.operation.firesBefore op = false) →
    ReadsAs store e run (runTokens registry store run index e.tokens)

/-- Inside a scope nothing lets go of the scope. -/
theorem IsRead.of_scope {e : Expr} (h : IsRead registry store e) {frame : Frame}
    {frames : List Frame} (hs : frame.operation.isScope = true) (w : Workspace) {previous : Reading}
    (hp : previous.expectsOperand = true) (index : Nat) :
    ReadsAs store e ⟨frame :: frames, w, previous⟩
      (runTokens registry store ⟨frame :: frames, w, previous⟩ index e.tokens) :=
  h ⟨frame :: frames, w, previous⟩ index hp fun op _ frame hf => by
    cases hf
    exact Operation.firesBefore_of_isScope hs op

/-- Reading the arguments of a call and its closing parenthesis. -/
theorem runTokens_argumentTokens
    (hc : ∀ op, registry.bracket? ")" = some op → op.kind ≠ .openBracket) {frame : Frame}
    {frames : List Frame} (hk : frame.operation.kind = .function) {w : Workspace}
    {previous : Reading} (hp : previous.expectsOperand = true) :
    ∀ (arguments : List Expr) (index : Nat),
      (∀ argument ∈ arguments, IsRead registry store argument) →
      runTokens registry store ⟨frame :: frames, w, previous⟩ index
          (argumentTokens arguments ++ [⟨.bracket, ")"⟩]) =
        settleArguments store arguments w >>= fun v => frame.fire v >>= fun v =>
          .ok ⟨frames, v, .callClose⟩
  | [], index, _ => by
    obtain ⟨opener, ho⟩ := Run.step_callClose hc store ⟨frame :: frames, w, previous⟩ index none
    have hu : Run.unwindScope ⟨frame :: frames, w, previous⟩ =
        Except.ok w >>= fun w => .ok ⟨frame :: frames, w, previous⟩ :=
      Run.unwind_of_head fun f hf => by
        cases hf
        simp [Operation.isScope, hk]
    rw [argumentTokens, List.nil_append, runTokens_singleton, ho, Run.close_call hk rfl opener hu,
      settleArguments_nil]
  | [argument], index, h => by
    have hs : frame.operation.isScope = true := by simp [Operation.isScope, hk]
    rw [argumentTokens, runTokens_append fun _ => kind_of_mem_getLast?_tokens,
      settleArguments_cons, bind_assoc]
    refine (IsRead.of_scope (h argument (by simp)) hs w hp index).bind fun next hn => ?_
    obtain ⟨opener, ho⟩ := Run.step_callClose hc store next (index + argument.tokens.length) none
    rw [runTokens_singleton, ho, Run.close_call hk rfl opener (hn.unwindScope (by simpa using hs))]
    simp only [settleArguments_nil, ok_bind]
  | argument :: second :: rest, index, h => by
    have hs : frame.operation.isScope = true := by simp [Operation.isScope, hk]
    rw [argumentTokens, List.append_assoc, runTokens_append fun _ => kind_of_mem_getLast?_tokens,
      settleArguments_cons, bind_assoc]
    refine (IsRead.of_scope (h argument (by simp)) hs w hp index).bind fun next hn => ?_
    rw [List.cons_append, runTokens_cons, Run.step_separator,
      Run.separate_of_unwindScope hk (hn.unwindScope (by simpa using hs)), bind_assoc]
    refine bind_congr fun v => ?_
    exact runTokens_argumentTokens hc hk rfl (second :: rest) _ fun a ha =>
      h a (List.mem_cons_of_mem _ ha)

/-- A tree whose shape the priorities give back is read as it is. -/
theorem Fits.isRead (hc : ∀ op, registry.bracket? ")" = some op → op.kind ≠ .openBracket) {e : Expr}
    (he : e.Fits registry) : IsRead registry store e := by
  induction he with
  | literal h =>
    intro run index hp _
    refine .of_eq_settle .literal ?_ rfl rfl
    rw [tokens, runTokens_singleton, Run.step_literal hp h]
    rfl
  | var =>
    intro run index hp _
    refine .of_eq_settle .var ?_ rfl rfl
    rw [tokens, runTokens_singleton, Run.step_var hp]
    rfl
  | @call name arity body arguments h _ ih =>
    intro run index hp _
    refine .of_eq_settle .callClose ?_ rfl rfl
    rw [tokens, runTokens_cons, List.head?_cons, Run.step_function hp rfl h, ok_bind,
      runTokens_cons, Run.step_callOpen rfl, ok_bind, settle_call, bind_assoc]
    exact runTokens_argumentTokens hc rfl rfl arguments _ ih
  | @group opener transform content closer ho hcl _ ih =>
    intro run index hp _
    refine .of_eq_settle .closeBracket ?_ rfl rfl
    rw [tokens, runTokens_cons, Run.step_openBracket hp ho rfl, ok_bind,
      runTokens_append fun _ => kind_of_mem_getLast?_tokens, settle_group, bind_assoc]
    refine (ih.of_scope rfl run.workspace rfl _).bind fun next hn => ?_
    rw [runTokens_singleton, Run.step_closeBracket hn.completesOperand hcl rfl]
    refine (Run.close_group rfl (hn.unwindScope ?_)).trans (bind_congr_ok fun v hv => ?_)
    · rintro frame ⟨⟩
      rfl
    · rw [Frame.fire_of_isScope_of_eq]
      simp [length_operands_of_settle hv, Operation.demand, Role.demand]
  | @prefixOp name priority action operand hpre hs _ ih =>
    intro run index hp _
    rw [tokens, runTokens_cons, Run.step_prefixOp hp hpre, ok_bind]
    refine ReadsAs.under (ih _ _ rfl fun op hop frame hf => ?_) rfl rfl rfl
      (settle_prefixOp name priority action operand)
    cases hf
    exact hs op hop
  | @postfixOp operand name action hb hpost hcl _ ih =>
    intro run index hp _
    refine .of_eq_settle .postfixOp ?_ rfl rfl
    rw [tokens, runTokens_append fun _ => kind_of_mem_getLast?_tokens, settle_postfixOp, bind_assoc]
    refine (ih run index hp (by simp [leftSpine_of_isClosed hcl])).bind fun next hn => ?_
    have hprev := hn.completesOperand
    obtain ⟨w, previous, rfl, hw⟩ := hn.of_isClosed hcl
    rw [runTokens_singleton, Run.step_postfixOp hprev hb hpost, hw, ok_bind]
  | @binary left name priority associativity action right hb hedge hs _ _ ihl ihr =>
    intro run index hp hl
    rw [tokens, runTokens_append fun _ => kind_of_mem_getLast?_tokens]
    have hleft := ihl run index hp fun op hop => hl op (List.mem_cons_of_mem _ hop)
    generalize runTokens registry store run index left.tokens = x at hleft
    have hv : (Expr.binary left name priority associativity action right).settle store
        run.workspace = _ := settle_binary left name priority associativity action right
    cases x with
    | error error =>
      cases hleft with
      | error h => exact .error (by rw [hv, h, error_bind])
    | ok next =>
      have hu := hleft.unwind _ hedge (hl _ List.mem_cons_self)
      rw [ok_bind, runTokens_cons, Run.step_binary hleft.completesOperand hb, hu]
      cases hsettle : left.settle store run.workspace with
      | error error => exact .error (by rw [hv, hsettle, error_bind])
      | ok w =>
        rw [hsettle, ok_bind] at hv
        refine ReadsAs.under (ihr _ _ rfl fun op hop frame hf => ?_) rfl rfl rfl hv
        cases hf
        exact hs op hop

end Expr

/-- Running over the tokens of a tree and ending the run. -/
theorem runAll_tokens {registry : Registry} {store : Store}
    (hc : ∀ op, registry.bracket? ")" = some op → op.kind ≠ .openBracket) {e : Expr}
    (he : e.Fits registry) :
    runAll registry store e.tokens =
      match e.operand store ∅ with
      | .ok operand bindings => (bindings.value operand).map (·, bindings)
      | .error error _ => .error error := by
  have hstart : ReadsAs store e .start (runTokens registry store .start 0 e.tokens) :=
    he.isRead hc .start 0 rfl (by simp [Run.start])
  -- With nothing pending, only the operands and the variables matter to the end of a run.
  have hfinish : ∀ next, ReadsAs store e .start (.ok next) →
      next.finish = e.settle store ∅ >>= fun w => Run.finish ⟨[], w, .binary⟩ := fun next hn => by
    rw [Run.finish, hn.unwindScope (by simp [Run.start]), bind_assoc]
    rfl
  have hsettle : e.settle store ∅ =
      match e.operand store ∅ with
      | .ok operand bindings => .ok ⟨[operand], bindings⟩
      | .error error _ => .error error := rfl
  rw [runAll, hstart.bind hfinish]
  refine (congrArg (· >>= fun w => Run.finish ⟨[], w, .binary⟩) hsettle).trans ?_
  cases e.operand store ∅ with
  | error error bindings => rfl
  | ok operand bindings =>
    show (bindings.value operand >>= fun value => .ok (value, bindings)) =
      (bindings.value operand).map (·, bindings)
    cases bindings.value operand <;> rfl

/-- The tokens of a tree whose shape the priorities give back come to what the tree comes to: to the
same value or error, with the same variables stored. The parenthesis that closes calls may not be
registered as an opening bracket. -/
theorem evaluateTokens_tokens {registry : Registry} (store : Store)
    (hc : ∀ op, registry.bracket? ")" = some op → op.kind ≠ .openBracket) {e : Expr}
    (he : e.Fits registry) : evaluateTokens registry store e.tokens = e.outcome store := by
  rw [evaluateTokens, runAll_tokens hc he, outcome]
  simp only [bind, EStateM.bind]
  cases e.operand store ∅ with
  | error error bindings => rfl
  | ok operand bindings =>
    simp only [Effect.read]
    cases bindings.value operand <;> rfl

/-- The tree of `y = -x ^ 2 + max(x++, (3))`. -/
def Expr.sample : Expr :=
  .binary (.var "y") "=" 0 .right (Effect.assign "=")
    (.binary
      (.prefixOp "-" 3 (Effect.compute fun a => -a)
        (.binary (.var "x") "^" 4 .right (Effect.compute₂ Float.pow) (.literal "2" 2.0)))
      "+" 1 .left (Effect.compute₂ fun a b => a + b)
      (.call "max" 2 (Formula.evaluate fun a b : Float => if a > b then a else b)
        [.postfixOp (.var "x") "++" (Effect.stepAfter "++" 1.0),
          .group "(" none (.literal "3" 3.0) ")"]))

theorem Expr.fits_sample : Expr.sample.Fits Library.registry := by
  have hx : (postfixOp (.var "x") "++" (Effect.stepAfter "++" 1.0)).Fits Library.registry :=
    .postfixOp (by rw [Library.find?_registry]; rfl) (by rw [Library.find?_registry]; rfl) rfl .var
  have hg : (group "(" none (.literal "3" 3.0) ")").Fits Library.registry :=
    .group (by rw [Registry.bracket?, Library.find?_registry]; rfl)
      (by rw [Registry.bracket?, Library.find?_registry, Library.find?_registry]; rfl)
      (.literal (by decide +kernel))
  refine .binary (by rw [Library.find?_registry]; rfl) (by decide) (by decide) .var ?_
  refine .binary (by rw [Library.find?_registry]; rfl) (by decide) (by decide) ?_ ?_
  · refine .prefixOp (by rw [Library.find?_registry]; rfl) (by decide) ?_
    exact .binary (by rw [Library.find?_registry]; rfl) (by decide) (by decide) .var
      (.literal (by decide +kernel))
  · refine .call (by rw [Library.find?_registry]; rfl) fun argument h => ?_
    rcases List.mem_cons.1 h with rfl | h
    · exact hx
    · rw [List.mem_singleton.1 h]
      exact hg

/-- The tree of `y = -x ^ 2 + max(x++, (3))` over the bundle. -/
theorem evaluateTokens_sample :
    evaluateTokens Library.registry ((∅ : Store).insert "x" 5.0) Expr.sample.tokens =
      Expr.sample.outcome ((∅ : Store).insert "x" 5.0) := by
  refine evaluateTokens_tokens _ (fun op hop => ?_) Expr.fits_sample
  rw [Registry.bracket?, Library.find?_registry, Library.find?_registry] at hop
  cases hop
  decide

end Abacus
